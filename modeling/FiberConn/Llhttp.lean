import FiberConn.DataTypes

set_option autoImplicit false

/-! # llhttp (`llhttp.h`)

Only llhttp's header is in the repository, so the parser is a parameter: an `Llhttp` is any
automaton that reads one byte at a time and says, for each, which callbacks the byte causes. What is
fixed is how `llhttp_execute` drives it:

* it parses *in place*: byte `i` is read from the caller's memory at the time the parser gets to it,
  and a data callback gets the part of that memory its span covers, at the time it is called;
* a span is reported when it ends, or up to the end of the buffer when it goes on in the next one;
* when a message is complete and the callbacks return 0 it goes on, and on the first byte of the
  next message it calls `on_reset` before it looks at that byte;
* an error is final: every later call returns it again.

`Settings` are the callbacks and `execute` is `llhttp_execute`. The main result is
`execFrom_append`: for callbacks that leave the memory alone, reading a buffer span by span has the
same effect as feeding its tokens one at a time (`Settings.feed`), so it does not matter where the
kernel cut the stream. -/

namespace FiberConn

/-- The data callbacks in use. -/
inductive SpanKind
  | method
  | url
  | version
  | status
  | headerField
  | headerValue
  | body
deriving DecidableEq, Repr

/-- The callbacks without data in use; `on_reset` is kept apart. -/
inductive Notice
  | messageBegin
  | headerValueComplete
  | headersComplete
  | messageComplete
deriving DecidableEq, Repr

/-- What one byte causes: the callbacks made before it, the span it is part of, those made after it,
    and the next state. -/
structure Reaction (State : Type) where
  before : List Notice
  span : Option SpanKind
  after : List Notice
  next : State

/-- The parser, as `llhttp_init` sets it up for one type of message. -/
structure Llhttp where
  State : Type
  init : State
  /-- `llhttp_execute` returns something other than `HPE_OK`. -/
  isError : State → Bool
  init_ok : isError init = false
  /-- In this state this byte is the first of a message after the first. -/
  restarts : State → UInt8 → Bool
  /-- The state after `on_reset`, with that byte still to be read. -/
  restart : State → State
  react : State → UInt8 → Reaction State

/-- The callbacks of one client of the parser, and the memory it parses from. -/
structure Settings (σ : Type) where
  buffer : σ → Bytes
  span : σ → SpanKind → Bytes → σ
  notice : σ → Notice → σ
  reset : σ → σ

/-- The bytes of a buffer from `start` up to `stop`. -/
def slice (bs : Bytes) (start stop : ℕ) : Bytes := (bs.drop start).take (stop - start)

/-- A span whose end has not been reached: its kind and where it starts in the buffer. -/
abbrev OpenSpan := Option (SpanKind × ℕ)

variable {σ : Type} {L : Llhttp}

namespace Settings

/-- The data callback for a span that ends at `stop`. -/
def flush (S : Settings σ) (c : σ) (span : OpenSpan) (stop : ℕ) : σ :=
  match span with
  | none => c
  | some (kind, start) => S.span c kind (slice (S.buffer c) start stop)

/-- The callbacks that reading byte `i` causes. The open span goes on if the byte is part of a span
    of the same kind and nothing is called in between. -/
def advance (S : Settings σ) (r : Reaction L.State) (c : σ) (span : OpenSpan) (i : ℕ) :
    σ × OpenSpan :=
  let goesOn := r.before = [] ∧ span.map Prod.fst = r.span
  let c := if goesOn then c else r.before.foldl S.notice (S.flush c span i)
  let span := if goesOn then span else r.span.map fun kind => (kind, i)
  if r.after = [] then (c, span) else (r.after.foldl S.notice (S.flush c span (i + 1)), none)

end Settings

namespace Llhttp

/-- The loop of `llhttp_execute`: `left` bytes to go, at byte `i`. -/
def execFrom (L : Llhttp) (S : Settings σ) :
    (left i : ℕ) → L.State → σ → OpenSpan → L.State × σ
  | 0, i, s, c, span => (s, S.flush c span i)
  | left + 1, i, s, c, span =>
      let again := L.restarts s ((S.buffer c).getD i 0)
      let s := if again then L.restart s else s
      let c := if again then S.reset (S.flush c span i) else c
      let span := if again then none else span
      -- `on_reset` has returned: the byte is read from the memory as it is now
      let r := L.react s ((S.buffer c).getD i 0)
      let a := S.advance r c span i
      if L.isError r.next then (r.next, a.1) else L.execFrom S left (i + 1) r.next a.1 a.2

/-- `llhttp_execute(parser, data, len)` with `data` the client's buffer. -/
def execute (L : Llhttp) (S : Settings σ) (s : L.State) (c : σ) (len : ℕ) : L.State × σ :=
  if L.isError s then (s, c) else L.execFrom S len 0 s c none

end Llhttp

/-! ## Tokens -/

/-- The parser's output, without the division into buffers. -/
inductive Token
  | notice (n : Notice)
  | byte (kind : SpanKind) (b : UInt8)
deriving DecidableEq, Repr

/-- What reading `b` adds to the output. -/
def Reaction.tokens {State : Type} (r : Reaction State) (b : UInt8) : List Token :=
  r.before.map .notice ++ (r.span.map fun kind => .byte kind b).toList ++ r.after.map .notice

/-- The effect of one token on the client. -/
def Settings.feed (S : Settings σ) (c : σ) : Token → σ
  | .notice n => S.notice c n
  | .byte kind b => S.span c kind [b]

/-- `L.Reads s bs ts s'`: from `s` to `s'` the parser reads `bs` as part of one message, with output
    `ts`. -/
inductive Llhttp.Reads (L : Llhttp) : L.State → Bytes → List Token → L.State → Prop
  | nil (s : L.State) : Reads L s [] [] s
  | cons {s t : L.State} {b : UInt8} {bs : Bytes} {ts : List Token}
      (hr : L.restarts s b = false) (he : L.isError (L.react s b).next = false)
      (h : Reads L (L.react s b).next bs ts t) :
      Reads L s (b :: bs) ((L.react s b).tokens b ++ ts) t

/-! ## Parsing in place -/

/-- The callbacks, `on_reset` apart, append what they are given and leave the memory alone. -/
structure Settings.Appends (S : Settings σ) : Prop where
  span_span : ∀ c kind xs ys, S.span (S.span c kind xs) kind ys = S.span c kind (xs ++ ys)
  buffer_span : ∀ c kind xs, S.buffer (S.span c kind xs) = S.buffer c
  buffer_notice : ∀ c n, S.buffer (S.notice c n) = S.buffer c

theorem slice_self (bs : Bytes) (i : ℕ) : slice bs i i = [] := by simp [slice]

theorem slice_succ {bs : Bytes} {start i : ℕ} (hs : start ≤ i) (hi : i < bs.length) :
    slice bs start (i + 1) = slice bs start i ++ [bs.getD i 0] := by
  obtain ⟨d, rfl⟩ := Nat.exists_eq_add_of_le hs
  have hd : d < (bs.drop start).length := by
    rw [List.length_drop]
    omega
  rw [slice, slice, show start + d + 1 - start = d + 1 by omega, Nat.add_sub_cancel_left,
    List.take_add_one, List.getElem?_drop, List.getElem?_eq_getElem hi]
  simp [List.getD_eq_getElem?_getD, hi]

/-- The bytes from `i` on begin with `b :: bs`: byte `i` is `b`, and `bs` begins at `i + 1`. -/
theorem drop_eq_cons {buf bs more : Bytes} {b : UInt8} {i : ℕ} (h : buf.drop i = b :: bs ++ more) :
    i < buf.length ∧ buf.getD i 0 = b ∧ buf.drop (i + 1) = bs ++ more := by
  have hi : i < buf.length := by
    by_contra hlt
    rw [List.drop_eq_nil_of_le (Nat.le_of_not_lt hlt)] at h
    exact absurd h (by simp)
  rw [List.drop_eq_getElem_cons hi, List.cons_append, List.cons.injEq] at h
  exact ⟨hi, by simp [List.getD_eq_getElem?_getD, hi, h.1], h.2⟩

namespace Settings

variable {S : Settings σ} {c : σ} {span : OpenSpan} {i : ℕ}

theorem Appends.buffer_flush (hS : S.Appends) : S.buffer (S.flush c span i) = S.buffer c := by
  unfold flush
  split
  · rfl
  · exact hS.buffer_span _ _ _

theorem Appends.buffer_notices (hS : S.Appends) (ns : List Notice) :
    S.buffer (ns.foldl S.notice c) = S.buffer c := by
  induction ns generalizing c with
  | nil => rfl
  | cons n ns ih => rw [List.foldl_cons, ih, hS.buffer_notice]

theorem feed_notices (ns : List Notice) :
    (ns.map Token.notice).foldl S.feed c = ns.foldl S.notice c := by
  induction ns generalizing c with
  | nil => rfl
  | cons n ns ih => exact ih

/-- **One byte.** Seen with the open span reported, reading a byte has the effect of its tokens. -/
theorem Appends.advance (hS : S.Appends) (r : Reaction L.State)
    (hspan : ∀ x ∈ span, x.2 ≤ i) (hi : i < (S.buffer c).length) :
    S.flush (S.advance r c span i).1 (S.advance r c span i).2 (i + 1) =
      (r.tokens ((S.buffer c).getD i 0)).foldl S.feed (S.flush c span i) ∧
    S.buffer (S.advance r c span i).1 = S.buffer c ∧
    ∀ x ∈ (S.advance r c span i).2, x.2 ≤ i + 1 := by
  rw [Reaction.tokens, List.foldl_append, List.foldl_append, feed_notices, feed_notices]
  set b := (S.buffer c).getD i 0 with hb
  -- the client and the open span once byte `i` is part of it, with what is reported by then
  obtain ⟨c', span', hc', hspan', hflush, hbuf, hle⟩ : ∃ c' span',
      c' = (if r.before = [] ∧ span.map Prod.fst = r.span then c
        else r.before.foldl S.notice (S.flush c span i)) ∧
      span' = (if r.before = [] ∧ span.map Prod.fst = r.span then span
        else r.span.map fun kind => (kind, i)) ∧
      S.flush c' span' (i + 1) =
        (r.span.map fun kind => Token.byte kind b).toList.foldl S.feed
          (r.before.foldl S.notice (S.flush c span i)) ∧
      S.buffer c' = S.buffer c ∧ ∀ x ∈ span', x.2 ≤ i + 1 := by
    refine ⟨_, _, rfl, rfl, ?_⟩
    by_cases hon : r.before = [] ∧ span.map Prod.fst = r.span
    · rw [if_pos hon, if_pos hon, hon.1, ← hon.2]
      refine ⟨?_, rfl, fun x hx => (hspan x hx).trans (Nat.le_succ i)⟩
      cases span with
      | none => rfl
      | some x =>
          obtain ⟨kind, start⟩ := x
          have hstart : start ≤ i := hspan _ rfl
          show S.span c kind (slice (S.buffer c) start (i + 1)) =
            S.span (S.span c kind (slice (S.buffer c) start i)) kind [b]
          rw [hS.span_span, slice_succ hstart hi]
    · rw [if_neg hon, if_neg hon]
      have hbuf : S.buffer (r.before.foldl S.notice (S.flush c span i)) = S.buffer c := by
        rw [hS.buffer_notices, hS.buffer_flush]
      refine ⟨?_, hbuf, ?_⟩
      · cases hk : r.span with
        | none => rfl
        | some kind =>
            show S.span _ kind (slice (S.buffer _) i (i + 1)) = S.span _ kind [b]
            rw [hbuf, slice_succ le_rfl hi, slice_self, List.nil_append]
      · intro x hx
        obtain ⟨kind, -, rfl⟩ := Option.map_eq_some_iff.1 hx
        exact Nat.le_succ i
  unfold Settings.advance
  dsimp only
  rw [← hc', ← hspan', ← hflush]
  split
  · next hafter =>
      rw [hafter]
      exact ⟨rfl, hbuf, hle⟩
  · refine ⟨rfl, ?_, by simp⟩
    rw [hS.buffer_notices, hS.buffer_flush, hbuf]

end Settings

namespace Llhttp

open Settings

variable {S : Settings σ}

/-- **Parsing in place.** While the buffer holds bytes of one message, the loop gets through them
    with the effect of their tokens, wherever spans and buffers begin and end. -/
theorem execFrom_append (hS : S.Appends) {s t : L.State} {bs more : Bytes} {ts : List Token}
    (h : L.Reads s bs ts t) (left i : ℕ) (c : σ) (span : OpenSpan)
    (hspan : ∀ x ∈ span, x.2 ≤ i) (hbuf : (S.buffer c).drop i = bs ++ more) :
    ∃ c' span', L.execFrom S (bs.length + left) i s c span =
        L.execFrom S left (i + bs.length) t c' span' ∧
      S.flush c' span' (i + bs.length) = ts.foldl S.feed (S.flush c span i) ∧
      S.buffer c' = S.buffer c := by
  induction h generalizing i c span with
  | nil s => exact ⟨c, span, by simp, rfl, rfl⟩
  | @cons s t b bs ts hr he h ih =>
      obtain ⟨hi, hb, hrest⟩ := drop_eq_cons hbuf
      obtain ⟨hflush, hkept, hle⟩ := hS.advance (L.react s b) hspan hi
      rw [hb] at hflush
      rw [← hkept] at hrest
      obtain ⟨c', span', hexec, hfl, hbuf'⟩ := ih (i + 1) _ _ hle hrest
      refine ⟨c', span', ?_, ?_, hbuf'.trans hkept⟩
      · rw [List.length_cons, show bs.length + 1 + left = (bs.length + left) + 1 by omega, execFrom]
        simp only [hb, hr, Bool.false_eq_true, if_false, he]
        rw [hexec, show i + 1 + bs.length = i + (bs.length + 1) by omega]
      · rw [List.foldl_append, ← hflush, ← hfl]
        congr 1
        simp only [List.length_cons]
        omega

/-- A buffer that holds bytes of one message only. -/
theorem execute_reads (hS : S.Appends) {s t : L.State} {bs more : Bytes} {ts : List Token}
    (hs : L.isError s = false) (h : L.Reads s bs ts t) {c : σ} (hbuf : S.buffer c = bs ++ more) :
    L.execute S s c bs.length = (t, ts.foldl S.feed c) := by
  obtain ⟨c', span', hexec, hflush, -⟩ := execFrom_append hS h 0 0 c none (by simp) hbuf
  rw [execute, hs, if_neg Bool.false_ne_true, ← Nat.add_zero bs.length, hexec, execFrom, hflush]
  rfl

/-- What no callback changes, `llhttp_execute` does not change. -/
theorem execute_frame {α : Type} {f : σ → α} (hspan : ∀ c kind bs, f (S.span c kind bs) = f c)
    (hnotice : ∀ c n, f (S.notice c n) = f c) (hreset : ∀ c, f (S.reset c) = f c) (s : L.State)
    (c : σ) (len : ℕ) : f (L.execute S s c len).2 = f c := by
  have hflush (c : σ) (span : OpenSpan) (i : ℕ) : f (S.flush c span i) = f c := by
    unfold flush
    split
    · rfl
    · exact hspan _ _ _
  have hnotices (ns : List Notice) (c : σ) : f (ns.foldl S.notice c) = f c := by
    induction ns generalizing c with
    | nil => rfl
    | cons n ns ih => rw [List.foldl_cons, ih, hnotice]
  have hadvance (r : Reaction L.State) (c : σ) (span : OpenSpan) (i : ℕ) :
      f (S.advance r c span i).1 = f c := by
    unfold Settings.advance
    dsimp only
    split <;> split <;> simp only [hnotices, hflush]
  have hexec (left i : ℕ) (s : L.State) (c : σ) (span : OpenSpan) :
      f (L.execFrom S left i s c span).2 = f c := by
    induction left generalizing i s c span with
    | zero => exact hflush _ _ _
    | succ left ih =>
        simp only [execFrom]
        cases L.restarts s ((S.buffer c).getD i 0) with
        | false =>
            simp only [Bool.false_eq_true, if_false]
            split <;> simp only [ih, hadvance]
        | true =>
            simp only [if_true]
            split <;> simp only [ih, hadvance, hreset, hflush]
  unfold execute
  split
  · rfl
  · exact hexec _ _ _ _ _

end Llhttp

end FiberConn
