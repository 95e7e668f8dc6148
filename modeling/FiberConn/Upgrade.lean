import FiberConn.Assembly.Proofs

set_option autoImplicit false

/-! # Requests that ask for an upgrade

`llhttp_execute` returns `HPE_PAUSED_UPGRADE` after the last byte of what it takes for a `CONNECT`
or `Upgrade` request, when it has been parsed in full and `on_message_complete` has run. The handler
looks at the return value before it looks at `is_request_complete`, and takes whatever is not
`HPE_OK` for a parse error: `request_accepted_iff`. Which requests these are is for the parser to
decide. -/

namespace FiberConn

variable {L : Llhttp}

/-! ## Requests -/

/-- `bs` is exactly one request read from state `s`, as in `Llhttp.message`, but what
    `llhttp_execute` returns after the byte that completes it is left open. -/
def Llhttp.request (L : Llhttp) (s : L.State) : Bytes → Option (List Token × L.State)
  | [] => none
  | b :: bs =>
      let r := L.react s b
      if L.restarts s b then none
      else if .notice .messageComplete ∈ r.tokens b then
        if bs = [] then some (r.tokens b, r.next) else none
      else if L.isError r.next then none
      else (L.request r.next bs).map fun m => (r.tokens b ++ m.1, m.2)

/-! ## The byte that completes a request -/

/-- The byte `b`, read in state `s`, completes a message with output `ts` and leaves the parser in
    state `t`. -/
structure Llhttp.Completes (L : Llhttp) (s : L.State) (b : UInt8) (ts : List Token) (t : L.State) :
    Prop where
  same : L.restarts s b = false
  complete : .notice .messageComplete ∈ ts
  tokens : (L.react s b).tokens b = ts
  next : (L.react s b).next = t

/-- All bytes of a request but the last are read without an error and without completing it. -/
theorem Llhttp.request_last {s t : L.State} {bs : Bytes} {ts : List Token}
    (h : L.request s bs = some (ts, t)) :
    ∃ init b ts₁ ts₂ s', bs = init ++ [b] ∧ ts = ts₁ ++ ts₂ ∧ L.Reads s init ts₁ s' ∧
      .notice .messageComplete ∉ ts₁ ∧ L.Completes s' b ts₂ t := by
  induction bs generalizing s ts with
  | nil => cases h
  | cons b bs ih =>
      rw [request] at h
      split at h
      · cases h
      next hsame =>
      have hsame : L.restarts s b = false := by simpa using hsame
      split at h
      · next hlast =>
          obtain ⟨rfl, h⟩ := Option.ite_none_right_eq_some.1 h
          obtain ⟨rfl, rfl⟩ := Prod.mk.inj (Option.some.inj h)
          exact ⟨[], b, [], _, s, rfl, rfl, .nil s, List.not_mem_nil, hsame, hlast, rfl, rfl⟩
      next hnot =>
      split at h
      · cases h
      next hok =>
      have hok : L.isError (L.react s b).next = false := by simpa using hok
      obtain ⟨m, hm, hp⟩ := Option.map_eq_some_iff.1 h
      obtain ⟨rfl, rfl⟩ := Prod.mk.inj hp
      obtain ⟨init, b', ts₁, ts₂, s', rfl, hts, hread, hno, hlast⟩ := ih hm
      refine ⟨b :: init, b', _ ++ ts₁, ts₂, s', rfl, by rw [hts, List.append_assoc],
        .cons hsame hok hread, ?_, hlast⟩
      exact fun hmem => (List.mem_append.1 hmem).elim hnot hno

/-- When `llhttp_execute` returns `HPE_OK` for a request it is a message. -/
theorem Llhttp.message_of_request {s t : L.State} {bs : Bytes} {ts : List Token}
    (h : L.request s bs = some (ts, t)) (ht : L.isError t = false) :
    L.message s bs = some (ts, t) := by
  induction bs generalizing s ts with
  | nil => cases h
  | cons b bs ih =>
      rw [request] at h
      rw [message]
      split at h
      · cases h
      next hsame =>
      split at h
      · next hlast =>
          obtain ⟨rfl, h⟩ := Option.ite_none_right_eq_some.1 h
          obtain ⟨rfl, rfl⟩ := Prod.mk.inj (Option.some.inj h)
          rw [if_neg (by simp [hsame, ht]), if_pos hlast, if_pos rfl]
      next hnot =>
      split at h
      · cases h
      next hok =>
      obtain ⟨m, hm, hp⟩ := Option.map_eq_some_iff.1 h
      obtain ⟨rfl, rfl⟩ := Prod.mk.inj hp
      rw [if_neg (by simp [hsame, hok]), if_neg hnot, ih hm]
      rfl

namespace Clientconnection

/-- A data callback does not touch the flag. -/
theorem flush_isRequestComplete (c : Clientconnection L) (span : OpenSpan) (stop : ℕ) :
    (settings.flush c span stop).isRequestComplete = c.isRequestComplete := by
  cases span <;> rfl

theorem notices_isRequestComplete (ns : List Notice) (c : Clientconnection L) :
    (ns.foldl settings.notice c).isRequestComplete =
      (c.isRequestComplete || decide (.messageComplete ∈ ns)) := by
  rw [← Settings.feed_notices, foldl_feed]
  simp

theorem advance_isRequestComplete {r : Reaction L.State} {b : UInt8}
    (h : .notice .messageComplete ∈ r.tokens b) (c : Clientconnection L) (span : OpenSpan) (i : ℕ) :
    (settings.advance r c span i).1.isRequestComplete = true := by
  have hmem : .messageComplete ∈ r.before ∨ .messageComplete ∈ r.after := by
    simpa [Reaction.tokens] using h
  unfold Settings.advance
  dsimp only
  by_cases hafter : .messageComplete ∈ r.after
  · rw [if_neg (List.ne_nil_of_mem hafter), notices_isRequestComplete]
    simp [hafter]
  · have hbefore := hmem.resolve_right hafter
    have hoff : ¬ (r.before = [] ∧ span.map Prod.fst = r.span) := fun hon =>
      List.ne_nil_of_mem hbefore hon.1
    rw [if_neg hoff]
    split <;> simp [notices_isRequestComplete, flush_isRequestComplete, hbefore]

/-- **The chunk that completes a request** sets `is_request_complete`, whatever `llhttp_execute`
    returns. -/
theorem execute_completes {c : Clientconnection L} {chunk : Chunk} {xs : Bytes} {b : UInt8}
    {ts₁ ts₂ : List Token} {s t : L.State} (hc : L.isError c.parser = false)
    (hread : L.Reads c.parser xs ts₁ s) (hlast : L.Completes s b ts₂ t)
    (hchunk : chunk.bytes = xs ++ [b]) :
    (c.execute chunk).parser = t ∧ (c.execute chunk).isRequestComplete = true := by
  set start : Clientconnection L := { c with recvBuffer := c.recvBuffer.write chunk } with hstart
  let later := c.recvBuffer.bytes.drop chunk.bytes.length
  have hbuf : (settings.buffer start).drop 0 = xs ++ ([b] ++ later) := by
    show chunk.bytes ++ later = _
    rw [hchunk, List.append_assoc]
  obtain ⟨c', span, hexec, -, hkept⟩ :=
    Llhttp.execFrom_append settings_appends hread 1 0 start none (by simp) hbuf
  have hdrop : (settings.buffer c').drop (0 + xs.length) = b :: [] ++ later := by
    rw [hkept, Nat.zero_add, ← List.drop_zero (l := settings.buffer start), hbuf, List.drop_left]
  have hb : (settings.buffer c').getD (0 + xs.length) 0 = b := (drop_eq_cons hdrop).2.1
  have hadvance := advance_isRequestComplete (hlast.tokens ▸ hlast.complete) c' span (0 + xs.length)
  have hparsed : ∃ d, d.isRequestComplete = true ∧
      L.execute settings c.parser start chunk.bytes.length = (t, d) := by
    rw [Llhttp.execute, hc, if_neg Bool.false_ne_true, hchunk, List.length_append]
    show ∃ d, d.isRequestComplete = true ∧ L.execFrom settings (xs.length + 1) 0 _ _ _ = (t, d)
    rw [hexec, Llhttp.execFrom]
    simp only [hb, hlast.same, Bool.false_eq_true, if_false, hlast.next]
    split
    · exact ⟨_, hadvance, rfl⟩
    · exact ⟨_, (flush_isRequestComplete _ _ _).trans hadvance, rfl⟩
  obtain ⟨d, hd, hparsed⟩ := hparsed
  rw [execute, hparsed]
  exact ⟨rfl, hd⟩

/-! ## The handler -/

variable {c : Clientconnection L} {msg : Bytes} {ts : List Token} {t : L.State}
  {arrivals : List Arrival}

/-- The object's handler on a list of arrivals. -/
def reads (c : Clientconnection L) (arrivals : List Arrival) :
    List (Receipt (Clientconnection L)) :=
  receipts (fun c ev recvs => c.handleEvent ev recvs []) c arrivals

/-- A request for which `llhttp_execute` returns `HPE_OK` is reported without an error. -/
theorem Pristine.reads_accepted (hc : c.Pristine) (hm : L.request L.init msg = some (ts, t))
    (ht : L.isError t = false) (hev : ∀ a ∈ arrivals, a.1.Readable)
    (hdel : Delivered msg arrivals) :
    CalledAtEnd (fun c' => c'.isRequestComplete = true ∧ c'.isError = false)
      (c.reads arrivals) := by
  have hmessage := Llhttp.message_of_request hm ht
  obtain ⟨hsilent, r, hr, hcount, hp⟩ := MessageReader.receipts_message (reader_lawful L) trivial
    (hc.awaits hmessage) hev hdel
  refine ⟨hsilent, r, hr, hcount, (congrArg Progress.complete hp).trans ?_,
    (congrArg Progress.isError hp).trans hc.isError⟩
  simp [MessageReader.advance, (Llhttp.message_reads hmessage).2]

/-- One for which it returns anything else is reported complete, but with an error. -/
theorem Pristine.reads_paused (hc : c.Pristine) (hm : L.request L.init msg = some (ts, t))
    (ht : L.isError t = true) (hev : ∀ a ∈ arrivals, a.1.Readable) (hdel : Delivered msg arrivals) :
    CalledAtEnd (fun c' => c'.isRequestComplete = true ∧ c'.isError = true) (c.reads arrivals) := by
  obtain ⟨init, b, ts, ts₄, s, rfl, rfl, hread, hno, hlast⟩ := Llhttp.request_last hm
  obtain ⟨first, ev, before, chunk, xs, rfl, hchunk, rfl⟩ := hdel.last_chunk
  obtain ⟨hev, hreadable⟩ := List.forall_mem_append.1 hev
  obtain ⟨hdata, hchunks⟩ := List.forall_mem_append.1 hdel.chunks
  obtain ⟨hbefore, -⟩ := List.forall_mem_append.1 (hchunks _ List.mem_cons_self)
  -- the earlier events, the earlier chunks of the last event, and the last chunk up to `b`
  obtain ⟨ts₁, rest, s₁, rfl, hread₁, hread⟩ := hread.split
  obtain ⟨ts₂, ts₃, s₂, rfl, hread₂, hread₃⟩ := hread.split
  obtain ⟨hno₁, hno⟩ := not_or.1 (mt List.mem_append.2 hno)
  obtain ⟨hno₂, -⟩ := not_or.1 (mt List.mem_append.2 hno)
  have hok : L.isError c.parser = false := by
    rw [hc.parser]
    exact L.init_ok
  rw [← hc.parser] at hread₁
  obtain ⟨c₁, rs, hc₁, -, hrs, hquiet⟩ := MessageReader.receipts_part (reader_lawful L)
    (show (reader L).Reading c from trivial) hev hdata hc.isRequestComplete hok hread₁ hno₁
    [(ev, before ++ [.data chunk])]
  obtain ⟨c₂, hc₂, -, hhandle⟩ := MessageReader.handle_reads (reader_lawful L)
    (show (reader L).Reading c₁ from trivial) (hreadable _ List.mem_cons_self) rfl hbefore
    (by rw [hc₁]; exact MessageReader.advance_incomplete hc.isRequestComplete hno₁)
    (by rw [hc₁]; exact hread₁.isError hok) (by rw [hc₁]; exact hread₂) hno₂
  have hparser : c₂.parser = s₂ := congrArg Progress.parser hc₂
  have hok₂ : L.isError c₂.parser = false := by
    rw [hparser]
    exact hread₂.isError (hread₁.isError hok)
  obtain ⟨hpaused, hcomplete⟩ := execute_completes hok₂ (hparser ▸ hread₃) hlast hchunk
  have hreceive : c₂.receive [.data chunk] = ⟨(c₂.execute chunk).fail "Http parsing error",
      [.recv (.data chunk), .removeTrack (c₂.execute chunk).socket, .callback], []⟩ := by
    rw [receive_data, hpaused, if_pos ht]
  have hlastEvent : (reader L).handle c₁ ev (before ++ [.data chunk]) =
      { c₂.receive [.data chunk] with
        effects := before.map .recv ++ (c₂.receive [.data chunk]).effects } := hhandle
  show CalledAtEnd _ (receipts (reader L).handle c (first ++ [(ev, before ++ [.data chunk])]))
  rw [hrs, receipts, receipts, hlastEvent, hreceive]
  exact .of_last hquiet (MessageReader.countP_recvs before _) ⟨hcomplete, rfl⟩

end Clientconnection

/-! ## The law -/

/-- **A request is reported complete and without an error exactly if `llhttp_execute` returns
    `HPE_OK` after its last byte**, for every parser and whatever the chunks are. -/
theorem request_accepted_iff {msg : Bytes} {ts : List Token} {t : L.State}
    (hm : L.request L.init msg = some (ts, t)) {c : Clientconnection L} (hc : c.Pristine)
    {arrivals : List Arrival} (hev : ∀ a ∈ arrivals, a.1.Readable) (hdel : Delivered msg arrivals) :
    CalledAtEnd (fun c' => c'.isRequestComplete = true ∧ c'.isError = false) (c.reads arrivals) ↔
      L.isError t = false := by
  constructor
  · intro haccepted
    by_contra hno
    have hpauses : L.isError t = true := by simpa using hno
    obtain ⟨c', ⟨-, hok⟩, -, herr⟩ := haccepted.common (hc.reads_paused hm hpauses hev hdel)
    rw [hok] at herr
    cases herr
  · intro ht
    exact hc.reads_accepted hm ht hev hdel

/-- A parser state with the output for the current message, and whether it has been paused. -/
structure Pausable (L : Llhttp) where
  state : L.State
  seen : List Token
  paused : Bool

/-- The same parser, which pauses after a `CONNECT` request. -/
def Llhttp.pausing (L : Llhttp) : Llhttp where
  State := Pausable L
  init := ⟨L.init, [], false⟩
  isError s := s.paused || L.isError s.state
  init_ok := by rw [L.init_ok, Bool.false_or]
  restarts s b := L.restarts s.state b
  restart s := ⟨L.restart s.state, [], false⟩
  react s b :=
    let r := L.react s.state b
    let seen := s.seen ++ r.tokens b
    let pauses := .notice .messageComplete ∈ r.tokens b ∧ bytesOf .method seen = ascii "CONNECT"
    ⟨r.before, r.span, r.after, ⟨r.next, seen, pauses⟩⟩

theorem request_accepted_cut :
    CalledAtEnd (fun c' => c'.isRequestComplete = true ∧ c'.isError = false)
      ((.new 5 "c" : Clientconnection headParser.pausing).reads cutArrivals) := by
  have hget : (headParser.pausing.request headParser.pausing.init getRequest).map
      (fun m => (m.1, headParser.pausing.isError m.2)) = some (getTokens, false) := by
    decide +kernel
  obtain ⟨⟨ts, t⟩, hm, hp⟩ := Option.map_eq_some_iff.1 hget
  obtain ⟨rfl, ht⟩ := Prod.mk.inj hp
  exact (request_accepted_iff hm ⟨rfl, rfl, rfl, rfl⟩ (by decide +kernel)
    ⟨by decide +kernel, by decide +kernel, by decide +kernel⟩).2 ht

def connectRequest : Bytes := ascii "CONNECT h:80 HTTP/1.1\r\nHost: h\r\n\r\n"

/-- The whole request in one chunk. -/
def connectArrivals : List Arrival :=
  [(readable, [.data ⟨connectRequest, by decide +kernel, by decide +kernel⟩])]

/-- **A valid `CONNECT` request is reported as a parse error.** -/
theorem connect_reported_as_error : ∃ ts t,
    headParser.pausing.request headParser.pausing.init connectRequest = some (ts, t) ∧
    headParser.pausing.isError t = true ∧
    (∀ a ∈ connectArrivals, a.1.Readable) ∧ Delivered connectRequest connectArrivals ∧
    ¬ CalledAtEnd (fun c' => c'.isRequestComplete = true ∧ c'.isError = false)
      ((.new 5 "c" : Clientconnection headParser.pausing).reads connectArrivals) := by
  have hconnect : (headParser.pausing.request headParser.pausing.init connectRequest).map
      (fun m => headParser.pausing.isError m.2) = some true := by
    decide +kernel
  obtain ⟨⟨ts, t⟩, hm, ht⟩ := Option.map_eq_some_iff.1 hconnect
  have hev : ∀ a ∈ connectArrivals, a.1.Readable := by decide +kernel
  have hdel : Delivered connectRequest connectArrivals :=
    ⟨by decide +kernel, by decide +kernel, by decide +kernel⟩
  refine ⟨ts, t, hm, ht, hev, hdel, fun haccepted => ?_⟩
  have hpaused := Clientconnection.Pristine.reads_paused
    (c := (.new 5 "c" : Clientconnection headParser.pausing)) ⟨rfl, rfl, rfl, rfl⟩ hm ht hev hdel
  obtain ⟨c', ⟨-, hok⟩, -, herr⟩ := haccepted.common hpaused
  rw [hok] at herr
  cases herr

end FiberConn
