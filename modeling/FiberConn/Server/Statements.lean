import FiberConn.Lib.Quoted
import FiberConn.Server.Proofs
import Mathlib.Data.List.TakeWhile

set_option autoImplicit false

/-! # What the server asks of the database

The title of a book goes between the quotes of a string constant as it comes, and
`DBpooler::sendQuery` copies the statement up to its first zero. `inserted` reads a statement as
PostgreSQL does, with the standard string constants that are its default. What comes of a title
(`inserted_insertQuery_iff`) decides for every run whether the server asks for anything but to
insert the books of its clients and to list them (`statements_exact_iff`). -/

namespace FiberConn

open Machine

/-! ## Reading a statement -/

/-- The quote of a string constant. -/
def sqlQuote : Char := Char.ofNat 0x27

/-- What follows the text `text`. -/
def expect (text cs : List Char) : Option (List Char) :=
  if text <+: cs then some (cs.drop text.length) else none

def readNat (cs : List Char) : Option (ℕ × List Char) :=
  let digits := cs.takeWhile Char.isDigit
  if digits = [] then none
  else some (Nat.ofDigitChars 10 digits 0, cs.dropWhile Char.isDigit)

def readInt (cs : List Char) : Option (ℤ × List Char) :=
  match expect ['-'] cs with
  | some cs => (readNat cs).map fun x => (-x.1, x.2)
  | none => (readNat cs).map fun x => (x.1, x.2)

/-- The row, and what follows the string constant. -/
def readRow (cs : List Char) : Option ((ℤ × List Char) × List Char) :=
  (expect "INSERT INTO books (id, title) VALUES (".toList cs).bind fun cs =>
    (readInt cs).bind fun x =>
      (expect ", '".toList x.2).bind fun cs =>
        (readLiteral sqlQuote cs).map fun y => ((x.1, y.1), y.2)

/-- The book that a statement inserts, if that is all it does. -/
def inserted (statement : String) : Option (ℤ × String) :=
  (readRow statement.toList).bind fun x =>
    if x.2 = ");".toList then some (x.1.1, String.ofList x.1.2) else none

/-- The title can stand between quotes, and in a C string. -/
def Plain (title : String) : Prop := sqlQuote ∉ title.toList ∧ Char.ofNat 0 ∉ title.toList

instance (title : String) : Decidable (Plain title) := inferInstanceAs (Decidable (_ ∧ _))

theorem expect_append (text cs : List Char) : expect text (text ++ cs) = some cs := by
  rw [expect, if_pos (List.prefix_append _ _), List.drop_left]

theorem isDigit_of_mem {n : ℕ} {c : Char} (hc : c ∈ Nat.toDigits 10 n) : c.isDigit = true :=
  Nat.isDigit_of_mem_toDigits (by decide) le_rfl hc

theorem readNat_repr (n : ℕ) {cs : List Char} (hcs : cs.takeWhile Char.isDigit = []) :
    readNat (n.repr.toList ++ cs) = some (n, cs) := by
  have hdigits : ∀ c ∈ Nat.toDigits 10 n, c.isDigit = true := fun _ => isDigit_of_mem
  have hdrop : cs.dropWhile Char.isDigit = cs := by
    have hsplit := List.takeWhile_append_dropWhile (p := Char.isDigit) (l := cs)
    rwa [hcs] at hsplit
  rw [Nat.toList_repr, readNat, List.takeWhile_append_of_pos hdigits,
    List.dropWhile_append_of_pos hdigits, hcs, hdrop, List.append_nil,
    if_neg Nat.toDigits_ne_nil, Nat.ofDigitChars_ten_toDigits]

theorem expect_minus_repr (n : ℕ) (cs : List Char) :
    expect ['-'] (n.repr.toList ++ cs) = none := by
  rw [expect, if_neg]
  rintro ⟨more, hmore⟩
  rw [Nat.toList_repr] at hmore
  cases hdigits : Nat.toDigits 10 n with
  | nil => exact Nat.toDigits_ne_nil hdigits
  | cons d ds =>
      rw [hdigits] at hmore
      obtain ⟨hd, -⟩ := List.cons.inj hmore
      have hdigit : d.isDigit = true :=
        isDigit_of_mem (n := n) (by rw [hdigits]; exact List.mem_cons_self)
      rw [← hd] at hdigit
      exact absurd hdigit (by decide)

theorem readInt_toString (id : ℤ) {cs : List Char} (hcs : cs.takeWhile Char.isDigit = []) :
    readInt ((toString id).toList ++ cs) = some (id, cs) := by
  rw [Int.toString_eq_repr, Int.repr_eq_if]
  split
  · next hid =>
      rw [readInt, expect_minus_repr]
      dsimp only
      rw [readNat_repr _ hcs, Option.map_some, Int.toNat_of_nonneg hid]
  · next hid =>
      have hminus : ("-" : String).toList = ['-'] := by decide
      rw [String.toList_append, List.append_assoc, hminus, readInt, expect_append]
      dsimp only
      rw [readNat_repr _ hcs, Option.map_some, Int.toNat_of_nonneg (by omega), neg_neg]

/-- The statement up to the title. -/
def beforeTitle (id : ℤ) : List Char :=
  "INSERT INTO books (id, title) VALUES (".toList ++ ((toString id).toList ++ ", '".toList)

theorem toList_insertQuery (id : ℤ) (title : String) : (insertQuery id title).toList =
    beforeTitle id ++ (title.toList ++ sqlQuote :: ");".toList) := by
  have hend : "');".toList = sqlQuote :: ");".toList := by decide
  unfold insertQuery beforeTitle
  simp only [String.toList_append, List.append_assoc]
  rw [hend]

theorem readRow_insert (id : ℤ) (cs : List Char) : readRow (beforeTitle id ++ cs) =
    (readLiteral sqlQuote cs).map fun y => ((id, y.1), y.2) := by
  have htext : ", '".toList = [',', ' ', sqlQuote] := by decide
  have hcomma : (", '".toList ++ cs).takeWhile Char.isDigit = [] := by
    rw [htext]
    rfl
  unfold readRow beforeTitle
  simp only [List.append_assoc, expect_append, Option.bind_some, readInt_toString id hcomma]

theorem zero_notMem_beforeTitle (id : ℤ) : Char.ofNat 0 ∉ beforeTitle id := by
  have hrepr (n : ℕ) : Char.ofNat 0 ∉ n.repr.toList := by
    rw [Nat.toList_repr]
    exact fun hc => absurd (isDigit_of_mem hc) (by decide)
  have hid : Char.ofNat 0 ∉ (toString id).toList := by
    rw [Int.toString_eq_repr, Int.repr_eq_if]
    split
    · exact hrepr _
    · rw [String.toList_append, List.mem_append, not_or]
      exact ⟨by decide, hrepr _⟩
  unfold beforeTitle
  simp only [List.mem_append, not_or]
  exact ⟨by decide, hid, by decide⟩

/-- A C string ends at the first zero. -/
theorem toList_cStr_insertQuery (id : ℤ) (title : String) :
    (cStr (insertQuery id title)).toList = beforeTitle id ++
      (title.toList ++ sqlQuote :: ");".toList).takeWhile (· != Char.ofNat 0) := by
  have hbefore : ∀ c ∈ beforeTitle id, (c != Char.ofNat 0) = true := fun c hc =>
    bne_iff_ne.2 fun he => zero_notMem_beforeTitle id (he ▸ hc)
  rw [cStr, String.toList_ofList, toList_insertQuery, List.takeWhile_append_of_pos hbefore]

theorem inserted_iff {statement title : String} {id id' : ℤ} {cs : List Char}
    (h : statement.toList = beforeTitle id ++ cs) : inserted statement = some (id', title) ↔
      id = id' ∧ readLiteral sqlQuote cs = some (title.toList, ");".toList) := by
  rw [inserted, h, readRow_insert]
  constructor
  · intro hrow
    obtain ⟨row, hread, hrow⟩ := Option.bind_eq_some_iff.1 hrow
    obtain ⟨⟨text, rest⟩, hliteral, rfl⟩ := Option.map_eq_some_iff.1 hread
    obtain ⟨hrest, hrow⟩ := Option.ite_none_right_eq_some.1 hrow
    obtain ⟨hid, htitle⟩ := Prod.mk.inj (Option.some.inj hrow)
    refine ⟨hid, hliteral.trans ?_⟩
    rw [← htitle, String.toList_ofList, ← hrest]
  · rintro ⟨rfl, hliteral⟩
    rw [hliteral, Option.map_some, Option.bind_some, if_pos rfl, String.ofList_toList]

/-- **The statement inserts the book it is made from** exactly if its title is plain. -/
theorem inserted_insertQuery_iff (id : ℤ) (title : String) :
    inserted (cStr (insertQuery id title)) = some (id, title) ↔ Plain title := by
  rw [inserted_iff (toList_cStr_insertQuery id title), and_iff_right rfl]
  have hend : Char.ofNat 0 ∉ sqlQuote :: ");".toList := by decide
  by_cases hzero : Char.ofNat 0 ∈ title.toList
  · -- what is left of the statement is shorter than the title
    refine ⟨fun hread => ?_, fun hplain => absurd hzero hplain.2⟩
    have hcut : (title.toList ++ sqlQuote :: ");".toList).takeWhile (· != Char.ofNat 0) =
        title.toList.takeWhile (· != Char.ofNat 0) := by
      rw [List.takeWhile_append, if_neg]
      intro hlen
      have hall := List.takeWhile_eq_self_iff.1
        ((List.takeWhile_prefix _).eq_of_length hlen) _ hzero
      exact absurd hall (by decide)
    rw [hcut] at hread
    have hlen := congrArg List.length (readLiteral_sound hread).1
    have hle := (List.takeWhile_prefix (l := title.toList) (· != Char.ofNat 0)).length_le
    have hdoubled := length_le_doubled sqlQuote title.toList
    rw [List.length_append, List.length_cons] at hlen
    omega
  · have hall : (title.toList ++ sqlQuote :: ");".toList).takeWhile (· != Char.ofNat 0) =
        title.toList ++ sqlQuote :: ");".toList := by
      refine List.takeWhile_eq_self_iff.2 fun c hc => bne_iff_ne.2 fun he => ?_
      rw [he, List.mem_append] at hc
      exact hc.elim hzero hend
    rw [hall, readLiteral_plain_iff (by decide), Plain, and_iff_left hzero]

/-- No two books have the same statement. -/
theorem insertQuery_injective {id id' : ℤ} {title title' : String}
    (h : insertQuery id title = insertQuery id' title') : id = id' ∧ title = title' := by
  have hlist := congrArg String.toList h
  rw [toList_insertQuery, toList_insertQuery] at hlist
  unfold beforeTitle at hlist
  simp only [List.append_assoc, List.append_cancel_left_eq] at hlist
  have htext : ", '".toList = [',', ' ', sqlQuote] := by decide
  have hcomma (cs : List Char) : (", '".toList ++ cs).takeWhile Char.isDigit = [] := by
    rw [htext]
    rfl
  have hread := congrArg readInt hlist
  rw [readInt_toString id (hcomma _), readInt_toString id' (hcomma _)] at hread
  obtain ⟨hid, hrest⟩ := Prod.mk.inj (Option.some.inj hread)
  refine ⟨hid, String.toList_inj.1 ?_⟩
  exact List.append_cancel_right (List.append_cancel_left hrest)

theorem insertQuery_ne_selectQuery (id : ℤ) (title : String) :
    insertQuery id title ≠ selectQuery := by
  intro h
  have hinsert : "INSERT INTO books (id, title) VALUES (".toList =
      'I' :: "NSERT INTO books (id, title) VALUES (".toList := by decide
  have hfirst : (insertQuery id title).toList.head? = some 'I' := by
    rw [toList_insertQuery]
    unfold beforeTitle
    simp only [hinsert, List.cons_append, List.head?_cons]
  rw [h] at hfirst
  exact absurd hfirst (by decide)

/-! ## The statements of a run -/

/-- The statement lists the books, or inserts the book it is made from. -/
def AsMeant (query : String) : Prop :=
  query = selectQuery ∨ ∃ id title, query = insertQuery id title ∧
    inserted (cStr query) = some (id, title)

theorem asMeant_insertQuery_iff {id : ℤ} {title : String} :
    AsMeant (insertQuery id title) ↔ Plain title := by
  rw [← inserted_insertQuery_iff id title]
  constructor
  · rintro (hselect | ⟨id', title', hquery, hinserted⟩)
    · exact absurd hselect (insertQuery_ne_selectQuery id title)
    · obtain ⟨rfl, rfl⟩ := insertQuery_injective hquery
      exact hinserted
  · exact fun hinserted => Or.inr ⟨id, title, rfl, hinserted⟩

/-- If the request is for a book to be inserted, the title is plain. -/
def Json.PlainTitle (J : Json) (r : HttpRequest) : Prop :=
  r.url ≠ ascii "/" → ∀ j ∈ J.parse r.body, ∀ book ∈ J.book j, Plain book.2

instance (J : Json) (r : HttpRequest) : Decidable (J.PlainTitle r) :=
  inferInstanceAs (Decidable (_ → ∀ j ∈ J.parse r.body, ∀ book ∈ J.book j, Plain book.2))

theorem Json.Inserts.plainTitle_iff {J : Json} {r : HttpRequest} {book : ℤ × String}
    (h : J.Inserts r book) : J.PlainTitle r ↔ Plain book.2 := by
  obtain ⟨hurl, j, hparse, hbook⟩ := h
  constructor
  · exact fun hplain => hplain hurl j hparse book hbook
  · intro hplain _ j' hj' book' hbook'
    obtain rfl := Option.some.inj (hparse.symm.trans hj')
    obtain rfl := Option.some.inj (hbook.symm.trans hbook')
    exact hplain

namespace Server

variable {J : Json} {L : Llhttp} {s t : Server J L} {l : ServerLabel} {client : ℕ}
  {c : Clientconnection L}

/-- Every query means what it should. -/
def Exact (s : Server J L) : Prop := ∀ q ∈ history Obs.submitted? s.pool.log, AsMeant q.query

/-- A request that has been read names no title but plain ones. -/
def PlainTitles (s : Server J L) : ServerLabel → Prop
  | .event client ev recvs sends _ =>
      ∀ c ∈ s.clients client, s.outstanding client = some .read →
        CallsBack (c.handleEvent ev recvs sends).effects = true →
        (c.handleEvent ev recvs sends).conn.isError = false →
        J.PlainTitle (c.handleEvent ev recvs sends).conn.request
  | _ => True

instance (s : Server J L) (l : ServerLabel) : Decidable (s.PlainTitles l) :=
  match l with
  | .event client _ _ _ _ => inferInstanceAs (Decidable (∀ c ∈ s.clients client, _ → _ → _ → _))
  | .pool _ | .accept _ _ _ | .body _ => instDecidableTrue

theorem submitted_delete (s : Server J L) (client : ℕ) :
    history Obs.submitted? (s.delete client).pool.log = history Obs.submitted? s.pool.log := by
  unfold delete
  split
  · next w hw =>
      simp only [PoolState.next] at hw
      split at hw
      · obtain rfl := Option.some.inj hw
        rfl
      · cases hw
  · rfl

theorem Exact.delete (h : s.Exact) (client : ℕ) : (s.delete client).Exact := by
  rw [Exact, submitted_delete]
  exact h

theorem Exact.respond (h : s.Exact) (client : ℕ) (c : Clientconnection L) (body : Bytes)
    (granted : Bool) : (s.respond client c body granted).Exact := by
  rw [Exact, pool_respond]
  exact h

theorem Exact.sendQuery_iff (h : s.Exact) (hc : s.pool.Consistent) (hu : s.pool.UserCode)
    (query connectionId : String) (cb : QueryCallback) :
    (s.sendQuery query connectionId cb).Exact ↔ AsMeant query := by
  obtain ⟨hsub, -⟩ := (hc.outcome (sendQuery_next hu query connectionId cb)).submits
  rw [Exact, hsub]
  simp only [List.mem_append, List.mem_singleton]
  constructor
  · exact fun hexact => hexact _ (Or.inr rfl)
  · rintro hquery q (hold | rfl)
    · exact h q hold
    · exact hquery

theorem Exact.run_iff (h : s.Exact) (hc : s.pool.Consistent) (hu : s.pool.UserCode)
    (client : ℕ) (c : Clientconnection L) (granted : Bool) (op : ClientOp) :
    (s.run client c granted op).Exact ↔
      (op = .read → c.isError = false → J.PlainTitle c.request) := by
  cases op with
  | read =>
      have ho := onRead_outcome s client c granted
      rw [Server.run]
      generalize s.onRead client c granted = t at ho
      cases ho with
      | deletes hno =>
          refine ⟨fun _ _ herr _ j hj => ?_, fun _ => h.delete client⟩
          rw [(hno herr).2] at hj
          cases hj
      | responds hat =>
          exact ⟨fun _ _ _ hurl => absurd hat.1 hurl, fun _ => h.respond client c _ _⟩
      | asks hbook _ herr =>
          rw [h.sendQuery_iff hc hu, asMeant_insertQuery_iff, ← hbook.plainTitle_iff]
          exact ⟨fun hplain _ _ => hplain, fun hplain => hplain rfl herr⟩
      | throws herr hno =>
          refine ⟨fun _ _ _ hurl j hj book hbook => absurd (fun j' hj' => ?_) hno, fun _ => h⟩
          obtain rfl := Option.some.inj (hj.symm.trans hj')
          exact ⟨Option.isSome_of_mem hbook, fun he => absurd he hurl⟩
  | write =>
      have hnoted : (s.note (.written client c.isError)).Exact := h
      exact ⟨fun _ hop => absurd hop (by decide), fun _ => hnoted.delete client⟩

theorem Exact.withParent (h : s.Exact) {conn : ℕ} {f : ℕ → Clientconnection L → Server J L}
    (hf : ∀ client c, (f client c).Exact) : (s.withParent conn f).Exact := by
  unfold Server.withParent
  split
  · exact h
  split
  · exact h
  split
  · exact hf _ _
  · exact h

theorem Exact.runQuery (h : s.Exact) (hc : s.pool.Consistent) (hu : s.pool.UserCode) (conn : ℕ)
    (granted : Bool) (cb : QueryCallback) : (s.runQuery conn granted cb).Exact := by
  cases cb with
  | inserted =>
      exact h.withParent fun _ _ => (h.sendQuery_iff hc hu _ _ _).2 (Or.inl rfl)
  | selected =>
      refine h.withParent fun client c => ?_
      split
      · exact h
      split
      · exact h.respond client c _ _
      · exact h

theorem Exact.next_iff (h : s.Exact) (hc : s.pool.Consistent) (hn : s.next l = some t) :
    t.Exact ↔ s.PlainTitles l := by
  cases (step_outcome hn).2 with
  | pool hpermits hpool =>
      refine ⟨fun _ => trivial, fun _ => ?_⟩
      rw [Exact, (hpermits.frame (hc.outcome hpool)).1]
      exact h
  | accept hs hpool =>
      obtain rfl := Option.some.inj hpool
      exact ⟨fun _ => trivial, fun _ => h⟩
  | @waits client op c ev recvs sends granted hs hop hclient hr hh hcb =>
      refine ⟨fun _ c' hc' _ hcalls => ?_, fun _ => h⟩
      obtain rfl := Option.some.inj (hclient.symm.trans hc')
      cases hcb.symm.trans hcalls
  | @calls client op c ev recvs sends granted hs hop hclient hr hh hcb =>
      have hcalled : (s.calledBack client (c.handleEvent ev recvs sends)).Exact := h
      rw [hcalled.run_iff hc (userCode_of_empty hs)]
      constructor
      · intro hplain c' hc' hread _
        obtain rfl := Option.some.inj (hclient.symm.trans hc')
        exact hplain (Option.some.inj (hop.symm.trans hread))
      · exact fun hplain hread => hplain c hclient (hread ▸ hop) hcb
  | @stale client op ev recvs sends granted hop hclient =>
      refine ⟨fun _ c hc' => ?_, fun _ => h⟩
      cases hclient.symm.trans hc'
  | @body conn q cb rest granted hs hcb =>
      have hentered : (s.entered q).Exact := h
      have huser := userCode_of_top hs
      exact ⟨fun _ => trivial, fun _ => hentered.runQuery hc huser conn granted cb⟩

end Server

open Server

/-- **Titles are not escaped.** In every run of the server every statement it makes lists the books
    or inserts just the book it is made from, throughout, exactly if no request asks for a title
    with a quote or a zero. -/
theorem statements_exact_iff {J : Json} {L : Llhttp} {tr : List (Server J L × ServerLabel)}
    {s : Server J L} (h : (serverMachine J L).Run tr s) :
    Throughout Exact tr s ↔ Guarded PlainTitles tr := by
  have hiff {s t : Server J L} {l : ServerLabel} (hs : (serverMachine J L).Reachable s)
      (he : s.Exact) (hn : s.next l = some t) : t.Exact ↔ s.PlainTitles l :=
    he.next_iff (PoolState.reachable_consistent (reachable_pool hs)) hn
  refine h.law_iff_guard_under (D := fun _ => True) (I := Exact) trivial
    (fun _ _ _ _ _ _ => trivial) ?_ (fun _ he => he)
    (fun s l t hs _ he hG hn => (hiff hs he hn).2 hG)
    fun s l t hs _ he hn ht => (hiff hs he hn).1 ht
  rintro s rfl
  simp [Exact, start, PoolState.start, history]

/-- Every request is for this title. -/
def titledJson (title : String) : Json :=
  { shelfJson with valueString := fun _ _ _ => some title }

/-- What a statement may do besides. -/
def injection : String := "'); DROP TABLE books; --"

/-- The first statement of `postBook`, for a title that is plain and for one that is not. -/
theorem statements_exact_injection :
    (∃ tr, ∃ s : Server (titledJson "Emma") postParser,
      (serverMachine (titledJson "Emma") postParser).Run tr s ∧ Throughout Exact tr s ∧
        history Obs.submitted? s.pool.log = [⟨insertQuery 0 "Emma", "c", 0⟩]) ∧
    ∃ tr, ∃ s : Server (titledJson injection) postParser,
      (serverMachine (titledJson injection) postParser).Run tr s ∧ ¬ Throughout Exact tr s := by
  constructor
  · have hrun : (((serverMachine (titledJson "Emma") postParser).restrict PlainTitles).exec .start
        (postBook.take 14)).map (fun s => history Obs.submitted? s.pool.log) =
        some [⟨insertQuery 0 "Emma", "c", 0⟩] := by decide +kernel
    obtain ⟨s, hs, hquery⟩ := Option.map_eq_some_iff.1 hrun
    obtain ⟨tr, hr, hG⟩ :=
      Machine.exists_guarded_run (M := serverMachine (titledJson "Emma") postParser) rfl hs
    exact ⟨tr, s, hr, (statements_exact_iff hr).2 hG, hquery⟩
  · have hrun : ((serverMachine (titledJson injection) postParser).exec .start
        (postBook.take 14)).map (fun s => history Obs.submitted? s.pool.log) =
        some [⟨insertQuery 0 injection, "c", 0⟩] := by decide +kernel
    obtain ⟨s, hs, hquery⟩ := Option.map_eq_some_iff.1 hrun
    have hinit : (serverMachine (titledJson injection) postParser).init .start := rfl
    obtain ⟨tr, hr⟩ := (Reachable.start hinit).exec hs
    refine ⟨tr, s, hr, fun hexact => ?_⟩
    have hmeant := hexact.1 _ (by rw [hquery]; exact List.mem_cons_self)
    exact absurd (asMeant_insertQuery_iff.1 hmeant) (by decide)

end FiberConn
