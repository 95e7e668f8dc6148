import FiberConn.Collecting
import FiberConn.DbConnectionType.Proofs

set_option autoImplicit false

/-! # Proofs about collecting results

A handler either calls `PQgetResult` nowhere, or takes the whole rest of the response without
another look at `PQisBusy`; then `UnitStream.waits_iff` says when none of its calls block. -/

namespace FiberConn

/-- A call of `PQgetResult`. -/
def Effect.GetsResult : Effect → Prop
  | .pq (.getResult _) => True
  | _ => False

namespace Dbconnection

variable {c : Dbconnection} {ev : EpollEvent} {a : PqAnswers}

/-- The handler calls `PQgetResult` only where `PQisBusy` has just returned 0. -/
theorem handleEvent_getsResult (h : ∃ e ∈ (c.handleEvent ev a).2, e.GetsResult) :
    ev.has epollErr = false ∧ c.connectionState = .readingResponse ∧ a.consumeInput ≠ 0 ∧
      a.isBusy = 0 := by
  obtain ⟨e, he, hget⟩ := h
  have hnone {effs : List Effect} (hplain : ∀ e ∈ effs, ¬ e.GetsResult) (he : e ∈ effs) : False :=
    hplain e he hget
  unfold handleEvent at he
  split at he
  · exact (hnone (by simp [Effect.GetsResult]) he).elim
  next herr =>
  refine ⟨by simpa using herr, ?_⟩
  cases hstate : c.connectionState with
  | readingResponse =>
      rw [hstate] at he
      dsimp only [handleReading] at he
      split at he
      · exact (hnone (by simp [Effect.GetsResult]) he).elim
      next hret =>
      split at he
      · exact (hnone (by simp [Effect.GetsResult]) he).elim
      split at he
      · next hbusy => exact ⟨rfl, hret, hbusy⟩
      · exact (hnone (by simp [Effect.GetsResult]) he).elim
  | connecting =>
      rw [hstate] at he
      dsimp only [handleConnecting] at he
      cases hpoll : a.connectPoll <;> rw [hpoll] at he <;>
        exact (hnone (by simp [Effect.GetsResult]) he).elim
  | sendingQuery =>
      rw [hstate] at he
      obtain ⟨calls, tail, heq, hcalls, htail⟩ := @handleSending_calls c ev a
      dsimp only at he
      rw [heq] at he
      rcases List.mem_append.1 he with he | he
      · rcases hcalls e he with ⟨ret, rfl⟩ | ⟨ret, rfl⟩ <;> exact hget.elim
      rcases htail with rfl | rfl | rfl <;> exact (hnone (by simp [Effect.GetsResult]) he).elim
  | idle | notConnected | connected =>
      rw [hstate] at he
      cases he

/-- A handler that collects. -/
theorem handleEvent_collecting (herr : ev.has epollErr = false)
    (hstate : c.connectionState = .readingResponse) (hret : a.consumeInput ≠ 0)
    (hbusy : a.isBusy = 0) :
    c.handleEvent ev a =
      ((collect { c with connectionState := .idle } a.results).1,
        [.pq (.consumeInput a.consumeInput), .pq (.isBusy a.isBusy)] ++ .removeTrack c.socket ::
          ((collect { c with connectionState := .idle } a.results).2 ++ [.callback])) := by
  have hone : a.isBusy ≠ 1 := by
    rw [hbusy]
    decide
  rw [handleEvent, if_neg (by simp [herr]), hstate]
  dsimp only [handleReading]
  rw [if_neg hret, if_neg hone, if_pos hbusy]

/-- What it calls. -/
theorem handleEvent_collects (herr : ev.has epollErr = false)
    (hstate : c.connectionState = .readingResponse) (hret : a.consumeInput ≠ 0)
    (hbusy : a.isBusy = 0) :
    (c.handleEvent ev a).2 =
      [.pq (.consumeInput a.consumeInput), .pq (.isBusy a.isBusy), .removeTrack c.socket] ++
        (a.results.map (fun res => .pq (.getResult (some res))) ++ [.pq (.getResult none)]) ++
        [.callback] := by
  rw [handleEvent_collecting herr hstate hret hbusy, collect_snd]
  simp

end Dbconnection

namespace Served

variable {read : ℕ} {x : Served}

/-- Other calls leave the units and the record alone. -/
theorem foldl_other {effs : List Effect} (h : ∀ e ∈ effs, ¬ e.GetsResult) :
    (effs.foldl (step read) x).log = x.log ∧
      (effs.foldl (step read) x).input.units = x.input.units := by
  induction effs generalizing x with
  | nil => exact ⟨rfl, rfl⟩
  | cons e effs ih =>
      obtain ⟨he, hrest⟩ := List.forall_mem_cons.1 h
      have hstep : (x.step read e).log = x.log ∧ (x.step read e).input.units = x.input.units := by
        unfold step
        split
        · split <;> exact ⟨rfl, rfl⟩
        · exact absurd trivial he
        · exact ⟨rfl, rfl⟩
      rw [List.foldl_cons, (ih hrest).1, (ih hrest).2]
      exact hstep

/-- Calls of `PQgetResult` take one unit each. -/
theorem foldl_getResult (answers : List (Option PGresult)) :
    (answers.map fun res => Effect.pq (.getResult res)).foldl (step read) x =
      ⟨x.input.takes x.late answers.length, x.late.drop answers.length,
        (x.input.waits x.late answers.length).reverse ++ x.log⟩ := by
  induction answers generalizing x with
  | nil => rfl
  | cons res answers ih =>
      rw [List.map_cons, List.foldl_cons, ih]
      simp [step, UnitStream.takes, UnitStream.waits]

end Served

namespace Reading

variable {s t : Reading} {l : ReadingLabel}

/-- Between handlers libpq holds a whole response, or nothing. -/
structure Ordered (s : Reading) : Prop where
  law : s.NeverBlocks
  whole : s.input.units = [] ∨ ∃ results ending, s.input.units = responseUnits results ending

/-- A handler that collects calls `PQgetResult` once for each unit at least. -/
theorem Ordered.length_le (h : s.Ordered) :
    s.input.units.length ≤ (s.input.units.filterMap Prod.snd).length + 1 := by
  rcases h.whole with hunits | ⟨results, ending, hunits⟩
  · simp [hunits]
  · rw [hunits, responseUnits, List.filterMap_append, List.filterMap_map]
    simp

section Handle

variable {ev : EpollEvent} {flushOut flushIn consumeInput : ℤ} {read : ℕ} {late : List ℕ}

/-- An event at which the handler does not collect. -/
theorem handle_other (h : ¬ s.Collects ev consumeInput read) :
    (s.handle ev flushOut flushIn consumeInput read late).log = s.log ∧
      (s.handle ev flushOut flushIn consumeInput read late).input.units = s.input.units := by
  refine Served.foldl_other (x := ⟨s.input, late, s.log⟩) fun e he hget => h ?_
  obtain ⟨herr, hstate, hret, hbusy⟩ := Dbconnection.handleEvent_getsResult ⟨e, he, hget⟩
  refine ⟨herr, hstate, hret, ?_⟩
  by_contra hb
  simp [answers, hb] at hbusy

/-- An event at which the handler collects: it takes everything that libpq holds. -/
theorem handle_collects (h : s.Collects ev consumeInput read) :
    (s.handle ev flushOut flushIn consumeInput read late).log =
      ((s.input.feed read).waits late ((s.input.units.filterMap Prod.snd).length + 1)).reverse ++
        s.log ∧
    (s.handle ev flushOut flushIn consumeInput read late).input =
      (s.input.feed read).takes late ((s.input.units.filterMap Prod.snd).length + 1) := by
  obtain ⟨herr, hstate, hret, hbusy⟩ := h
  let a := s.answers flushOut flushIn consumeInput read
  let gets := (s.input.units.filterMap Prod.snd).map some ++ [none]
  have hlen : gets.length = (s.input.units.filterMap Prod.snd).length + 1 := by simp [gets]
  have heffs : (s.conn.handleEvent ev a).2 =
      [.pq (.consumeInput a.consumeInput), .pq (.isBusy a.isBusy), .removeTrack s.conn.socket] ++
        gets.map (fun res => Effect.pq (.getResult res)) ++ [.callback] := by
    rw [Dbconnection.handleEvent_collects herr hstate hret (by simp [a, answers, hbusy])]
    simp [gets, a, answers]
  have hread : [Effect.pq (.consumeInput a.consumeInput), .pq (.isBusy a.isBusy),
      .removeTrack s.conn.socket].foldl (Served.step read) ⟨s.input, late, s.log⟩ =
        ⟨s.input.feed read, late, s.log⟩ := by
    simp [Served.step, a, answers, hret]
  have hserved : (s.conn.handleEvent ev a).2.foldl (Served.step read) ⟨s.input, late, s.log⟩ =
      ⟨(s.input.feed read).takes late gets.length, late.drop gets.length,
        ((s.input.feed read).waits late gets.length).reverse ++ s.log⟩ := by
    rw [heffs, List.foldl_append, List.foldl_append, hread, Served.foldl_getResult]
    rfl
  rw [hlen] at hserved
  exact ⟨congrArg Served.log hserved, congrArg Served.input hserved⟩

end Handle

/-- **One event** blocks nowhere exactly if what it collects is whole. -/
theorem Ordered.event_iff (h : s.Ordered) {ev : EpollEvent} {flushOut flushIn consumeInput : ℤ}
    {read : ℕ} {late : List ℕ} :
    s.Whole (.event ev flushOut flushIn consumeInput read late) ↔
      (s.handle ev flushOut flushIn consumeInput read late).NeverBlocks := by
  by_cases hc : s.Collects ev consumeInput read
  · have hwaits := (s.input.feed read).waits_iff late h.length_le
    have hwhole : s.Whole (.event ev flushOut flushIn consumeInput read late) ↔
        (s.input.feed read).size ≤ (s.input.feed read).buffered :=
      ⟨fun hG => hG hc, fun hle _ => hle⟩
    rw [hwhole, ← hwaits, NeverBlocks, (handle_collects hc).1]
    constructor
    · intro hnew b hb
      rcases List.mem_append.1 hb with hb | hb
      · exact hnew b (List.mem_reverse.1 hb)
      · exact h.law b hb
    · intro hlaw b hb
      exact hlaw b (List.mem_append_left _ (List.mem_reverse.2 hb))
  · rw [NeverBlocks, (handle_other hc).1]
    exact iff_of_true (fun hcollects => absurd hcollects hc) h.law

theorem Ordered.handle (h : s.Ordered) {ev : EpollEvent} {flushOut flushIn consumeInput : ℤ}
    {read : ℕ} {late : List ℕ}
    (hG : s.Whole (.event ev flushOut flushIn consumeInput read late)) :
    (s.handle ev flushOut flushIn consumeInput read late).Ordered := by
  refine ⟨h.event_iff.1 hG, ?_⟩
  by_cases hc : s.Collects ev consumeInput read
  · left
    rw [(handle_collects hc).2, UnitStream.takes_units]
    exact List.drop_eq_nil_of_le h.length_le
  · rw [(handle_other hc).2]
    exact h.whole

theorem Ordered.next (h : s.Ordered) (hG : s.Whole l) (ht : s.next l = some t) : t.Ordered := by
  cases l with
  | send query a results ending =>
      obtain ⟨-, ht⟩ := Option.ite_none_right_eq_some.1 ht
      obtain rfl := Option.some.inj ht
      refine ⟨h.law, ?_⟩
      unfold send
      dsimp only
      split
      · exact h.whole
      · exact Or.inr ⟨results, ending, rfl⟩
  | event ev flushOut flushIn consumeInput read late =>
      obtain ⟨-, ht⟩ := Option.ite_none_right_eq_some.1 ht
      exact Option.some.inj ht ▸ h.handle hG
  | reset =>
      obtain ⟨-, ht⟩ := Option.ite_none_right_eq_some.1 ht
      exact Option.some.inj ht ▸ ⟨h.law, h.whole⟩

/-- An event that collects an unfinished response blocks. -/
theorem Ordered.whole_of_law (h : s.Ordered) (ht : s.next l = some t) (hlaw : t.NeverBlocks) :
    s.Whole l := by
  cases l with
  | event ev flushOut flushIn consumeInput read late =>
      obtain ⟨-, ht⟩ := Option.ite_none_right_eq_some.1 ht
      obtain rfl := Option.some.inj ht
      exact h.event_iff.2 hlaw
  | _ => trivial

theorem ordered_init (h : readingMachine.init s) : s.Ordered := by
  obtain ⟨-, hinput, -, hlog⟩ := h
  refine ⟨fun b hb => ?_, Or.inl (by rw [hinput])⟩
  rw [hlog] at hb
  cases hb

end Reading

/-- **The event loop never blocks in `PQgetResult`** in a run, exactly if whenever an event finds
    the next result complete the whole rest of the response is buffered. -/
theorem never_blocks_iff {tr : List (Reading × ReadingLabel)} {s : Reading}
    (h : readingMachine.Run tr s) :
    Machine.Throughout Reading.NeverBlocks tr s ↔ Machine.Guarded Reading.Whole tr :=
  h.law_iff_guard (fun _ hs => Reading.ordered_init hs) (fun _ hs => hs.law)
    (fun _ _ _ hs hG ht => hs.next hG ht) fun _ _ _ hs ht hlaw => hs.whole_of_law ht hlaw

/-- A connection that waits for queries. -/
def connectedReading : Reading :=
  ⟨{ Dbconnection.new "" 0 with socket := 5, connectionState := .connected }, ⟨[], 0⟩, false, []⟩

theorem connectedReading_init : readingMachine.init connectedReading := ⟨rfl, rfl, rfl, rfl⟩

/-- A result without rows. -/
def commandResult : PGresult := ⟨.commandOk, 0, 0, fun _ _ => ""⟩

/-- Two statements, whose response comes in one piece. -/
theorem never_blocks_at_once : ∃ tr s, readingMachine.Run tr s ∧ s.log = [false, false, false] ∧
    Machine.Throughout Reading.NeverBlocks tr s := by
  have hrun : ((readingMachine.restrict Reading.Whole).exec connectedReading
      [.send "q; r" ⟨1, 0⟩ [(10, commandResult), (10, commandResult)] 6,
        .event ⟨epollIn, 5⟩ 0 0 1 26 []]).map (fun s => s.log) = some [false, false, false] := by
    decide +kernel
  obtain ⟨s, hs, hlog⟩ := Option.map_eq_some_iff.1 hrun
  obtain ⟨tr, htr, hG⟩ := Machine.exists_guarded_run connectedReading_init hs
  exact ⟨tr, s, htr, hlog, (never_blocks_iff htr).2 hG⟩

/-- Two statements, and the first piece of the response ends with the first result: the second
    `PQgetResult` and the third one block. -/
theorem blocks_on_second_result : ∃ s, readingMachine.Reachable s ∧ s.log = [true, true, false] ∧
    ¬ s.NeverBlocks := by
  have hrun : (readingMachine.exec connectedReading
      [.send "q; r" ⟨1, 0⟩ [(10, commandResult), (10, commandResult)] 6,
        .event ⟨epollIn, 5⟩ 0 0 1 10 []]).map (fun s => s.log) = some [true, true, false] := by
    decide +kernel
  obtain ⟨s, hs, hlog⟩ := Option.map_eq_some_iff.1 hrun
  refine ⟨s, (Machine.Reachable.start connectedReading_init).exec hs, hlog, fun hlaw => ?_⟩
  have hblocked := hlaw true (by rw [hlog]; exact List.mem_cons_self)
  cases hblocked

end FiberConn
