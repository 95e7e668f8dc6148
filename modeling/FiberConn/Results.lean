import FiberConn.Collecting.Proofs
import FiberConn.Lifetimes.Proofs

set_option autoImplicit false

/-! # What a query leaves in `results`

`collect` copies each result with `copyResult`. The two `for` loops behind it are translated here,
and the law of a whole collecting handler is stated against libpq's accessors: which results it
keeps and what they hold, when it reports an error, and in what condition it leaves the socket and
libpq for the callback, whichever of its two loops it ends in. -/

namespace FiberConn

/-! ## The copying loops -/

namespace Dbconnection

/-- The loop over `j`, `rounds` columns before its end. -/
def copyTuple (res : PGresult) (i : ℕ) : (rounds j : ℕ) → List String → List String
  | 0, _, tuple => tuple
  | rounds + 1, j, tuple => copyTuple res i rounds (j + 1) (tuple ++ [res.getvalue i j])

/-- The loop over `i`, `rounds` rows before its end. -/
def copyTable (res : PGresult) (ncols : ℕ) :
    (rounds i : ℕ) → List (List String) → List (List String)
  | 0, _, table => table
  | rounds + 1, i, table =>
      copyTable res ncols rounds (i + 1) (table ++ [copyTuple res i ncols 0 []])

theorem copyTuple_eq (res : PGresult) (i rounds j : ℕ) (tuple : List String) :
    copyTuple res i rounds j tuple = tuple ++ (List.range' j rounds).map (res.getvalue i) := by
  induction rounds generalizing j tuple with
  | zero => simp [copyTuple]
  | succ rounds ih =>
      rw [copyTuple, ih, List.range'_succ, List.map_cons, List.append_assoc, List.singleton_append]

theorem copyTable_eq (res : PGresult) (ncols rounds i : ℕ) (table : List (List String)) :
    copyTable res ncols rounds i table =
      table ++ (List.range' i rounds).map fun i => (List.range ncols).map (res.getvalue i) := by
  induction rounds generalizing i table with
  | zero => simp [copyTable]
  | succ rounds ih =>
      rw [copyTable, ih, List.range'_succ, List.map_cons, copyTuple_eq, ← List.range_eq_range',
        List.nil_append, List.append_assoc, List.singleton_append]

/-- **`copyResult` is what the loops compute.** -/
theorem copyResult_eq (res : PGresult) :
    copyResult res =
      ⟨res.ntuples, res.nfields, copyTable res res.nfields res.ntuples 0 []⟩ := by
  rw [copyTable_eq, ← List.range_eq_range', List.nil_append]
  rfl

end Dbconnection

/-! ## Faithful copies -/

/-- The local copy shows what libpq's accessors show. -/
structure QueryResult.Copies (q : QueryResult) (res : PGresult) : Prop where
  rows : q.rows = res.ntuples
  cols : q.cols = res.nfields
  height : q.table.length = q.rows
  width : ∀ tuple ∈ q.table, tuple.length = q.cols
  text : ∀ r < q.rows, ∀ c < q.cols, (q.table[r]?.bind (·[c]?)) = some (res.getvalue r c)

theorem Dbconnection.copyResult_copies (res : PGresult) : (copyResult res).Copies res where
  rows := rfl
  cols := rfl
  height := by simp [copyResult]
  width := by simp [copyResult]
  text r hr c hc := by
    have hr : r < res.ntuples := hr
    have hc : c < res.nfields := hc
    simp [copyResult, hr, hc]

/-- So do the copies of a list of results, one by one. -/
theorem Dbconnection.map_copyResult_copies (results : List PGresult) :
    List.Forall₂ QueryResult.Copies (results.map copyResult) results :=
  List.forall₂_map_left_iff.2 (List.forall₂_same.2 fun res _ => copyResult_copies res)

/-! ## The whole handler -/

/-- What a call of `PQgetResult` returns. -/
def Effect.result? : Effect → Option (Option PGresult)
  | .pq (.getResult res) => some res
  | _ => none

theorem Effect.isCall_getResult {answers : List (Option PGresult)} :
    ∀ e ∈ answers.map (fun res => Effect.pq (.getResult res)), e.IsCall := by
  intro e he
  obtain ⟨res, -, rfl⟩ := List.mem_map.1 he
  trivial

theorem Effect.filterMap_getResult (answers : List (Option PGresult)) :
    (answers.map fun res => Effect.pq (.getResult res)).filterMap Effect.result? = answers := by
  rw [List.filterMap_map]
  exact List.filterMap_some

/-- The calls a handler makes before the callback leave libpq idle and the socket untracked: they
    have got every result and then `NULL`, and afterwards the reactor neither holds a function for
    the socket nor watches it. -/
structure LeavesIdle (socket : ℤ) (results : List PGresult) (calls : List Effect) : Prop where
  silent : CallsBack calls = false
  drained : calls.filterMap Effect.result? = results.map some ++ [none]
  untracked {κ : Type} (s : RunState κ) (cb : κ) (granted : Bool) :
    (s.perform cb granted calls).run.callback socket = none ∧
      socket ∉ (s.perform cb granted calls).run.ioc.kernel.interest.keys

theorem LeavesIdle.of_calls {socket : ℤ} {results : List PGresult} {before after : List Effect}
    (hbefore : ∀ e ∈ before, e.IsCall) (hafter : ∀ e ∈ after, e.IsCall)
    (hgets : (before ++ after).filterMap Effect.result? = results.map some ++ [none]) :
    LeavesIdle socket results (before ++ .removeTrack socket :: after) where
  silent := by
    have hrest : CallsBack (.removeTrack socket :: after) = false := by
      simpa [CallsBack, Effect.IsCallback] using Effect.not_callback_of_isCall hafter
    rw [callsBack_append, Effect.not_callback_of_isCall hbefore, hrest]
    rfl
  drained := by
    rw [← hgets, List.filterMap_append, List.filterMap_append]
    rfl
  untracked {κ} s cb granted := by
    have hperform : (s.perform cb granted (before ++ .removeTrack socket :: after)).run =
        s.act (.removeTrack socket) := by
      rw [RunState.perform, List.foldl_append, Performed.foldl_calls hbefore, List.foldl_cons,
        Performed.foldl_calls hafter]
      rfl
    rw [hperform]
    refine ⟨by rw [RunState.callback_removeTrack, if_pos rfl], ?_⟩
    show socket ∉ (s.ioc.kernel.removeEpollInterest socket).1.interest.keys
    rw [Kernel.removeEpollInterest_keys]
    exact Finset.notMem_erase _ _

namespace Dbconnection

variable {c : Dbconnection} {ev : EpollEvent} {a : PqAnswers}

/-- What the object is after a handler that collects. -/
theorem handleEvent_collected (herr : ev.has epollErr = false)
    (hstate : c.connectionState = .readingResponse) (hret : a.consumeInput ≠ 0)
    (hbusy : a.isBusy = 0) :
    (c.handleEvent ev a).1 = { c with
      connectionState := .idle
      results := c.results ++ (a.results.takeWhile (okStatus ·)).map copyResult
      isError := c.isError || a.results.any (¬ okStatus ·) } := by
  rw [handleEvent_collecting herr hstate hret hbusy]
  exact collect_fst a.results

/-- The results before the first failed one. -/
theorem takeWhile_okStatus (results : List PGresult) :
    results.takeWhile (okStatus ·) = results.take (results.findIdx (¬ okStatus ·)) := by
  rw [List.takeWhile_eq_take_findIdx_not]
  simp only [decide_not]

theorem any_failed_iff (results : List PGresult) :
    results.any (¬ okStatus ·) = true ↔ results.findIdx (¬ okStatus ·) < results.length := by
  rw [List.findIdx_lt_length, List.any_eq_true]

/-- **A query's results arrive whole, in order and unchanged**, up to the first failed one, which
    sets `is_error`; the callback finds the connection idle, its socket untracked and libpq
    drained. -/
theorem results_collected (hcollects : ∃ e ∈ (c.handleEvent ev a).2, e.GetsResult)
    (hresults : c.results = []) (hok : c.isError = false) :
    let k := a.results.findIdx (¬ okStatus ·)
    let c' := (c.handleEvent ev a).1
    c'.results.length = k ∧ List.Forall₂ QueryResult.Copies c'.results (a.results.take k) ∧
      (c'.isError = true ↔ k < a.results.length) ∧ c'.connectionState = .idle ∧
      ∃ calls, (c.handleEvent ev a).2 = calls ++ [.callback] ∧
        LeavesIdle c.socket a.results calls := by
  obtain ⟨herr, hstate, hret, hbusy⟩ := handleEvent_getsResult hcollects
  intro k c'
  have hobject : c' = { c with
      connectionState := .idle
      results := (a.results.take k).map copyResult
      isError := a.results.any (¬ okStatus ·) } := by
    simp only [c', k, handleEvent_collected herr hstate hret hbusy, hresults, hok,
      takeWhile_okStatus, List.nil_append, Bool.false_or]
  rw [hobject]
  refine ⟨?_, map_copyResult_copies _, any_failed_iff _, rfl, ?_⟩
  · rw [List.length_map, List.length_take, min_eq_left List.findIdx_le_length]
  let before : List Effect := [.pq (.consumeInput a.consumeInput), .pq (.isBusy a.isBusy)]
  let gets := (a.results.map some ++ [none]).map fun res => Effect.pq (.getResult res)
  have heffs : (c.handleEvent ev a).2 =
      (before ++ .removeTrack c.socket :: gets) ++ [.callback] := by
    rw [handleEvent_collects herr hstate hret hbusy]
    simp [before, gets]
  have hbefore : ∀ e ∈ before, e.IsCall := by simp [before, Effect.IsCall]
  exact ⟨_, heffs, .of_calls hbefore Effect.isCall_getResult
    (Effect.filterMap_getResult (a.results.map some ++ [none]))⟩

/-- A row, then a failed command and one more that is not kept. -/
def mixedAnswers : PqAnswers where
  connectPoll := .active
  setnonblocking := 0
  flushOut := 0
  consumeInput := 1
  flushIn := 0
  isBusy := 0
  results :=
    [⟨.tuplesOk, 1, 2, fun _ c => if c = 0 then "id" else "name"⟩,
      ⟨.fatalError, 0, 0, fun _ _ => ""⟩, commandResult]

theorem results_collected_mixed :
    let c := { new "" 5 with connectionState := .readingResponse }
    let r := c.handleEvent ⟨epollIn, 5⟩ mixedAnswers
    r.1.results = [⟨1, 2, [["id", "name"]]⟩] ∧ r.1.isError = true ∧
      ∃ calls, r.2 = calls ++ [.callback] ∧ LeavesIdle 5 mixedAnswers.results calls := by
  intro c r
  have hcollects : ∃ e ∈ r.2, e.GetsResult := by
    refine ⟨.pq (.getResult none), ?_, trivial⟩
    rw [handleEvent_collects (by decide) rfl (by decide) rfl]
    simp
  obtain ⟨-, -, herror, -, hcalls⟩ := results_collected hcollects rfl rfl
  exact ⟨by decide, herror.2 (by decide), hcalls⟩

end Dbconnection

end FiberConn
