import FiberConn.DbPooler.Routing

set_option autoImplicit false

/-! # A query sees its own results only

What a connection shows to the callback of a query is compared with what libpq did for that query:
`resultsOf` and `Failed` read it off the calls, each tagged with the command libpq had in progress.
One history entry is about one query (`Obs.About`), so the invariant `Served` follows each query
from `pending_queries` to its callback: nothing is recorded about it before it is sent, nothing has
failed while it is in flight, and when its callback runs the connection shows exactly its record.

The assumption about libpq is `CommandFree`: `PQsendQuery` returns 0 while a command is in
progress. Without it a half-finished command would answer the next query. -/

namespace FiberConn

open Machine

/-! ## What one history entry says -/

theorem resultsOf_cons (n : ℕ) (o : Obs) (log : List Obs) :
    resultsOf n (o :: log) = resultsOf n log ++ o.calls.filterMap (resultOf n) := by
  simp [resultsOf]

theorem failed_cons {n : ℕ} {o : Obs} {log : List Obs} :
    Failed n (o :: log) ↔ o.FailureOf n ∨ Failed n log := by
  simp [Failed]

/-- `o` reports the results `rs` of the query `m`, and its failure exactly if `failure`; it says
    nothing about other queries. -/
structure Obs.About (o : Obs) (m : ℕ) (rs : List PGresult) (failure : Prop) : Prop where
  results : ∀ n, o.calls.filterMap (resultOf n) = if n = m then rs else []
  failed : ∀ n, o.FailureOf n ↔ n = m ∧ failure

/-- A plain call is about the command in progress and leaves it in progress. -/
theorem concerns_plain {serial command : Option ℕ} {e : Effect} (h : e.Plain) :
    concerns serial command e = command := by
  unfold concerns
  split
  · exact False.elim h
  · rfl

theorem commandAfter_plain {serial command : Option ℕ} {e : Effect} (h : e.Plain) :
    commandAfter serial command e = command := by
  unfold commandAfter
  split
  · exact False.elim h
  · exact False.elim h
  · rfl

theorem tagged_plain {serial command : Option ℕ} {effs : List Effect}
    (h : ∀ e ∈ effs, e.Plain) : tagged serial command effs = effs.map fun e => (command, e) := by
  induction effs with
  | nil => rfl
  | cons e effs ih =>
      obtain ⟨he, hrest⟩ := List.forall_mem_cons.1 h
      rw [tagged, concerns_plain he, commandAfter_plain he, ih hrest, List.map_cons]

theorem foldl_commandAfter_plain {serial command : Option ℕ} {effs : List Effect}
    (h : ∀ e ∈ effs, e.Plain) : effs.foldl (commandAfter serial) command = command := by
  induction effs with
  | nil => rfl
  | cons e effs ih =>
      obtain ⟨he, hrest⟩ := List.forall_mem_cons.1 h
      rw [List.foldl_cons, commandAfter_plain he, ih hrest]

/-- Plain calls return no result. -/
theorem resultOf_plain {n : ℕ} {tag : Option ℕ} {e : Effect} (h : e.Plain) :
    resultOf n (tag, e) = none := by
  cases e with
  | pq call =>
      cases call with
      | getResult res => exact False.elim h
      | _ => rfl
  | _ => rfl

/-- Reading out a command: every result is about it, and its `NULL` ends it. -/
theorem tagged_results {command : Option ℕ} {rs : List PGresult} {effs : List Effect} :
    tagged none command (rs.map (fun res => .pq (.getResult (some res))) ++ effs)
      = rs.map (fun res => (command, .pq (.getResult (some res)))) ++ tagged none command effs := by
  induction rs with
  | nil => rfl
  | cons res rs ih =>
      rw [List.map_cons, List.cons_append, tagged, commandAfter, ih]
      · rfl
      · simp
      · simp

theorem resultOf_results {n : ℕ} {command : Option ℕ} {rs : List PGresult} :
    (rs.map fun res => (command, Effect.pq (.getResult (some res)))).filterMap (resultOf n)
      = if command = some n then rs else [] := by
  induction rs with
  | nil => simp
  | cons res rs ih =>
      by_cases h : command = some n
      · simp only [List.map_cons, List.filterMap_cons, resultOf, if_pos h, ih]
      · simp only [List.map_cons, List.filterMap_cons, resultOf, if_neg h, ih]

/-! ## Entries of `sendQuery` -/

/-- A failure among a list of calls, one call at a time. -/
theorem exists_fails_cons {n : ℕ} {tag : Option ℕ} {e : Effect} {calls : List (Option ℕ × Effect)} :
    (∃ e', (some n, e') ∈ (tag, e) :: calls ∧ e'.Fails) ↔
      (tag = some n ∧ e.Fails) ∨ ∃ e', (some n, e') ∈ calls ∧ e'.Fails := by
  constructor
  · rintro ⟨e', hmem, hf⟩
    rcases List.mem_cons.1 hmem with he | hmem
    · obtain ⟨rfl, rfl⟩ := Prod.mk.inj he
      exact Or.inl ⟨rfl, hf⟩
    · exact Or.inr ⟨e', hmem, hf⟩
  · rintro (⟨rfl, hf⟩ | ⟨e', hmem, hf⟩)
    · exact ⟨e, List.mem_cons_self, hf⟩
    · exact ⟨e', List.mem_cons_of_mem _ hmem, hf⟩

section Sending

variable {conn : Dbconnection} {a : SendAnswers} {c : ℕ} {q : PendingQuery}
  {command : Option ℕ} {r : Dbconnection × List Effect}

/-- The failure of a send is the failure of one of its calls. -/
theorem failureOf_sent {n : ℕ} {effs : List Effect} :
    (Obs.sent c q command effs).FailureOf n ↔
      ∃ e, (some n, e) ∈ tagged (some q.cb) command effs ∧ e.Fails :=
  or_iff_left id

/-- A send that calls back reports its own failure. -/
theorem sent_calls (ho : Dbconnection.SendOutcome conn (cStr q.query) a r)
    (hfree : a.sendQuery ≠ 0 → command = none) (hcb : CallsBack r.2 = true) :
    (Obs.sent c q command r.2).About q.cb [] True ∧ r.1.isError = true ∧
      r.1.results = conn.results := by
  cases ho with
  | refused hret =>
      refine ⟨⟨fun n => ?_, fun n => ?_⟩, rfl, rfl⟩
      · simp [Obs.calls, tagged, resultOf]
      · rw [failureOf_sent]
        simp only [tagged, concerns, commandAfter, exists_fails_cons]
        simp [Effect.Fails, eq_comm]
  | unsent hret =>
      refine ⟨⟨fun n => ?_, fun n => ?_⟩, rfl, rfl⟩
      · simp [Obs.calls, tagged, resultOf]
      · rw [failureOf_sent, hfree hret]
        simp only [tagged, concerns, commandAfter, exists_fails_cons]
        simp [Effect.Fails, hret, eq_comm]
  | tracked hret => cases hcb

/-- A send that is under way has started the query's command and reports nothing yet. -/
theorem sent_waits (ho : Dbconnection.SendOutcome conn (cStr q.query) a r)
    (hfree : a.sendQuery ≠ 0 → command = none) (hcb : CallsBack r.2 = false) :
    (Obs.sent c q command r.2).About q.cb [] False ∧ r.1.isError = conn.isError ∧
      r.1.results = conn.results ∧
      r.2.foldl (commandAfter (some q.cb)) command = some q.cb ∧ ∀ e ∈ r.2, ¬ e.Fails := by
  cases ho with
  | refused hret => cases hcb
  | unsent hret => cases hcb
  | tracked hret hflush =>
      refine ⟨⟨fun n => ?_, fun n => ?_⟩, rfl, rfl, ?_, by simp [Effect.Fails, hret, hflush]⟩
      · simp [Obs.calls, tagged, resultOf]
      · rw [failureOf_sent, hfree hret]
        simp only [tagged, concerns, commandAfter, exists_fails_cons]
        simp [Effect.Fails, hret, hflush]
      · simp [commandAfter, hret, hfree hret]

end Sending

/-! ## Entries of `handleEvent` -/

section Handling

variable {conn : Dbconnection} {ev : EpollEvent} {a : PqAnswers} {c m : ℕ}
  {r : Dbconnection × List Effect}

theorem filterMap_plain {n : ℕ} {command : Option ℕ} {effs : List Effect}
    (h : ∀ e ∈ effs, e.Plain) :
    (effs.map fun e => (command, e)).filterMap (resultOf n) = [] := by
  rw [List.filterMap_eq_nil_iff]
  intro x hx
  obtain ⟨e, he, rfl⟩ := List.mem_map.1 hx
  exact resultOf_plain (h e he)

/-- An event that leaves the query in flight reports nothing and leaves its command in progress. -/
theorem handled_waits (ho : Dbconnection.QueryOutcome conn ev a r) (hcb : CallsBack r.2 = false) :
    (Obs.handled c (some m) ev r.2).About m [] False ∧ r.1.isError = conn.isError ∧
      r.1.results = conn.results ∧
      r.2.foldl (commandAfter none) (some m) = some m := by
  cases ho with
  | @waits state effs herr hstate hcb hplain =>
      have hp : ∀ e ∈ effs, e.Plain := fun e he => (hplain e he).1
      refine ⟨⟨fun n => ?_, fun n => ?_⟩, rfl, rfl, foldl_commandAfter_plain hp⟩
      · rw [Obs.calls, tagged_plain hp, filterMap_plain hp, ite_self]
      · simp only [Obs.FailureOf, Obs.calls, tagged_plain hp, herr, List.mem_map, and_false,
          or_false, Bool.false_eq_true, iff_false]
        rintro ⟨e, ⟨e', he', hx⟩, hf⟩
        obtain rfl : e' = e := (Prod.mk.inj hx).2
        exact (hplain e' he').2 hf
  | fails hcb' => rw [hcb'] at hcb; cases hcb
  | completes => simp [CallsBack, Effect.IsCallback] at hcb

/-- The calls of an event that completes a query: all but the callback are about it. -/
theorem tagged_completes {conn : Dbconnection} :
    tagged none (some m)
      ([.pq (.consumeInput a.consumeInput), .pq (.isBusy 0), .removeTrack conn.socket] ++
        a.results.map (fun res => .pq (.getResult (some res))) ++
        [.pq (.getResult none), .callback])
      = [(some m, .pq (.consumeInput a.consumeInput)), (some m, .pq (.isBusy 0)),
          (some m, .removeTrack conn.socket)] ++
        a.results.map (fun res => (some m, .pq (.getResult (some res)))) ++
        [(some m, .pq (.getResult none)), (none, .callback)] := by
  simp only [List.cons_append, List.nil_append, tagged, concerns, commandAfter, tagged_results]

/-- An event that calls back has added to the object what the entry reports about the query. -/
theorem handled_calls (ho : Dbconnection.QueryOutcome conn ev a r) (hcb : CallsBack r.2 = true) :
    ∃ rs failure, (Obs.handled c (some m) ev r.2).About m rs failure ∧
      r.1.results = conn.results ++ (rs.takeWhile (Dbconnection.okStatus ·)).map
        Dbconnection.copyResult ∧
      (r.1.isError = true ↔ conn.isError = true ∨ failure) := by
  cases ho with
  | waits _ _ hcb' => rw [hcb'] at hcb; cases hcb
  | @fails state effs hcb' hplain hwhy =>
      refine ⟨[], True, ⟨fun n => ?_, fun n => ?_⟩, by simp, by simp⟩
      · rw [Obs.calls, tagged_plain hplain, filterMap_plain hplain, ite_self]
      · rw [Obs.FailureOf, Obs.calls, tagged_plain hplain]
        constructor
        · rintro (⟨e, hmem, -⟩ | ⟨hn, -⟩)
          · obtain ⟨e', -, hx⟩ := List.mem_map.1 hmem
            exact ⟨(Option.some.inj (Prod.mk.inj hx).1).symm, trivial⟩
          · exact ⟨(Option.some.inj hn).symm, trivial⟩
        · rintro ⟨rfl, -⟩
          rcases hwhy with herr | ⟨e, he, hf⟩
          · exact Or.inr ⟨rfl, herr⟩
          · exact Or.inl ⟨e, List.mem_map.2 ⟨e, he, rfl⟩, hf⟩
  | completes herr hret =>
      refine ⟨a.results, ∃ res ∈ a.results, ¬ Dbconnection.okStatus res,
        ⟨fun n => ?_, fun n => ?_⟩, rfl, by simp⟩
      · rw [Obs.calls, tagged_completes]
        simp only [List.filterMap_append, resultOf_results, Option.some.injEq, eq_comm (a := n)]
        exact List.append_nil _
      · rw [Obs.FailureOf, Obs.calls, tagged_completes]
        simp only [herr, Bool.false_eq_true, and_false, or_false]
        constructor
        · rintro ⟨e, hmem, hf⟩
          simp only [List.mem_append, List.mem_cons, List.mem_map, List.not_mem_nil, or_false,
            Prod.mk.injEq, Option.some.injEq] at hmem
          rcases hmem with ((⟨rfl, rfl⟩ | ⟨rfl, rfl⟩ | ⟨rfl, rfl⟩) | ⟨res, hres, rfl, rfl⟩) |
            ⟨rfl, rfl⟩ | ⟨hn, rfl⟩
          · exact absurd hf hret
          · exact hf.elim
          · exact hf.elim
          · exact ⟨rfl, res, hres, hf⟩
          · exact hf.elim
          · exact hf.elim
        · rintro ⟨rfl, res, hres, hf⟩
          refine ⟨.pq (.getResult (some res)), ?_, hf⟩
          exact List.mem_append_left _ (List.mem_append_right _ (List.mem_map.2 ⟨res, hres, rfl⟩))

end Handling

/-! ## The record of a query -/

/-- The entries of `log'` over `log` say nothing about the query `n`. -/
structure SameFor (n : ℕ) (log log' : List Obs) : Prop where
  results : resultsOf n log' = resultsOf n log
  failed : Failed n log' ↔ Failed n log
  sendFailed : SendFailed n log' ↔ SendFailed n log

/-- Nothing has happened to the query `n` yet that it will have to be told. -/
structure Untouched (n : ℕ) (log : List Obs) : Prop where
  results : resultsOf n log = []
  failed : ¬ Failed n log
  sendFailed : ¬ SendFailed n log

/-- The connection shows exactly what happened to the query `n`. -/
structure Answered (conn : Dbconnection) (n : ℕ) (log : List Obs) : Prop where
  results : conn.results
    = ((resultsOf n log).takeWhile (Dbconnection.okStatus ·)).map Dbconnection.copyResult
  isError : conn.isError = true ↔ Failed n log
  sendFailed : SendFailed n log → conn.results = []

theorem SameFor.refl (n : ℕ) (log : List Obs) : SameFor n log log := ⟨rfl, Iff.rfl, Iff.rfl⟩

theorem SameFor.untouched {n : ℕ} {log log' : List Obs} (h : SameFor n log log')
    (hu : Untouched n log) : Untouched n log' :=
  ⟨h.results ▸ hu.results, fun hf => hu.failed (h.failed.1 hf),
    fun hf => hu.sendFailed (h.sendFailed.1 hf)⟩

theorem SameFor.answered {n : ℕ} {log log' : List Obs} {conn : Dbconnection}
    (h : SameFor n log log') (ha : Answered conn n log) : Answered conn n log' :=
  ⟨h.results ▸ ha.results, ha.isError.trans h.failed.symm,
    fun hf => ha.sendFailed (h.sendFailed.1 hf)⟩

theorem sendFailed_cons {n : ℕ} {o : Obs} {log : List Obs} :
    SendFailed n (o :: log) ↔
      (∃ c q command effs, o = .sent c q command effs ∧ q.cb = n ∧ ∃ e ∈ effs, e.Fails) ∨
        SendFailed n log := by
  constructor
  · rintro ⟨c, q, command, effs, hmem, hrest⟩
    rcases List.mem_cons.1 hmem with he | hmem
    · exact Or.inl ⟨c, q, command, effs, he.symm, hrest⟩
    · exact Or.inr ⟨c, q, command, effs, hmem, hrest⟩
  · rintro (⟨c, q, command, effs, rfl, hrest⟩ | ⟨c, q, command, effs, hmem, hrest⟩)
    · exact ⟨c, q, command, effs, List.mem_cons_self, hrest⟩
    · exact ⟨c, q, command, effs, List.mem_cons_of_mem _ hmem, hrest⟩

/-- An entry about another query, or about none. -/
theorem sameFor_of_about {n m : ℕ} {o : Obs} {rs : List PGresult} {failure : Prop}
    {log : List Obs} (h : o.About m rs failure) (hne : n ≠ m)
    (hsent : ∀ c q command effs, o = .sent c q command effs → q.cb ≠ n) :
    SameFor n log (o :: log) := by
  refine ⟨?_, ?_, ?_⟩
  · rw [resultsOf_cons, h.results, if_neg hne, List.append_nil]
  · rw [failed_cons, h.failed]
    exact or_iff_right fun hx => hne hx.1
  · rw [sendFailed_cons]
    refine or_iff_right ?_
    rintro ⟨c, q, command, effs, he, hq, -⟩
    exact hsent c q command effs he hq

/-- An entry with nothing to report yet. -/
theorem Untouched.cons {n m : ℕ} {o : Obs} {log : List Obs} (hu : Untouched n log)
    (h : o.About m [] False)
    (hsent : ∀ c q command effs, o = .sent c q command effs → ∀ e ∈ effs, ¬ e.Fails) :
    Untouched n (o :: log) := by
  refine ⟨?_, ?_, ?_⟩
  · rw [resultsOf_cons, h.results, ite_self, hu.results]
    rfl
  · rw [failed_cons, h.failed]
    rintro (⟨-, hx⟩ | hf)
    · exact hx
    · exact hu.failed hf
  · rw [sendFailed_cons]
    rintro (⟨c, q, command, effs, he, -, e, hmem, hf⟩ | hf)
    · exact hsent c q command effs he e hmem hf
    · exact hu.sendFailed hf

/-- The entry of a call that calls back, when the object shows what the entry reports. -/
theorem Untouched.answered {n : ℕ} {o : Obs} {rs : List PGresult} {failure : Prop}
    {log : List Obs} {conn : Dbconnection} (hu : Untouched n log) (h : o.About n rs failure)
    (hresults : conn.results
      = (rs.takeWhile (Dbconnection.okStatus ·)).map Dbconnection.copyResult)
    (herr : conn.isError = true ↔ failure)
    (hsent : SendFailed n (o :: log) → conn.results = []) : Answered conn n (o :: log) := by
  refine ⟨?_, ?_, hsent⟩
  · rw [resultsOf_cons, hu.results, h.results, if_pos rfl]
    exact hresults
  · rw [failed_cons, h.failed]
    simp [hu.failed, herr]

/-- An entry without calls. -/
theorem sameFor_quiet {n : ℕ} {o : Obs} {log : List Obs} (hcalls : o.calls = [])
    (hhandled : ∀ c command ev effs, o ≠ .handled c command ev effs)
    (hsent : ∀ c q command effs, o ≠ .sent c q command effs) : SameFor n log (o :: log) := by
  refine ⟨?_, ?_, ?_⟩
  · rw [resultsOf_cons, hcalls]
    exact List.append_nil _
  · rw [failed_cons]
    refine or_iff_right ?_
    rintro (⟨e, he, -⟩ | hx)
    · rw [hcalls] at he
      cases he
    · split at hx
      · exact hhandled _ _ _ _ rfl
      · exact hx
  · rw [sendFailed_cons]
    refine or_iff_right ?_
    rintro ⟨c, q, command, effs, he, -⟩
    exact hsent _ _ _ _ he

theorem SameFor.trans {n : ℕ} {log log' log'' : List Obs} (h : SameFor n log log')
    (h' : SameFor n log' log'') : SameFor n log log'' :=
  ⟨h'.results.trans h.results, h'.failed.trans h.failed, h'.sendFailed.trans h.sendFailed⟩

/-- `handleEvent` starts no command. -/
theorem commandAfter_none (e : Effect) : commandAfter none none e = none := by
  unfold commandAfter
  split
  · split <;> rfl
  · rfl
  · rfl

theorem foldl_commandAfter_none (effs : List Effect) :
    effs.foldl (commandAfter none) none = none := by
  induction effs with
  | nil => rfl
  | cons e effs ih => rw [List.foldl_cons, commandAfter_none, ih]

/-- Without a command in progress, an event is about no query. -/
theorem sameFor_connect {n c : ℕ} {ev : EpollEvent} {effs : List Effect} {log : List Obs} :
    SameFor n log (.handled c none ev effs :: log) := by
  have htags (x : Option ℕ × Effect) (hx : x ∈ tagged none none effs) : x.1 = none := by
    induction effs with
    | nil => cases hx
    | cons e effs ih =>
        rw [tagged, commandAfter_none] at hx
        rcases List.mem_cons.1 hx with rfl | hx
        · unfold concerns
          split <;> rfl
        · exact ih hx
  refine ⟨?_, ?_, ?_⟩
  · rw [resultsOf_cons]
    have hnone : (Obs.handled c none ev effs).calls.filterMap (resultOf n) = [] := by
      rw [List.filterMap_eq_nil_iff]
      rintro ⟨tag, e⟩ hx
      obtain rfl : tag = none := htags _ hx
      unfold resultOf
      split
      · next res heq =>
          obtain ⟨rfl, -⟩ := Prod.mk.inj heq
          rfl
      · rfl
    rw [hnone, List.append_nil]
  · rw [failed_cons]
    refine or_iff_right ?_
    rintro (⟨e, he, -⟩ | ⟨hx, -⟩)
    · have := htags _ he
      cases this
    · cases hx
  · rw [sendFailed_cons]
    refine or_iff_right ?_
    rintro ⟨c, q, command, effs, he, -⟩
    cases he

namespace PoolState

variable {w w' : PoolState} {l : PoolLabel}

/-- The assumption on libpq: `PQsendQuery` returns 0 unless no command is in progress. -/
def CommandFree (w : PoolState) : PoolLabel → Prop
  | .send a =>
      match w.stack with
      | .send c _ :: _ => a.sendQuery ≠ 0 → w.command c = none
      | _ => True
  | _ => True

theorem commandFree_send {a : SendAnswers} :
    w.CommandFree (.send a) ↔
      ∀ x ∈ w.stack.head?.bind Frame.sending?, a.sendQuery ≠ 0 → w.command x.1 = none := by
  rw [CommandFree]
  cases w.stack with
  | nil => simp
  | cons frame rest => cases frame <;> simp [Frame.sending?]

instance (w : PoolState) (l : PoolLabel) : Decidable (w.CommandFree l) :=
  match l with
  | .send _ => decidable_of_iff' _ commandFree_send
  | .construct _ _ | .constructed | .accept _ | .delete _ | .submit _ _ | .ret | .loop
  | .connectEvent _ _ _ | .queryEvent _ _ _ _ => instDecidableTrue

theorem CommandFree.send {a : SendAnswers} {c : ℕ} {q : PendingQuery} {rest : List Frame}
    (h : w.CommandFree (.send a)) (hstack : w.stack = .send c q :: rest) :
    a.sendQuery ≠ 0 → w.command c = none := by
  rw [CommandFree, hstack] at h
  exact h

/-- The queries handed to a connection that has not called back, each with its connection. -/
def held (w : PoolState) : List (ℕ × PendingQuery) := w.sending ++ w.flying

/-- The queries that are not completed. -/
def uncompleted (w : PoolState) : List PendingQuery := w.pool.pendingQueries ++ w.held.map Prod.snd

/-- Connection `c` is waiting for its next callback: it is connecting, available, or at work. -/
def Working (w : PoolState) (c : ℕ) : Prop :=
  c ∈ w.pool.availableConns ∨ c ∈ w.connecting ∨ c ∈ w.held.map Prod.fst

/-- What the connections, the queries and libpq know of each other. -/
structure Served (w : PoolState) : Prop where
  clean : ∀ c, w.Working c → (w.conns c).results = [] ∧ (w.conns c).isError = false
  untouched : ∀ q ∈ w.uncompleted, Untouched q.cb w.log
  new : ∀ n, w.nextCb ≤ n → Untouched n w.log
  command : ∀ x ∈ w.flying, w.command x.1 = some x.2.cb
  noCommand : ∀ c, c ∉ w.pool.connectedConns → w.command c = none
  answered : ∀ x ∈ w.calling, Answered (w.conns x.1) x.2.cb w.log
  serial : ∀ q ∈ history Obs.submitted? w.log, ∀ q' ∈ history Obs.submitted? w.log,
    q.cb = q'.cb → q = q'

/-! ### Where queries and connections are -/

theorem Consistent.completed_disjoint (h : w.Consistent) {q : PendingQuery}
    (hq : q ∈ w.uncompleted) : q ∉ history Obs.called? w.log := by
  have hdisj := (Multiset.nodup_add.1 h.lawful.places_nodup).2.2
  intro hcalled
  refine Multiset.disjoint_left.1 hdisj ?_ (Multiset.mem_coe.2 hcalled)
  rw [Multiset.mem_add]
  rcases List.mem_append.1 hq with hq | hq
  · exact Or.inl hq
  · exact Or.inr hq

theorem Consistent.submitted_of_uncompleted (h : w.Consistent) {q : PendingQuery}
    (hq : q ∈ w.uncompleted) : q ∈ history Obs.submitted? w.log := by
  have hmem : q ∈ (w.abs.submitted : Multiset PendingQuery) := by
    rw [h.lawful.submitted_eq, Multiset.mem_add, Multiset.mem_add]
    rcases List.mem_append.1 hq with hq | hq
    · exact Or.inl (Or.inl hq)
    · exact Or.inl (Or.inr hq)
  exact hmem

theorem Consistent.submitted_of_called (h : w.Consistent) {q : PendingQuery}
    (hq : q ∈ history Obs.called? w.log) : q ∈ history Obs.submitted? w.log := by
  have hmem : q ∈ (w.abs.submitted : Multiset PendingQuery) := by
    rw [h.lawful.submitted_eq, Multiset.mem_add]
    exact Or.inr hq
  exact hmem

theorem Consistent.called_of_calling (h : w.Consistent) {x : ℕ × PendingQuery}
    (hx : x ∈ w.calling) : x.2 ∈ history Obs.called? w.log :=
  h.lawful.settling_finished x hx

theorem mem_uncompleted {x : ℕ × PendingQuery} (hx : x ∈ w.held) : x.2 ∈ w.uncompleted :=
  List.mem_append_right _ (List.mem_map.2 ⟨x, hx, rfl⟩)

theorem inUse_eq_held : w.inUse = w.held ++ w.calling := rfl

theorem mem_held_of_send {c : ℕ} {q : PendingQuery} {rest : List Frame}
    (hs : w.stack = .send c q :: rest) : (c, q) ∈ w.held := by
  simp [held, sending, hs, Frame.sending?]

theorem working_of_held {x : ℕ × PendingQuery} (hx : x ∈ w.held) : w.Working x.1 :=
  Or.inr (Or.inr (List.mem_map.2 ⟨x, hx, rfl⟩))

/-- The connection to be built next does not work yet. -/
theorem Consistent.built_idle (h : w.Consistent) : ¬ w.Working w.built := by
  rintro (hc | hc | hc)
  · exact absurd (h.members_lt _ (h.mem_of_available hc)) (lt_irrefl _)
  · exact absurd (h.connecting_new _ hc).2 (lt_irrefl _)
  · obtain ⟨x, hx, hbuilt⟩ := List.mem_map.1 hc
    have hlt := h.members_lt _ (h.mem_of_inUse (List.mem_append_left _ hx))
    exact absurd (hbuilt ▸ hlt) (lt_irrefl _)

/-- A working connection is not the one whose callback runs. -/
theorem Consistent.working_ne_calling (h : w.Consistent) {c : ℕ} (hc : w.Working c)
    {x : ℕ × PendingQuery} (hx : x ∈ w.calling) : c ≠ x.1 := by
  rintro rfl
  have hin : (x.1, x.2) ∈ w.inUse := List.mem_append_right _ hx
  rcases hc with hc | hc | hc
  · exact h.not_available_of_inUse hin hc
  · exact h.ne_of_connecting hc (h.mem_of_inUse hin) rfl
  · have hnd := h.inUse_nodup
    rw [inUse_eq_held, List.map_append, List.nodup_append] at hnd
    exact hnd.2.2 _ hc _ (List.mem_map.2 ⟨x, hx, rfl⟩) rfl

/-! ### What a step records -/

/-- A step is about no query, or about one that is held: that one is then completed, or still has
    nothing to report. -/
theorem Served.touched (hs : w.Served) (h : w.Consistent) (hG : w.CommandFree l)
    (ho : Outcome w l w') (n : ℕ) :
    SameFor n w.log w'.log ∨ ∃ x ∈ w.held, n = x.2.cb ∧
      (x.2 ∈ history Obs.called? w'.log ∨ (Untouched n w.log → Untouched n w'.log)) := by
  have hquiet {o : Obs} {log : List Obs} (ho : o.calls = [])
      (hhandled : ∀ c command ev effs, o ≠ .handled c command ev effs)
      (hsent : ∀ c q command effs, o ≠ .sent c q command effs) :
      SameFor n log (o :: log) := sameFor_quiet ho hhandled hsent
  cases ho with
  | construct => exact Or.inl (hquiet rfl (by simp) (by simp))
  | constructed => exact Or.inl (.refl _ _)
  | accept => exact Or.inl (hquiet rfl (by simp) (by simp))
  | delete => exact Or.inl (hquiet rfl (by simp) (by simp))
  | grant =>
      exact Or.inl ((hquiet rfl (by simp) (by simp)).trans (hquiet rfl (by simp) (by simp)))
  | defer =>
      exact Or.inl ((hquiet rfl (by simp) (by simp)).trans (hquiet rfl (by simp) (by simp)))
  | resume => exact Or.inl (hquiet rfl (by simp) (by simp))
  | drained => exact Or.inl (.refl _ _)
  | @sendCalls a c q rest r hstack ho hcb =>
      obtain ⟨habout, -⟩ := sent_calls (c := c) ho (hG.send hstack) hcb
      by_cases hn : n = q.cb
      · refine Or.inr ⟨(c, q), mem_held_of_send hstack, hn, Or.inl ?_⟩
        simp [complete, history, Obs.called?]
      · refine Or.inl ((sameFor_of_about habout hn ?_).trans (hquiet rfl (by simp) (by simp)))
        rintro _ _ _ _ ⟨⟩
        exact fun he => hn he.symm
  | @sendWaits a c q rest r hstack ho hcb =>
      obtain ⟨habout, -, -, -, hfine⟩ := sent_waits (c := c) ho (hG.send hstack) hcb
      by_cases hn : n = q.cb
      · refine Or.inr ⟨(c, q), mem_held_of_send hstack, hn, Or.inr fun hu => hu.cons habout ?_⟩
        rintro _ _ _ _ ⟨⟩
        exact hfine
      · refine Or.inl (sameFor_of_about habout hn ?_)
        rintro _ _ _ _ ⟨⟩
        exact fun he => hn he.symm
  | ret => exact Or.inl (.refl _ _)
  | @connectWaits c ev a effs hstack hc =>
      have hnone := hs.noCommand c (h.connecting_new c hc).1
      refine Or.inl ?_
      simp only [runEvent, hnone]
      exact sameFor_connect
  | @connectFails c ev a effs hstack hc =>
      have hnone := hs.noCommand c (h.connecting_new c hc).1
      refine Or.inl ?_
      simp only [runEvent, hnone]
      exact sameFor_connect
  | @connects c ev a effs hstack hc =>
      have hnone := hs.noCommand c (h.connecting_new c hc).1
      refine Or.inl ?_
      simp only [runEvent, hnone]
      exact sameFor_connect
  | @queryWaits c q ev a r hstack hq ho hcb =>
      obtain ⟨habout, -⟩ := handled_waits (c := c) (m := q.cb) ho hcb
      have hcommand := hs.command (c, q) hq
      simp only [runEvent, hcommand]
      by_cases hn : n = q.cb
      · exact Or.inr ⟨(c, q), List.mem_append_right _ hq, hn,
          Or.inr fun hu => hu.cons habout (by simp)⟩
      · exact Or.inl (sameFor_of_about habout hn (by simp))
  | @queryCalls c q ev a r hstack hq ho hcb =>
      obtain ⟨rs, failure, habout, -⟩ := handled_calls (c := c) (m := q.cb) ho hcb
      have hcommand := hs.command (c, q) hq
      simp only [complete, runEvent, hcommand]
      by_cases hn : n = q.cb
      · refine Or.inr ⟨(c, q), List.mem_append_right _ hq, hn, Or.inl ?_⟩
        simp [history, Obs.called?]
      · exact Or.inl ((sameFor_of_about habout hn (by simp)).trans
          (hquiet rfl (by simp) (by simp)))

/-! ### Where a step takes queries and connections -/

/-- A query that is not completed was not completed before, or is new. -/
theorem Outcome.uncompleted (ho : Outcome w l w') {q : PendingQuery} (hq : q ∈ w'.uncompleted) :
    q ∈ w.uncompleted ∨ q.cb = w.nextCb := by
  cases ho with
  | construct hs =>
      exact Or.inl (by simpa [PoolState.uncompleted, held, sending, hs, Frame.sending?] using hq)
  | constructed hs =>
      exact Or.inl (by simpa [PoolState.uncompleted, held, sending, hs, Frame.sending?] using hq)
  | grant hu hcb =>
      simp only [PoolState.uncompleted, held, sending, List.filterMap_cons, Frame.sending?,
        List.mem_append, List.map_cons, List.map_append, List.cons_append, List.mem_cons] at hq ⊢
      rcases hq with hq | rfl | hq
      · exact Or.inl (Or.inl hq)
      · exact Or.inr hcb
      · exact Or.inl (Or.inr hq)
  | defer hu hcb =>
      simp only [PoolState.uncompleted, held, sending, List.mem_append, List.mem_singleton] at hq ⊢
      rcases hq with (hq | rfl) | hq
      · exact Or.inl (Or.inl hq)
      · exact Or.inr hcb
      · exact Or.inl (Or.inr hq)
  | resume hs hfree hpending =>
      simp only [PoolState.uncompleted, held, sending, hpending, List.filterMap_cons,
        Frame.sending?, List.mem_append, List.map_cons, List.map_append, List.cons_append,
        List.mem_cons] at hq ⊢
      tauto
  | drained hs =>
      exact Or.inl (by simpa [PoolState.uncompleted, held, sending, hs, Frame.sending?] using hq)
  | sendCalls hs =>
      simp only [PoolState.uncompleted, held, sending, hs, complete, runSend, List.filterMap_cons,
        Frame.sending?, List.mem_append, List.map_cons, List.map_append, List.cons_append,
        List.mem_cons] at hq ⊢
      tauto
  | sendWaits hs =>
      simp only [PoolState.uncompleted, held, sending, hs, runSend, List.filterMap_cons,
        Frame.sending?, List.mem_append, List.map_cons, List.map_append, List.cons_append,
        List.mem_cons] at hq ⊢
      tauto
  | ret hs =>
      exact Or.inl (by
        simpa [PoolState.uncompleted, held, sending, hs, Frame.sending?, giveBack] using hq)
  | queryCalls hs hflying =>
      simp only [PoolState.uncompleted, held, sending, hs, complete, runEvent, List.filterMap_cons,
        List.filterMap_nil, Frame.sending?, List.nil_append, List.mem_append, List.mem_map] at hq ⊢
      rcases hq with hq | ⟨x, hx, rfl⟩
      · exact Or.inl (Or.inl hq)
      · exact Or.inl (Or.inr ⟨x, List.mem_of_mem_erase hx, rfl⟩)
  | connects hs hc hyes hpoll herr =>
      rw [herr] at hq
      exact Or.inl hq
  | _ => exact Or.inl hq

theorem Outcome.nextCb_le (ho : Outcome w l w') : w.nextCb ≤ w'.nextCb := by
  cases ho <;> first | exact le_rfl | exact Nat.le_succ _

/-- The queries submitted are the old ones and perhaps a new one. -/
theorem Outcome.submitted (ho : Outcome w l w') {q : PendingQuery}
    (hq : q ∈ history Obs.submitted? w'.log) :
    q ∈ history Obs.submitted? w.log ∨ q.cb = w.nextCb ∧
      history Obs.submitted? w'.log = history Obs.submitted? w.log ++ [q] := by
  cases ho with
  | grant hu hcb =>
      rcases List.mem_append.1 hq with hq | hq
      · exact Or.inl hq
      · obtain rfl := List.mem_singleton.1 hq
        exact Or.inr ⟨hcb, rfl⟩
  | defer hu hcb =>
      rcases List.mem_append.1 hq with hq | hq
      · exact Or.inl hq
      · obtain rfl := List.mem_singleton.1 hq
        exact Or.inr ⟨hcb, rfl⟩
  | _ => exact Or.inl hq

theorem Served.serial_next (hs : w.Served) (h : w.Consistent) (ho : Outcome w l w') :
    ∀ q ∈ history Obs.submitted? w'.log, ∀ q' ∈ history Obs.submitted? w'.log,
      q.cb = q'.cb → q = q' := by
  intro q hq q' hq' he
  rcases ho.submitted hq with hold | ⟨hcb, heq⟩ <;>
    rcases ho.submitted hq' with hold' | ⟨hcb', heq'⟩
  · exact hs.serial q hold q' hold' he
  · have := h.fresh q hold
    omega
  · have := h.fresh q' hold'
    omega
  · have := List.append_cancel_left (heq.symm.trans heq')
    exact (List.cons.inj this).1

/-- A connection being connected is neither available nor at work. -/
theorem Consistent.working_connecting (h : w.Consistent) {c : ℕ} (hc : c ∈ w.connecting) :
    c ∉ w.pool.availableConns ∧ c ∉ w.held.map Prod.fst := by
  refine ⟨fun hav => h.ne_of_connecting hc (h.mem_of_available hav) rfl, fun hheld => ?_⟩
  obtain ⟨x, hx, rfl⟩ := List.mem_map.1 hheld
  exact h.ne_of_connecting hc (h.mem_of_inUse (List.mem_append_left _ hx)) rfl

/-- A connection that works after a step worked before, or is the newest, or was given back. -/
theorem Outcome.working (ho : Outcome w l w') {c : ℕ} (hc : w'.Working c) :
    w.Working c ∨ c = w.built ∧ (∃ memory start, l = .construct memory start) ∨
      l = .ret ∧ ∃ q rest, w.stack = .user c q :: rest := by
  cases ho with
  | construct hs hlt hmore =>
      rcases hc with hc | hc | hc
      · exact Or.inl (Or.inl hc)
      · rcases List.mem_append.1 hc with hc | hc
        · exact Or.inl (Or.inr (Or.inl hc))
        · rcases hmore with rfl | ⟨rfl, -⟩
          · cases hc
          · exact Or.inr (Or.inl ⟨List.mem_singleton.1 hc, _, _, rfl⟩)
      · exact Or.inl (Or.inr (Or.inr (by simpa [held, sending, hs, Frame.sending?] using hc)))
  | constructed hs =>
      exact Or.inl (by simpa [Working, held, sending, hs, Frame.sending?] using hc)
  | grant hu hcb hfree =>
      simp only [Working, held, sending, hfree, List.filterMap_cons, Frame.sending?,
        List.cons_append, List.map_cons, List.mem_cons] at hc ⊢
      tauto
  | resume hs hfree hpending =>
      simp only [Working, held, sending, hfree, List.filterMap_cons, Frame.sending?,
        List.cons_append, List.map_cons, List.mem_cons] at hc ⊢
      tauto
  | drained hs => exact Or.inl (by simpa [Working, held, sending, hs, Frame.sending?] using hc)
  | sendCalls hs =>
      simp only [Working, held, sending, hs, complete, runSend, List.filterMap_cons,
        Frame.sending?, List.cons_append, List.map_cons, List.mem_cons] at hc ⊢
      tauto
  | sendWaits hs =>
      simp only [Working, held, sending, hs, runSend, List.filterMap_cons, Frame.sending?,
        List.cons_append, List.map_append, List.map_cons, List.mem_append, List.mem_cons] at hc ⊢
      tauto
  | @ret c' q rest hs =>
      simp only [Working, held, sending, hs, giveBack, List.filterMap_cons, Frame.sending?,
        List.mem_append, List.mem_singleton] at hc ⊢
      rcases hc with (hc | rfl) | hc | hc
      · exact Or.inl (Or.inl hc)
      · exact Or.inr (Or.inr ⟨trivial, q, rest, rfl⟩)
      · exact Or.inl (Or.inr (Or.inl hc))
      · exact Or.inl (Or.inr (Or.inr hc))
  | connectFails hs hmem =>
      rcases hc with hc | hc | hc
      · exact Or.inl (Or.inl hc)
      · exact Or.inl (Or.inr (Or.inl (List.mem_of_mem_erase hc)))
      · exact Or.inl (Or.inr (Or.inr hc))
  | connects hs hmem hyes hpoll herr =>
      simp only [Working, DBpooler.onConnect, herr, if_true, List.mem_append,
        List.mem_singleton] at hc
      rcases hc with (hc | rfl) | hc | hc
      · exact Or.inl (Or.inl hc)
      · exact Or.inl (Or.inr (Or.inl hmem))
      · exact Or.inl (Or.inr (Or.inl (List.mem_of_mem_erase hc)))
      · exact Or.inl (Or.inr (Or.inr hc))
  | queryCalls hs hq =>
      simp only [Working, held, sending, hs, complete, runEvent, List.filterMap_cons,
        List.filterMap_nil, Frame.sending?, List.nil_append, List.mem_map] at hc ⊢
      rcases hc with hc | hc | ⟨x, hx, rfl⟩
      · exact Or.inl (Or.inl hc)
      · exact Or.inl (Or.inr (Or.inl hc))
      · exact Or.inl (Or.inr (Or.inr ⟨x, List.mem_of_mem_erase hx, rfl⟩))
  | _ => exact Or.inl hc

/-- A step that writes one connection leaves the clean ones clean, if it leaves that one clean. -/
theorem Served.clean_update (hs : w.Served) {c c' : ℕ} {conn : Dbconnection} (hc : w.Working c)
    (hconn : c = c' → conn.results = [] ∧ conn.isError = false) :
    (Function.update w.conns c' conn c).results = [] ∧
      (Function.update w.conns c' conn c).isError = false := by
  by_cases he : c = c'
  · rw [he, Function.update_self]
    exact hconn he
  · rw [Function.update_of_ne he]
    exact hs.clean c hc

theorem Served.clean_next (hs : w.Served) (h : w.Consistent) (hG : w.CommandFree l)
    (ho : Outcome w l w') (h' : w'.Consistent) (c : ℕ) (hc : w'.Working c) :
    (w'.conns c).results = [] ∧ (w'.conns c).isError = false := by
  have hwork := ho.working hc
  -- all but two kinds of steps only have connections at work that were at work before
  have hbefore (hconstruct : ∀ memory start, l ≠ .construct memory start) (hret : l ≠ .ret) :
      w.Working c := by
    rcases hwork with hwork | ⟨-, memory, start, hx⟩ | ⟨hx, -⟩
    · exact hwork
    · exact absurd hx (hconstruct memory start)
    · exact absurd hx hret
  cases ho with
  | @construct memory start conn effs more hstack hlt hmore hresults =>
      -- the new connection works only if its connect has started, which leaves `is_error` unset
      have hnew (he : c = w.built) : conn.results = [] ∧ conn.isError = false := by
        subst he
        refine ⟨hresults, ?_⟩
        rcases hc with hc | hc | hc
        · exact absurd (Or.inl hc) h.built_idle
        · rcases List.mem_append.1 hc with hc | hc
          · exact absurd (Or.inr (Or.inl hc)) h.built_idle
          · rcases hmore with rfl | ⟨-, -, herr⟩
            · cases hc
            · exact herr
        · have hold : w.built ∈ w.held.map Prod.fst := by
            simpa [held, sending, hstack, Frame.sending?] using hc
          exact absurd (Or.inr (Or.inr hold)) h.built_idle
      by_cases he : c = w.built
      · simp only [he, Function.update_self]
        exact hnew he
      · rcases hwork with hwork | ⟨hx, -⟩ | ⟨hx, -⟩
        · exact hs.clean_update hwork fun hx => absurd hx he
        · exact absurd hx he
        · cases hx
  | constructed => exact hs.clean c (hbefore (by simp) (by simp))
  | accept => exact hs.clean c (hbefore (by simp) (by simp))
  | delete => exact hs.clean c (hbefore (by simp) (by simp))
  | @grant q c' rest hu hcb hfree =>
      refine hs.clean_update (hbefore (by simp) (by simp)) fun _ => ?_
      exact hs.clean c' (Or.inl (hfree ▸ List.mem_cons_self))
  | defer => exact hs.clean c (hbefore (by simp) (by simp))
  | @resume c' cs q qs rest hstack hfree hpending =>
      refine hs.clean_update (hbefore (by simp) (by simp)) fun _ => ?_
      exact hs.clean c' (Or.inl (hfree ▸ List.mem_cons_self))
  | drained => exact hs.clean c (hbefore (by simp) (by simp))
  | @sendCalls a c' q rest r hstack ho hcb =>
      have hcalling : (c', q) ∈ ((w.runSend c' q r).complete c' q rest).calling := by
        simp [calling, complete, Frame.calling?]
      exact hs.clean_update (hbefore (by simp) (by simp)) fun he =>
        absurd he (h'.working_ne_calling hc hcalling)
  | @sendWaits a c' q rest r hstack ho hcb =>
      obtain ⟨-, herr, hresults, -⟩ := sent_waits (c := c') ho (hG.send hstack) hcb
      refine hs.clean_update (hbefore (by simp) (by simp)) fun _ => ?_
      rw [herr, hresults]
      exact hs.clean c' (working_of_held (mem_held_of_send hstack))
  | @ret c' q rest hstack =>
      by_cases he : c = c'
      · simp only [giveBack, he, Function.update_self, Dbconnection.resetConnection, and_self]
      · rcases hwork with hwork | ⟨-, memory, start, hx⟩ | ⟨-, q', rest', hx⟩
        · exact hs.clean_update hwork fun he' => absurd he' he
        · cases hx
        · rw [hstack] at hx
          exact absurd (Frame.user.inj (List.cons.inj hx).1).1.symm he
  | @connectWaits c' ev a effs hstack hmem =>
      simp only [runEvent, Function.update_eq_self]
      exact hs.clean c (hbefore (by simp) (by simp))
  | @connectFails c' ev a effs hstack hmem =>
      refine hs.clean_update (hbefore (by simp) (by simp)) fun he => ?_
      subst he
      obtain ⟨hav, hheld⟩ := h.working_connecting hmem
      rcases hc with hc | hc | hc
      · exact absurd hc hav
      · exact absurd rfl (h.connecting_nodup.mem_erase_iff.1 hc).1
      · exact absurd hc hheld
  | @connects c' ev a effs hstack hmem =>
      refine hs.clean_update (hbefore (by simp) (by simp)) fun _ => ?_
      exact hs.clean c' (Or.inr (Or.inl hmem))
  | @queryWaits c' q ev a r hstack hq ho hcb =>
      obtain ⟨-, herr, hresults, -⟩ := handled_waits (c := c') (m := q.cb) ho hcb
      refine hs.clean_update (hbefore (by simp) (by simp)) fun _ => ?_
      rw [herr, hresults]
      exact hs.clean c' (working_of_held (List.mem_append_right _ hq))
  | @queryCalls c' q ev a r hstack hq ho hcb =>
      have hcalling : (c', q) ∈ ({ w.runEvent c' ev r with
          flying := w.flying.erase (c', q) }.complete c' q []).calling := by
        simp [calling, complete, Frame.calling?]
      exact hs.clean_update (hbefore (by simp) (by simp)) fun he =>
        absurd he (h'.working_ne_calling hc hcalling)

/-- The record of a query whose callback runs does not change. -/
theorem Served.answered_log (hs : w.Served) (h : w.Consistent) (hG : w.CommandFree l)
    (ho : Outcome w l w') {x : ℕ × PendingQuery} (hx : x ∈ w.calling) :
    Answered (w.conns x.1) x.2.cb w'.log := by
  rcases hs.touched h hG ho x.2.cb with hsame | ⟨y, hy, hcb, -⟩
  · exact hsame.answered (hs.answered x hx)
  · -- the query touched is not completed, this one is
    have hcalled := h.called_of_calling hx
    have hopen := mem_uncompleted hy
    have he := hs.serial _ (h.submitted_of_called hcalled) _ (h.submitted_of_uncompleted hopen) hcb
    exact absurd (he ▸ hcalled) (h.completed_disjoint hopen)

/-- Nor does its connection. -/
theorem Consistent.update_calling (h : w.Consistent) {c : ℕ} {conn : Dbconnection}
    {x : ℕ × PendingQuery} (hx : x ∈ w.calling) (hc : w.Working c) :
    Function.update w.conns c conn x.1 = w.conns x.1 :=
  Function.update_of_ne (h.working_ne_calling hc hx).symm _ _

/-- What a callback out of `sendQuery` sees. -/
theorem Served.answered_sent (hs : w.Served) {a : SendAnswers} {c : ℕ} {q : PendingQuery}
    {rest : List Frame} {r : Dbconnection × List Effect} (hstack : w.stack = .send c q :: rest)
    (ho : Dbconnection.SendOutcome (w.conns c) (cStr q.query) a r)
    (hfree : a.sendQuery ≠ 0 → w.command c = none) (hcb : CallsBack r.2 = true) :
    Answered r.1 q.cb (.called c q :: .sent c q (w.command c) r.2 :: w.log) := by
  have hheld := mem_held_of_send hstack
  obtain ⟨habout, herr, hresults⟩ := sent_calls (c := c) ho hfree hcb
  have hempty : r.1.results = [] := hresults.trans (hs.clean c (working_of_held hheld)).1
  have hans : Answered r.1 q.cb (.sent c q (w.command c) r.2 :: w.log) :=
    (hs.untouched q (mem_uncompleted hheld)).answered habout hempty (by simp [herr])
      fun _ => hempty
  exact (sameFor_quiet rfl (by simp) (by simp)).answered hans

/-- What a callback out of `handleEvent` sees. -/
theorem Served.answered_handled (hs : w.Served) {c : ℕ} {q : PendingQuery} {ev : EpollEvent}
    {a : PqAnswers} {r : Dbconnection × List Effect} (hq : (c, q) ∈ w.flying)
    (ho : Dbconnection.QueryOutcome (w.conns c) ev a r) (hcb : CallsBack r.2 = true) :
    Answered r.1 q.cb (.called c q :: .handled c (some q.cb) ev r.2 :: w.log) := by
  have hheld : (c, q) ∈ w.held := List.mem_append_right _ hq
  obtain ⟨rs, failure, habout, hresults, herr⟩ := handled_calls (c := c) (m := q.cb) ho hcb
  have hu := hs.untouched q (mem_uncompleted hheld)
  have hclean := hs.clean c (working_of_held hheld)
  have hans : Answered r.1 q.cb (.handled c (some q.cb) ev r.2 :: w.log) := by
    refine hu.answered habout (by rw [hresults, hclean.1]; rfl) (by simp [herr, hclean.2]) ?_
    rw [sendFailed_cons]
    rintro (⟨_, _, _, _, he, -⟩ | hf)
    · cases he
    · exact absurd hf hu.sendFailed
  exact (sameFor_quiet rfl (by simp) (by simp)).answered hans

theorem Served.answered_next (hs : w.Served) (h : w.Consistent) (hG : w.CommandFree l)
    (ho : Outcome w l w') : ∀ x ∈ w'.calling, Answered (w'.conns x.1) x.2.cb w'.log := by
  have hlog {x : ℕ × PendingQuery} (hx : x ∈ w.calling) := hs.answered_log h hG ho hx
  cases ho with
  | construct hstack => intro x hx; cases hx
  | constructed hstack => intro x hx; cases hx
  | accept => exact fun x hx => hlog hx
  | delete => exact fun x hx => hlog hx
  | @grant q c rest hu hcb hfree =>
      intro x hx
      have hc : w.Working c := Or.inl (hfree ▸ List.mem_cons_self)
      simp only [h.update_calling hx hc]
      exact hlog hx
  | defer => exact fun x hx => hlog hx
  | @resume c cs q qs rest hstack hfree hpending =>
      intro x hx
      have hc : w.Working c := Or.inl (hfree ▸ List.mem_cons_self)
      simp only [h.update_calling hx hc]
      exact hlog hx
  | drained hstack =>
      intro x hx
      exact hlog (by simpa [calling, hstack, Frame.calling?] using hx)
  | @sendCalls a c q rest r hstack ho hcb =>
      intro x hx
      have hx : x = (c, q) ∨ x ∈ w.calling := by
        simpa [calling, complete, hstack, Frame.calling?] using hx
      rcases hx with rfl | hx
      · simp only [complete, runSend, Function.update_self]
        exact hs.answered_sent hstack ho (hG.send hstack) hcb
      · simp only [complete, runSend,
          h.update_calling hx (working_of_held (mem_held_of_send hstack))]
        exact hlog hx
  | @sendWaits a c q rest r hstack ho hcb =>
      intro x hx
      have hx : x ∈ w.calling := by simpa [calling, hstack, Frame.calling?] using hx
      simp only [runSend, h.update_calling hx (working_of_held (mem_held_of_send hstack))]
      exact hlog hx
  | @ret c q rest hstack =>
      intro x hx
      have hold : x ∈ w.calling := by
        have : x ∈ rest.filterMap Frame.calling? := by
          simpa [calling, giveBack, Frame.calling?] using hx
        simp [calling, hstack, Frame.calling?, this]
      have hnd := h.inUse_nodup
      rw [((inUse_giveBack hstack).map Prod.fst).nodup_iff, List.map_cons, List.nodup_cons] at hnd
      have hne : x.1 ≠ c := fun he =>
        hnd.1 (he ▸ List.mem_map.2 ⟨x, List.mem_append_right _ hx, rfl⟩)
      simp only [giveBack, Function.update_of_ne hne]
      exact hlog hold
  | @connectWaits c ev a effs hstack hc =>
      intro x hx
      simp only [runEvent, Function.update_eq_self]
      exact hlog hx
  | @connectFails c ev a effs hstack hc =>
      intro x hx
      simp only [runEvent, h.update_calling hx (Or.inr (Or.inl hc))]
      exact hlog hx
  | @connects c ev a effs hstack hc =>
      intro x hx
      simp only [runEvent, h.update_calling hx (Or.inr (Or.inl hc))]
      exact hlog hx
  | @queryWaits c q ev a r hstack hq =>
      intro x hx
      have hc : w.Working c := working_of_held (x := (c, q)) (List.mem_append_right _ hq)
      simp only [runEvent, h.update_calling hx hc]
      exact hlog hx
  | @queryCalls c q ev a r hstack hq ho hcb =>
      intro x hx
      obtain rfl : x = (c, q) := by simpa [calling, complete, Frame.calling?] using hx
      simp only [complete, runEvent, Function.update_self, hs.command (c, q) hq]
      exact hs.answered_handled hq ho hcb

/-- libpq's command on a connection in flight is the query's own. -/
theorem Served.command_next (hs : w.Served) (h : w.Consistent) (hG : w.CommandFree l)
    (ho : Outcome w l w') : ∀ x ∈ w'.flying, w'.command x.1 = some x.2.cb := by
  have hold := hs.command
  cases ho with
  | @sendCalls a c q rest r hstack ho hcb =>
      intro x hx
      have hne := h.flying_ne_sending (hstack ▸ List.mem_cons_self) x hx
      simp only [complete, runSend, Function.update_of_ne hne]
      exact hold x hx
  | @sendWaits a c q rest r hstack ho hcb =>
      obtain ⟨-, -, -, hcommand, -⟩ := sent_waits (c := c) ho (hG.send hstack) hcb
      intro x hx
      rcases List.mem_cons.1 hx with rfl | hx
      · simp only [runSend, Function.update_self]
        exact hcommand
      · have hne := h.flying_ne_sending (hstack ▸ List.mem_cons_self) x hx
        simp only [runSend, Function.update_of_ne hne]
        exact hold x hx
  | @connectWaits c ev a effs hstack hc =>
      intro x hx
      have hne := (h.ne_of_connecting hc (h.mem_of_inUse (mem_inUse_of_flying hx))).symm
      simp only [runEvent, Function.update_of_ne hne]
      exact hold x hx
  | @connectFails c ev a effs hstack hc =>
      intro x hx
      have hne := (h.ne_of_connecting hc (h.mem_of_inUse (mem_inUse_of_flying hx))).symm
      simp only [runEvent, Function.update_of_ne hne]
      exact hold x hx
  | @connects c ev a effs hstack hc =>
      intro x hx
      have hne := (h.ne_of_connecting hc (h.mem_of_inUse (mem_inUse_of_flying hx))).symm
      simp only [runEvent, Function.update_of_ne hne]
      exact hold x hx
  | @queryWaits c q ev a r hstack hq ho hcb =>
      obtain ⟨-, -, -, hcommand⟩ := handled_waits (c := c) (m := q.cb) ho hcb
      intro x hx
      by_cases he : x.1 = c
      · have hsame : x.2 = q := h.inUse_unique (c := c)
          (he ▸ mem_inUse_of_flying hx) (mem_inUse_of_flying hq)
        simp only [runEvent, he, Function.update_self, hs.command (c, q) hq, hsame]
        exact hcommand
      · simp only [runEvent, Function.update_of_ne he]
        exact hold x hx
  | @queryCalls c q ev a r hstack hq ho hcb =>
      intro x hx
      have hne := h.flying_ne_erase hq hx
      simp only [complete, runEvent, Function.update_of_ne hne]
      exact hold x (List.mem_of_mem_erase hx)
  | _ => exact hold

/-- A connection that has not joined the pool has no command. -/
theorem Served.noCommand_next (hs : w.Served) (h : w.Consistent) (ho : Outcome w l w') :
    ∀ c, c ∉ w'.pool.connectedConns → w'.command c = none := by
  have hold := hs.noCommand
  -- a command is only started or ended on a member
  have hmember {c c' : ℕ} {command : Option ℕ} (hc' : c' ∉ w.pool.connectedConns)
      (hc : c ∈ w.pool.connectedConns) : Function.update w.command c command c' = none := by
    have hne : c' ≠ c := fun he => hc' (he ▸ hc)
    rw [Function.update_of_ne hne]
    exact hold c' hc'
  have hconnect {c : ℕ} {effs : List Effect} (hc : c ∈ w.connecting) :
      ∀ c', c' ∉ w.pool.connectedConns →
        Function.update w.command c (effs.foldl (commandAfter none) (w.command c)) c' = none := by
    intro c' hc'
    rw [hold c (h.connecting_new c hc).1, foldl_commandAfter_none]
    by_cases he : c' = c
    · rw [he, Function.update_self]
    · rw [Function.update_of_ne he]
      exact hold c' hc'
  cases ho with
  | sendCalls hstack =>
      exact fun c' hc' =>
        hmember hc' (h.mem_of_inUse (mem_inUse_of_sending (hstack ▸ List.mem_cons_self)))
  | sendWaits hstack =>
      exact fun c' hc' =>
        hmember hc' (h.mem_of_inUse (mem_inUse_of_sending (hstack ▸ List.mem_cons_self)))
  | connectWaits hstack hc => exact hconnect hc
  | connectFails hstack hc => exact hconnect hc
  | connects hstack hc hyes hpoll herr =>
      intro c' hc'
      refine hconnect hc c' fun hmem => hc' ?_
      simp [DBpooler.onConnect, herr, hmem]
  | queryWaits hstack hq =>
      exact fun c' hc' => hmember hc' (h.mem_of_inUse (mem_inUse_of_flying hq))
  | queryCalls hstack hq =>
      exact fun c' hc' => hmember hc' (h.mem_of_inUse (mem_inUse_of_flying hq))
  | _ => exact hold

/-- **Every step keeps the records straight**, as long as libpq refuses a second command. -/
theorem Served.next (hs : w.Served) (h : w.Consistent) (hG : w.CommandFree l)
    (hn : w.next l = some w') : w'.Served := by
  have ho := h.outcome hn
  have h' := h.next hn
  have hserial := hs.serial_next h ho
  exact {
    clean := hs.clean_next h hG ho h'
    untouched := by
      intro q hq
      rcases hs.touched h hG ho q.cb with hsame | ⟨x, hx, hcb, hx'⟩
      · rcases ho.uncompleted hq with hold | hnew
        · exact hsame.untouched (hs.untouched q hold)
        · exact hsame.untouched (hs.new q.cb (by omega))
      · rcases hx' with hcalled | huntouched
        · -- the query touched is completed by the step, so it is not this one
          have he := hserial _ (h'.submitted_of_uncompleted hq) _
            (h'.submitted_of_called hcalled) hcb
          exact absurd (he ▸ hcalled) (h'.completed_disjoint hq)
        · exact huntouched (hcb ▸ hs.untouched x.2 (mem_uncompleted hx))
    new := by
      intro n hn'
      have hle := ho.nextCb_le
      rcases hs.touched h hG ho n with hsame | ⟨x, hx, rfl, -⟩
      · exact hsame.untouched (hs.new n (by omega))
      · have := h.fresh x.2 (h.submitted_of_uncompleted (mem_uncompleted hx))
        omega
    command := hs.command_next h hG ho
    noCommand := hs.noCommand_next h ho
    answered := hs.answered_next h hG ho
    serial := hserial }

theorem served_start (connectionInfo : String) (poolSize : ℤ) :
    (start connectionInfo poolSize).Served where
  clean c hc := by
    rcases hc with hc | hc | hc <;> cases hc
  untouched q hq := by cases hq
  new n _ := ⟨rfl, by simp [Failed, start], by simp [SendFailed, start]⟩
  command x hx := by cases hx
  noCommand c _ := rfl
  answered x hx := by cases hx
  serial q hq := by cases hq

end PoolState

open PoolState

/-- **Query isolation.** If libpq starts no command while one is in progress, then while the
    callback of `q` runs on connection `c`, the connection's `results` are the results libpq
    returned for `q` itself, in order, up to the first failed one, and none if the send failed; and
    `is_error` is set exactly if `q` itself failed. -/
theorem query_isolation {tr : List (PoolState × PoolLabel)} {w : PoolState}
    (h : poolMachine.Run tr w) (hG : Guarded CommandFree tr) {c : ℕ} {q : PendingQuery}
    (hq : .user c q ∈ w.stack) :
    (w.conns c).results
        = ((resultsOf q.cb w.log).takeWhile (Dbconnection.okStatus ·)).map
            Dbconnection.copyResult ∧
      ((w.conns c).isError = true ↔ Failed q.cb w.log) ∧
      (SendFailed q.cb w.log → (w.conns c).results = []) := by
  have hboth : w.Consistent ∧ w.Served := by
    refine h.invariant (I := fun w => w.Consistent ∧ w.Served) ?_ ?_ hG
    · rintro s ⟨connectionInfo, poolSize, rfl⟩
      exact ⟨consistent_start connectionInfo poolSize, served_start connectionInfo poolSize⟩
    · rintro s l t ⟨hc, hs⟩ hG hn
      exact ⟨hc.next hn, hs.next hc hG hn⟩
  have hans := hboth.2.answered (c, q) (List.mem_filterMap.2 ⟨_, hq, rfl⟩)
  exact ⟨hans.results, hans.isError, hans.sendFailed⟩

/-- The first query ends in an error after a good result; the second is served by the same
    connection. -/
def failedThenServed : List PoolLabel :=
  [.construct 0 (some 5), .constructed, .connectEvent 0 ⟨epollOut, 5⟩ connectOk,
    .submit "q0" "a", .send ⟨1, 0⟩, .submit "q1" "b",
    .queryEvent 0 ⟨"q0", "a", 0⟩ ⟨epollIn, 5⟩
      { queryOk with
        results := [⟨.tuplesOk, 1, 1, fun _ _ => "6"⟩, ⟨.fatalError, 0, 0, fun _ _ => ""⟩] },
    .ret, .loop, .send ⟨1, 0⟩, .loop,
    .queryEvent 0 ⟨"q1", "b", 1⟩ ⟨epollIn, 5⟩
      { queryOk with results := [⟨.tuplesOk, 1, 1, fun _ _ => "7"⟩] }]

theorem query_isolation_second : ∃ tr w, poolMachine.Run tr w ∧ Guarded CommandFree tr ∧
    (w.conns 0).results = [⟨1, 1, [["7"]]⟩] ∧ ¬ Failed 1 w.log ∧
    (w.conns 0).results
      = ((resultsOf 1 w.log).takeWhile (Dbconnection.okStatus ·)).map Dbconnection.copyResult := by
  have hrun : (((poolMachine.restrict CommandFree).exec (.start "db" 1) failedThenServed).map
      fun w => (w.stack, (w.conns 0).results, (w.conns 0).isError))
      = some ([.user 0 ⟨"q1", "b", 1⟩], [⟨1, 1, [["7"]]⟩], false) := by decide +kernel
  obtain ⟨w, hw, hstate⟩ := Option.map_eq_some_iff.1 hrun
  simp only [Prod.mk.injEq] at hstate
  obtain ⟨hstack, hresults, herr⟩ := hstate
  obtain ⟨tr, hr, hG⟩ := Machine.exists_guarded_run (M := poolMachine) ⟨"db", 1, rfl⟩ hw
  have hq : .user 0 ⟨"q1", "b", 1⟩ ∈ w.stack := by rw [hstack]; exact List.mem_cons_self
  obtain ⟨hown, hfailed, -⟩ := query_isolation hr hG hq
  refine ⟨tr, w, hr, hG, hresults, fun hf => ?_, hown⟩
  rw [hfailed.2 hf] at herr
  cases herr

end FiberConn
