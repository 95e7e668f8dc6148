import FiberConn.DbPooler.Steps

set_option autoImplicit false

/-! # What every run of the pool guarantees

The counters and the lists agree at every call-back point (`pool_invariant`), no query is lost,
duplicated or overtaken (`query_conservation`), and a query is left waiting beside a free
connection only after a connection has joined while queries were waiting
(`waits_only_when_busy_iff`): `sendQuery` and the completion lambda restore that law, the connect
callback does not. -/

namespace FiberConn

open Machine

namespace PoolState

variable {w : PoolState}

/-! ## Counters, lists and connections in use -/

/-- All connects succeeded exactly when there are `poolSize` members. -/
theorem Consistent.all_succeeded_iff (h : w.Consistent) (hsize : 0 < w.pool.poolSize) :
    (w.pool.connectedConns.length : ℤ) = w.pool.poolSize ↔
      ∀ i < w.pool.poolSize.toNat, ConnectSucceeded i w.log := by
  have hle := h.members_length
  constructor
  · intro hl i hi
    have hsub : w.pool.connectedConns.toFinset ⊆ Finset.range w.pool.poolSize.toNat :=
      fun c hc => Finset.mem_range.2
        ((h.members_lt c (List.mem_toFinset.1 hc)).trans_le h.built_le)
    have hcard : (Finset.range w.pool.poolSize.toNat).card ≤
        w.pool.connectedConns.toFinset.card := by
      rw [Finset.card_range, List.toFinset_card_of_nodup h.members_nodup]
      omega
    have hall := Finset.eq_of_subset_of_card_le hsub hcard
    exact (h.succeeded i).1 (List.mem_toFinset.1 (hall ▸ Finset.mem_range.2 hi))
  · intro hall
    have hsub : Finset.range w.pool.poolSize.toNat ⊆ w.pool.connectedConns.toFinset :=
      fun i hi => List.mem_toFinset.2 ((h.succeeded i).2 (hall i (Finset.mem_range.1 hi)))
    have hcard := Finset.card_le_card hsub
    rw [Finset.card_range, List.toFinset_card_of_nodup h.members_nodup] at hcard
    omega

theorem Consistent.members_perm (h : w.Consistent) :
    w.pool.connectedConns.Perm (w.pool.availableConns ++ w.inUse.map Prod.fst) := by
  have := h.lawful.members_eq
  rw [Consistent.inUse_eq] at this
  exact Multiset.coe_eq_coe.1 this

end PoolState

open PoolState

/-- **The pool invariant**, in every reachable state and so at every call of a user callback and
    after every event: the counters are the sizes of the lists, the members are distinct, at most
    `pool_size` many (none for a negative `pool_size`), and each is either available once or in use
    by one query; `front()` is never called on an empty queue; and the pool is ready exactly when
    all connects succeeded. -/
theorem pool_invariant {w : PoolState} (h : poolMachine.Reachable w) :
    w.pool.idleCount = w.pool.availableConns.length ∧
      w.pool.connectedCount = w.pool.connectedConns.length ∧
      w.pool.connectedCount ≤ max w.pool.poolSize 0 ∧
      w.pool.connectedConns.Nodup ∧
      w.pool.connectedConns.Perm (w.pool.availableConns ++ w.inUse.map Prod.fst) ∧
      w.undefined = false ∧
      (0 < w.pool.poolSize →
        (w.pool.isReady = true ↔ ∀ i < w.pool.poolSize.toNat, ConnectSucceeded i w.log)) := by
  have hc := reachable_consistent h
  have hlen := hc.members_length
  have hcount := hc.connected
  refine ⟨hc.idle, hcount, ?_, hc.members_nodup, hc.members_perm, hc.defined, fun hsize => ?_⟩
  · rcases max_choice w.pool.poolSize 0 with hm | hm <;> omega
  · exact (hc.ready hsize).trans (hc.all_succeeded_iff hsize)

theorem reachable_exec (connectionInfo : String) (poolSize : ℤ) {labels : List PoolLabel}
    {w : PoolState} (h : poolMachine.exec (.start connectionInfo poolSize) labels = some w) :
    poolMachine.Reachable w :=
  Reachable.exec (Reachable.start (M := poolMachine) ⟨connectionInfo, poolSize, rfl⟩) h

/-- libpq answers that complete a connect. -/
def connectOk : PqAnswers := ⟨.ok, 0, 0, 1, 0, 0, []⟩

/-- libpq answers that complete a query with no results. -/
def queryOk : PqAnswers := ⟨.ok, 0, 0, 1, 0, 0, []⟩

/-- A pool of two; the first query is in flight, the second waits. -/
def twoConnected : List PoolLabel :=
  [.construct 0 (some 5), .construct 0 (some 6), .constructed,
    .connectEvent 0 ⟨epollOut, 5⟩ connectOk, .submit "q0" "a", .send ⟨1, 0⟩, .submit "q1" "b",
    .connectEvent 1 ⟨epollOut, 6⟩ connectOk]

theorem pool_invariant_two : ∃ w, poolMachine.Reachable w ∧ w.pool.availableConns = [1] ∧
    w.inUse = [(0, ⟨"q0", "a", 0⟩)] ∧ w.pool.idleCount = w.pool.availableConns.length ∧
    w.pool.connectedConns.Perm (w.pool.availableConns ++ w.inUse.map Prod.fst) := by
  have hrun : ((poolMachine.exec (.start "db" 2) twoConnected).map
      fun w => (w.pool.availableConns, w.inUse)) = some ([1], [(0, ⟨"q0", "a", 0⟩)]) := by
    decide +kernel
  obtain ⟨w, hw, hstate⟩ := Option.map_eq_some_iff.1 hrun
  obtain ⟨havailable, hinUse⟩ := Prod.mk.inj hstate
  have hreach : poolMachine.Reachable w := reachable_exec "db" 2 hw
  have hinv := pool_invariant hreach
  exact ⟨w, hreach, havailable, hinUse, hinv.1, hinv.2.2.2.2.1⟩

/-- With a negative `pool_size` there are more connected connections than `pool_size`: none. -/
theorem negative_pool_size : ∃ w, poolMachine.Reachable w ∧ w.stack = [] ∧
    ¬ w.pool.connectedCount ≤ w.pool.poolSize := by
  have hrun : ((poolMachine.exec (.start "db" (-1)) [.constructed]).map
      fun w => (w.stack, w.pool.connectedCount, w.pool.poolSize)) = some ([], 0, -1) := by
    decide +kernel
  obtain ⟨w, hw, hstate⟩ := Option.map_eq_some_iff.1 hrun
  simp only [Prod.mk.injEq] at hstate
  obtain ⟨hstack, hcount, hsize⟩ := hstate
  refine ⟨w, reachable_exec "db" (-1) hw, hstack, ?_⟩
  rw [hcount, hsize]
  decide

/-! ## Waiting beside a free connection -/

namespace PoolState

/-- Between two reactor events, no query waits beside a free connection. -/
def WaitsOnlyWhenBusy (w : PoolState) : Prop :=
  w.stack = [] → 0 < w.pool.idleCount → w.pool.pendingQueries = []

/-- A step that completes a connect finds nobody waiting. -/
def JoinsUnawaited (w : PoolState) : PoolLabel → Prop
  | .connectEvent _ ev a => Dbconnection.Connects ev a → w.pool.pendingQueries = []
  | _ => True

instance (w : PoolState) (l : PoolLabel) : Decidable (w.JoinsUnawaited l) := by
  unfold JoinsUnawaited
  split <;> infer_instance

/-- A drain loop is going to run: it is running, or a callback is and it comes next. -/
def WillDrain (w : PoolState) : Prop :=
  .drain ∈ w.stack ∨ ∃ c q, .user c q ∈ w.stack

/-- The law inside an event: a query waits beside a free connection only while a drain loop is
    still to run. -/
structure Draining (w : PoolState) : Prop where
  consistent : w.Consistent
  law : 0 < w.pool.idleCount → w.pool.pendingQueries ≠ [] → w.WillDrain

variable {w w' : PoolState} {l : PoolLabel}

theorem Draining.waitsOnlyWhenBusy (h : w.Draining) : w.WaitsOnlyWhenBusy := by
  intro hs hidle
  by_contra hne
  rcases h.law hidle hne with hd | ⟨c, q, hu⟩
  · rw [hs] at hd
    cases hd
  · rw [hs] at hu
    cases hu

/-- A frame on top of others does not stop the drain loops below. -/
theorem WillDrain.push {stack stack' : List Frame} (h : w.WillDrain)
    (hs : w.stack = stack) (hs' : w'.stack = stack') (hsub : ∀ f ∈ stack, f ∈ stack') :
    w'.WillDrain := by
  subst hs hs'
  rcases h with hd | ⟨c, q, hu⟩
  · exact Or.inl (hsub _ hd)
  · exact Or.inr ⟨c, q, hsub _ hu⟩

/-- A send frame makes way for others without stopping a drain loop. -/
theorem WillDrain.pop_send {c : ℕ} {q : PendingQuery} {rest : List Frame} (h : w.WillDrain)
    (hs : w.stack = .send c q :: rest) (hs' : ∀ f ∈ rest, f ∈ w'.stack) : w'.WillDrain := by
  rcases h with hd | ⟨c', q', hu⟩
  · rw [hs] at hd
    exact Or.inl (hs' _ (by simpa using hd))
  · rw [hs] at hu
    exact Or.inr ⟨c', q', hs' _ (by simpa using hu)⟩

/-- Every step but an awaited join keeps the law. -/
theorem Draining.next (h : w.Draining) (hG : w.JoinsUnawaited l) (hn : w.next l = some w') :
    w'.Draining := by
  refine ⟨h.consistent.next hn, ?_⟩
  have hlaw := h.law
  have hidle := h.consistent.idle
  cases h.consistent.outcome hn with
  | construct hs =>
      intro hpos hne
      rcases hlaw hpos hne with hd | ⟨c, q, hu⟩ <;> simp [hs] at *
  | constructed hs =>
      intro hpos hne
      rcases hlaw hpos hne with hd | ⟨c, q, hu⟩ <;> simp [hs] at *
  | accept => exact hlaw
  | delete => exact hlaw
  | grant hu hq hfree =>
      intro hpos hne
      refine WillDrain.push (hlaw ?_ hne) rfl rfl fun f hf => List.mem_cons_of_mem _ hf
      dsimp only at hpos
      omega
  | defer hu hq hfree =>
      -- the query waits because no connection is free
      intro hpos
      rw [hfree] at hidle
      simp [hidle] at hpos
  | resume hs hfree hpending =>
      intro _ _
      exact Or.inl (by simp [hs])
  | drained hs hdone =>
      -- the loop ends because one of the two has run out
      intro hpos hne
      rcases hdone with hd | hd
      · rw [hd] at hidle
        simp [hidle] at hpos
      · exact absurd hd hne
  | sendCalls hs ho hcb =>
      intro hpos hne
      exact (hlaw hpos hne).pop_send hs fun f hf => List.mem_cons_of_mem _ hf
  | sendWaits hs ho hcb =>
      intro hpos hne
      exact (hlaw hpos hne).pop_send hs fun f hf => hf
  | ret hs =>
      intro _ _
      exact Or.inl List.mem_cons_self
  | connectWaits hs => exact hlaw
  | connectFails hs => exact hlaw
  | connects hs hc hyes hpoll herr =>
      -- no drain loop follows a connect
      intro _ hne
      simp only [DBpooler.onConnect, herr, if_true] at hne
      exact absurd (hG hyes) hne
  | queryWaits hs => exact hlaw
  | queryCalls hs => exact fun _ _ => Or.inr ⟨_, _, List.mem_cons_self⟩

/-- A step that keeps the law is not an awaited join. -/
theorem Draining.guard (h : w.Draining) (hn : w.next l = some w') (hP : w'.WaitsOnlyWhenBusy) :
    w.JoinsUnawaited l := by
  have hidle := h.consistent.idle
  cases h.consistent.outcome hn with
  | connects hs hc hyes hpoll herr =>
      intro _
      have := hP hs
      simp only [DBpooler.onConnect, herr, if_true] at this
      exact this (by omega)
  | connectWaits hs hc hno => exact fun hyes => absurd hyes hno
  | connectFails hs hc hno => exact fun hyes => absurd hyes hno
  | _ => trivial

theorem draining_start (connectionInfo : String) (poolSize : ℤ) :
    (start connectionInfo poolSize).Draining :=
  ⟨consistent_start connectionInfo poolSize,
    fun hpos => absurd hpos (by simp [start, DBpooler.new])⟩

end PoolState

/-- **When no query is stranded.** In a run of the pool, no query ever waits beside a free
    connection between two events exactly when every connect that completes finds
    `pending_queries` empty. -/
theorem waits_only_when_busy_iff {tr : List (PoolState × PoolLabel)} {w : PoolState}
    (h : poolMachine.Run tr w) :
    Throughout WaitsOnlyWhenBusy tr w ↔ Guarded JoinsUnawaited tr :=
  h.law_iff_guard (I := Draining)
    (by rintro s ⟨connectionInfo, poolSize, rfl⟩; exact draining_start connectionInfo poolSize)
    (fun _ hI => hI.waitsOnlyWhenBusy) (fun _ _ _ hI hG hn => hI.next hG hn)
    (fun _ _ _ hI hn hP => hI.guard hn hP)

/-- A pool of one: the second query waits for the first one's connection and gets it. -/
def oneConnection : List PoolLabel :=
  [.construct 0 (some 5), .constructed, .connectEvent 0 ⟨epollOut, 5⟩ connectOk,
    .submit "q0" "a", .send ⟨1, 0⟩, .submit "q1" "b",
    .queryEvent 0 ⟨"q0", "a", 0⟩ ⟨epollIn, 5⟩ queryOk, .ret, .loop, .send ⟨1, 0⟩, .loop]

theorem waits_only_when_busy_one : ∃ tr w, poolMachine.Run tr w ∧ w.stack = [] ∧
    w.inUse = [(0, ⟨"q1", "b", 1⟩)] ∧ Throughout WaitsOnlyWhenBusy tr w := by
  have hrun : (((poolMachine.restrict JoinsUnawaited).exec (.start "db" 1) oneConnection).map
      fun w => (w.stack, w.inUse)) = some ([], [(0, ⟨"q1", "b", 1⟩)]) := by decide +kernel
  obtain ⟨w, hw, hstate⟩ := Option.map_eq_some_iff.1 hrun
  obtain ⟨hstack, hinUse⟩ := Prod.mk.inj hstate
  obtain ⟨tr, hr, hG⟩ :=
    Machine.exists_guarded_run (M := poolMachine) ⟨"db", 1, rfl⟩ hw
  exact ⟨tr, w, hr, hstack, hinUse, (waits_only_when_busy_iff hr).2 hG⟩

/-- A query submitted before the only connect has finished waits beside the connection, and no
    completion is to come that would drain it. -/
theorem stranded_query : ∃ w, poolMachine.Reachable w ∧ w.stack = [] ∧ 0 < w.pool.idleCount ∧
    w.pool.pendingQueries = [⟨"q0", "a", 0⟩] ∧ w.inUse = [] := by
  have hrun : ((poolMachine.exec (.start "db" 1) [.construct 0 (some 5), .constructed,
      .submit "q0" "a", .connectEvent 0 ⟨epollOut, 5⟩ connectOk]).map
      fun w => (w.stack, w.pool.idleCount, w.pool.pendingQueries, w.inUse))
      = some ([], 1, [⟨"q0", "a", 0⟩], []) := by decide +kernel
  obtain ⟨w, hw, hstate⟩ := Option.map_eq_some_iff.1 hrun
  simp only [Prod.mk.injEq] at hstate
  obtain ⟨hstack, hidle, hpending, hinUse⟩ := hstate
  exact ⟨w, reachable_exec "db" 1 hw, hstack, by omega, hpending, hinUse⟩

/-! ## Conservation and order -/

namespace PoolState

variable {w : PoolState}

/-- The queries handed to a connection that has not called back yet. -/
def inFlight (w : PoolState) : List PendingQuery := (w.sending ++ w.flying).map Prod.snd

/-- Where a query is: how often it waits, is in flight, and had its callback called. -/
def whereabouts (w : PoolState) (q : PendingQuery) : ℕ × ℕ × ℕ :=
  (w.pool.pendingQueries.count q, w.inFlight.count q, (history Obs.called? w.log).count q)

theorem Consistent.count_submitted (h : w.Consistent) (q : PendingQuery) :
    w.pool.pendingQueries.count q + w.inFlight.count q + (history Obs.called? w.log).count q
      = (history Obs.submitted? w.log).count q := by
  have hcount := h.lawful.count_submitted q
  rwa [show w.abs.held.map Prod.snd = ↑w.inFlight from rfl, Multiset.coe_count] at hcount

end PoolState

/-- **No query is lost, duplicated or reordered.** Every submitted query is in exactly one place —
    once in `pending_queries`, in flight on one connection, or completed, with its callback called
    once — and nothing else is in any of them; each is handed to a connection at most once; and
    the queries that ever waited are handed over in the order in which they started to wait, those
    still waiting being the last of them. -/
theorem query_conservation {w : PoolState} (h : poolMachine.Reachable w) :
    (∀ q ∈ history Obs.submitted? w.log,
      w.whereabouts q = (1, 0, 0) ∨ w.whereabouts q = (0, 1, 0) ∨ w.whereabouts q = (0, 0, 1)) ∧
    (∀ q ∉ history Obs.submitted? w.log, w.whereabouts q = (0, 0, 0)) ∧
    (∀ q, (history Obs.handed? w.log).count q ≤ 1) ∧
    (history Obs.handed? w.log).filter (· ∈ history Obs.queued? w.log) ++ w.pool.pendingQueries
      = history Obs.queued? w.log := by
  have hc := reachable_consistent h
  have hplaces := hc.count_submitted
  refine ⟨fun q hq => ?_, fun q hq => ?_, fun q => ?_, hc.lawful.fifo⟩
  · have hone := List.count_eq_one_of_mem hc.lawful.submitted_nodup hq
    have hsum := (hplaces q).trans hone
    simp only [whereabouts, Prod.mk.injEq]
    omega
  · have hzero := List.count_eq_zero_of_not_mem hq
    have hsum := (hplaces q).trans hzero
    simp only [whereabouts, Prod.mk.injEq]
    omega
  · exact List.nodup_iff_count_le_one.1 hc.lawful.granted_nodup q

theorem query_conservation_one : ∃ w, poolMachine.Reachable w ∧
    history Obs.submitted? w.log = [⟨"q0", "a", 0⟩, ⟨"q1", "b", 1⟩] ∧
    w.whereabouts ⟨"q0", "a", 0⟩ = (0, 0, 1) ∧
    (∀ q ∈ history Obs.submitted? w.log,
      w.whereabouts q = (1, 0, 0) ∨ w.whereabouts q = (0, 1, 0) ∨ w.whereabouts q = (0, 0, 1)) := by
  have hrun : ((poolMachine.exec (.start "db" 1) oneConnection).map
      fun w => (history Obs.submitted? w.log, w.whereabouts ⟨"q0", "a", 0⟩))
      = some ([⟨"q0", "a", 0⟩, ⟨"q1", "b", 1⟩], (0, 0, 1)) := by decide +kernel
  obtain ⟨w, hw, hstate⟩ := Option.map_eq_some_iff.1 hrun
  obtain ⟨hsubmitted, hdone⟩ := Prod.mk.inj hstate
  have hreach := reachable_exec "db" 1 hw
  exact ⟨w, hreach, hsubmitted, hdone, (query_conservation hreach).1⟩

/-! ## Queries that are looked after -/

namespace PoolState

variable {w w' : PoolState} {l : PoolLabel}

/-- A drain loop runs only where a connection has joined. -/
def DrainsMember (w : PoolState) : Prop := .drain ∈ w.stack → w.pool.connectedConns ≠ []

/-- If a query waits, a completion lambda is still to run. -/
def Attended (w : PoolState) : Prop :=
  w.pool.pendingQueries = [] ∨ w.inUse ≠ [] ∨ .drain ∈ w.stack

theorem Consistent.connected_ne_nil (h : w.Consistent) {x : ℕ × PendingQuery}
    (hx : x ∈ w.inUse) : w.pool.connectedConns ≠ [] :=
  List.ne_nil_of_mem (h.mem_of_inUse hx)

/-- Where no member is available one is in use. -/
theorem Consistent.inUse_of_none_available (h : w.Consistent)
    (hfree : w.pool.availableConns = []) (hmem : w.pool.connectedConns ≠ []) : w.inUse ≠ [] := by
  intro hnone
  have hperm := h.members_perm
  rw [hfree, hnone] at hperm
  exact hmem hperm.eq_nil

/-- Without members nothing is in use. -/
theorem Consistent.inUse_eq_nil (h : w.Consistent) (hmem : w.pool.connectedConns = []) :
    w.inUse = [] := by
  rw [List.eq_nil_iff_forall_not_mem]
  intro x hx
  exact h.connected_ne_nil hx hmem

theorem DrainsMember.next (hd : w.DrainsMember) (h : w.Consistent) (hn : w.next l = some w') :
    w'.DrainsMember := by
  intro hmem
  cases h.outcome hn with
  | construct hs => simp at hmem
  | constructed hs => simp at hmem
  | accept => exact hd hmem
  | delete => exact hd hmem
  | grant hu hq hfree =>
      exact hd ((List.mem_cons.1 hmem).resolve_left nofun)
  | defer => exact hd hmem
  | resume hs hfree hpending =>
      exact hd ((List.mem_cons.1 hmem).resolve_left nofun)
  | drained hs => exact hd (hs ▸ List.mem_cons_of_mem _ hmem)
  | sendCalls hs =>
      have hrest := (List.mem_cons.1 hmem).resolve_left nofun
      exact hd (hs ▸ List.mem_cons_of_mem _ hrest)
  | sendWaits hs => exact hd (hs ▸ List.mem_cons_of_mem _ hmem)
  | ret hs => exact h.connected_ne_nil (mem_inUse_of_calling (hs ▸ List.mem_cons_self))
  | connectWaits hs => exact hd hmem
  | connectFails hs => exact hd hmem
  | connects hs hc hyes hpoll herr =>
      simp [DBpooler.onConnect, herr]
  | queryWaits hs => exact hd hmem
  | queryCalls hs => simp [complete] at hmem

/-- **A submission** is attended if the pool has a connection, and only then. -/
theorem Consistent.attended_submit (h : w.Consistent) (hd : w.DrainsMember) {query client : String}
    (hn : w.next (.submit query client) = some w') :
    w'.Attended ↔ w.pool.connectedConns ≠ [] := by
  have h' := h.next hn
  cases h.outcome hn with
  | @grant q c rest hu hq hfree =>
      refine iff_of_true (Or.inr (Or.inl ?_)) ?_
      · exact List.ne_nil_of_mem (mem_inUse_of_sending (q := q) (c := c) List.mem_cons_self)
      · exact List.ne_nil_of_mem (h.mem_of_available (hfree ▸ List.mem_cons_self))
  | @defer q hu hq hfree =>
      constructor
      · rintro (hpending | huse | hdrain)
        · simp at hpending
        · intro hmem
          exact huse (h'.inUse_eq_nil hmem)
        · exact hd hdrain
      · intro hmem
        exact Or.inr (Or.inl (h.inUse_of_none_available hfree hmem))

/-- **Every other step** leaves it as it is. -/
theorem Consistent.attended_next (h : w.Consistent) (hd : w.DrainsMember)
    (hl : ∀ query client, l ≠ .submit query client) (hn : w.next l = some w') :
    w'.Attended ↔ w.Attended := by
  cases h.outcome hn with
  | construct hs => simp [Attended, inUse, sending, calling, hs, Frame.sending?, Frame.calling?]
  | constructed hs => simp [Attended, inUse, sending, calling, hs, Frame.sending?, Frame.calling?]
  | accept => rfl
  | delete => rfl
  | grant => exact absurd rfl (hl _ _)
  | defer => exact absurd rfl (hl _ _)
  | resume hs hfree hpending =>
      refine iff_of_true (Or.inr (Or.inr ?_)) (Or.inr (Or.inr ?_))
      · exact List.mem_cons_of_mem _ (hs ▸ List.mem_cons_self)
      · exact hs ▸ List.mem_cons_self
  | drained hs hdone =>
      have hdrain : .drain ∈ w.stack := hs ▸ List.mem_cons_self
      refine iff_of_true ?_ (Or.inr (Or.inr hdrain))
      -- the loop ends because one of the two has run out
      rcases hdone with hfree | hpending
      · refine Or.inr (Or.inl ?_)
        have huse := h.inUse_of_none_available hfree (hd hdrain)
        simpa [inUse, sending, calling, hs, Frame.sending?, Frame.calling?] using huse
      · exact Or.inl hpending
  | @sendCalls a c q rest r hs ho hcb =>
      refine iff_of_true (Or.inr (Or.inl ?_)) (Or.inr (Or.inl ?_))
      · exact List.ne_nil_of_mem (mem_inUse_of_calling (c := c) (q := q) List.mem_cons_self)
      · exact List.ne_nil_of_mem (mem_inUse_of_sending (hs ▸ List.mem_cons_self))
  | @sendWaits a c q rest r hs ho hcb =>
      refine iff_of_true (Or.inr (Or.inl ?_)) (Or.inr (Or.inl ?_))
      · exact List.ne_nil_of_mem (mem_inUse_of_flying (x := (c, q)) List.mem_cons_self)
      · exact List.ne_nil_of_mem (mem_inUse_of_sending (hs ▸ List.mem_cons_self))
  | ret hs =>
      refine iff_of_true (Or.inr (Or.inr List.mem_cons_self)) (Or.inr (Or.inl ?_))
      exact List.ne_nil_of_mem (mem_inUse_of_calling (hs ▸ List.mem_cons_self))
  | connectWaits => rfl
  | connectFails => rfl
  | connects hs hc hyes hpoll herr =>
      simp [Attended, inUse, sending, calling, DBpooler.onConnect, herr, runEvent]
  | queryWaits => rfl
  | @queryCalls c q ev a r hs hq ho hcb =>
      refine iff_of_true (Or.inr (Or.inl ?_)) (Or.inr (Or.inl ?_))
      · exact List.ne_nil_of_mem (mem_inUse_of_calling (c := c) (q := q) List.mem_cons_self)
      · exact List.ne_nil_of_mem (mem_inUse_of_flying hq)

end PoolState

end FiberConn
