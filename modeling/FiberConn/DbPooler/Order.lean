import FiberConn.DbPooler.Calls.Proofs
import FiberConn.DbPooler.Proofs

set_option autoImplicit false

/-! # First come, first served

That queries which waited are served in turn does not yet say that no later query overtakes them:
`sendQuery` looks at `idle_count` only, so a query submitted while others wait beside a free
connection goes first. `InOrder` is the strict order. A run keeps it exactly as long as no query is
submitted in such a moment, and there is none unless a connect completes while queries wait. -/

namespace FiberConn

open Machine

namespace PoolState

variable {w w' : PoolState} {l : PoolLabel}

/-- The queries handed to connections and those that wait are, in this order, all the queries ever
    submitted. -/
def InOrder (w : PoolState) : Prop :=
  history Obs.handed? w.log ++ w.pool.pendingQueries = history Obs.submitted? w.log

/-- No query is submitted while others wait beside a free connection. -/
def SubmitsInTurn (w : PoolState) : PoolLabel → Prop
  | .submit _ _ => 0 < w.pool.idleCount → w.pool.pendingQueries = []
  | _ => True

instance (w : PoolState) (l : PoolLabel) : Decidable (w.SubmitsInTurn l) := by
  unfold SubmitsInTurn
  split <;> infer_instance

/-! ## Submitting in turn -/

theorem InOrder.next (h : w.InOrder) (hc : w.Consistent) (hG : w.SubmitsInTurn l)
    (hn : w.next l = some w') : w'.InOrder := by
  have hidle := hc.idle
  cases hc.outcome hn with
  | @grant q c rest hu hq hfree =>
      have hnone : w.pool.pendingQueries = [] := hG (by rw [hidle, hfree]; simp)
      simp only [InOrder, history, Obs.handed?, Obs.submitted?] at h ⊢
      rw [hnone, List.append_nil] at h ⊢
      rw [h]
  | defer hu hq hfree =>
      simp only [InOrder, history, Obs.handed?, Obs.submitted?] at h ⊢
      rw [← List.append_assoc, h]
  | resume hs hfree hpending =>
      simp only [InOrder, history, Obs.handed?, Obs.submitted?, hpending] at h ⊢
      rw [← h, List.append_assoc, List.singleton_append]
  | connects hs hc hyes hpoll herr =>
      simpa [InOrder, history, runEvent, DBpooler.onConnect, herr, Obs.handed?, Obs.submitted?]
        using h
  | _ => exact h

/-- A query that is submitted out of turn overtakes those that wait. -/
theorem InOrder.submitsInTurn (h : w.InOrder) (hc : w.Consistent) (hn : w.next l = some w')
    (h' : w'.InOrder) : w.SubmitsInTurn l := by
  have hidle := hc.idle
  cases hc.outcome hn with
  | @grant q c rest hu hq hfree =>
      intro _
      have hfresh : q ∉ w.pool.pendingQueries := by
        intro hmem
        have hold : q ∈ history Obs.submitted? w.log := h ▸ List.mem_append_right _ hmem
        exact absurd (hc.fresh q hold) (by omega)
      simp only [InOrder, history, Obs.handed?, Obs.submitted?] at h h'
      rw [← h, List.append_assoc, List.append_assoc, List.append_cancel_left_eq] at h'
      cases hpending : w.pool.pendingQueries with
      | nil => rfl
      | cons p ps =>
          rw [hpending] at h' hfresh
          obtain ⟨rfl, -⟩ := List.cons.inj h'
          exact absurd List.mem_cons_self hfresh
  | defer hu hq hfree =>
      intro hpos
      rw [hidle, hfree] at hpos
      exact absurd hpos (by simp)
  | _ => trivial

theorem inOrder_start (connectionInfo : String) (poolSize : ℤ) :
    (start connectionInfo poolSize).InOrder := rfl

/-! ## When queries are submitted in turn -/

/-- Free connections and waiting queries meet only at a drain loop, over one connection. -/
structure InTurn (w : PoolState) : Prop where
  consistent : w.Consistent
  law : w.pool.pendingQueries = [] ∨ w.pool.availableConns.length ≤ w.slack

theorem slack_of_userCode (hu : w.UserCode) : w.slack = 0 := by
  unfold UserCode at hu
  unfold slack
  split at hu
  · next hs => rw [hs]
  · next hs => rw [hs]
  · exact hu.elim

theorem InTurn.next (h : w.InTurn) (hG : w.JoinsUnawaited l) (hn : w.next l = some w') :
    w'.InTurn := by
  refine ⟨h.consistent.next hn, ?_⟩
  have hlaw := h.law
  have hslack {f : Frame} {rest : List Frame} (hs : w.stack = f :: rest) (hf : f ≠ .drain)
      (hl : w.pool.pendingQueries = [] ∨ w.pool.availableConns.length ≤ w.slack) :
      w.pool.pendingQueries = [] ∨ w.pool.availableConns = [] := by
    refine hl.imp_right fun hle => ?_
    have hzero : w.slack = 0 := by
      unfold slack
      rw [hs]
      cases f with
      | drain => exact absurd rfl hf
      | _ => rfl
    exact List.length_eq_zero_iff.1 (by omega)
  cases h.consistent.outcome hn with
  | construct hs =>
      refine (hslack hs (by simp) hlaw).imp_right fun hnone => ?_
      simp only [hnone, List.length_nil]
      exact Nat.zero_le _
  | constructed hs =>
      refine (hslack hs (by simp) hlaw).imp_right fun hnone => ?_
      simp only [hnone, List.length_nil]
      exact Nat.zero_le _
  | accept => exact hlaw
  | delete => exact hlaw
  | grant hu hq hfree =>
      refine Or.inl (hlaw.resolve_right fun hle => ?_)
      rw [slack_of_userCode hu, hfree] at hle
      simp at hle
  | defer hu hq hfree =>
      refine Or.inr ?_
      simp only [hfree, List.length_nil]
      exact Nat.zero_le _
  | @resume c cs q qs rest hs hfree hpending =>
      refine Or.inr ?_
      have hle := hlaw.resolve_left (by simp [hpending])
      have hone : w.slack = 1 := by
        unfold slack
        rw [hs]
      rw [hone, hfree, List.length_cons] at hle
      have hcs : cs.length = 0 := by omega
      simp only [hcs]
      exact Nat.zero_le _
  | drained hs hdone =>
      refine hdone.symm.imp_right fun hnone => ?_
      simp only [hnone, List.length_nil]
      exact Nat.zero_le _
  | sendCalls hs ho hcb =>
      refine (hslack hs (by simp) hlaw).imp_right fun hnone => ?_
      simp only [complete, runSend, hnone, List.length_nil]
      exact Nat.zero_le _
  | sendWaits hs ho hcb =>
      refine (hslack hs (by simp) hlaw).imp_right fun hnone => ?_
      simp only [runSend, hnone, List.length_nil]
      exact Nat.zero_le _
  | ret hs =>
      refine (hslack hs (by simp) hlaw).imp_right fun hnone => ?_
      simp [giveBack, hnone, slack]
  | connectWaits hs => exact hlaw
  | connectFails hs => exact hlaw
  | connects hs hc hyes hpoll herr =>
      refine Or.inl ?_
      simp only [DBpooler.onConnect, herr, if_true]
      exact hG hyes
  | queryWaits hs => exact hlaw
  | queryCalls hs =>
      have hzero : w.slack = 0 := by
        unfold slack
        rw [hs]
      refine hlaw.imp_right fun hle => ?_
      show w.pool.availableConns.length ≤ _
      omega

theorem inTurn_start (connectionInfo : String) (poolSize : ℤ) :
    (start connectionInfo poolSize).InTurn :=
  ⟨consistent_start connectionInfo poolSize, Or.inl rfl⟩

theorem InTurn.submitsInTurn (h : w.InTurn) (hn : w.next l = some w') : w.SubmitsInTurn l := by
  have hidle := h.consistent.idle
  have hturn (hu : w.UserCode) (hpos : 0 < w.pool.idleCount) : w.pool.pendingQueries = [] := by
    refine h.law.resolve_right fun hle => ?_
    rw [slack_of_userCode hu] at hle
    omega
  cases h.consistent.outcome hn with
  | grant hu => exact hturn hu
  | defer hu => exact hturn hu
  | _ => trivial

end PoolState

open PoolState

/-- **First come, first served.** In a run of the pool, all queries are handed to connections in the
    order of their submission exactly when none is submitted while others wait beside a free
    connection; and none is if every connect that completes finds `pending_queries` empty. -/
theorem served_in_order_iff {tr : List (PoolState × PoolLabel)} {w : PoolState}
    (h : poolMachine.Run tr w) :
    (Throughout InOrder tr w ↔ Guarded SubmitsInTurn tr) ∧
      (Guarded JoinsUnawaited tr → Throughout InOrder tr w) := by
  have hiff {tr : List (PoolState × PoolLabel)} {w : PoolState} (h : poolMachine.Run tr w) :
      Throughout InOrder tr w ↔ Guarded SubmitsInTurn tr := by
    refine h.law_iff_guard (I := fun w => w.Consistent ∧ w.InOrder) ?_ (fun _ hI => hI.2)
      (fun _ _ _ hI hG hn => ⟨hI.1.next hn, hI.2.next hI.1 hG hn⟩)
      fun _ _ _ hI hn hP => hI.2.submitsInTurn hI.1 hn hP
    rintro s ⟨connectionInfo, poolSize, rfl⟩
    exact ⟨consistent_start connectionInfo poolSize, inOrder_start connectionInfo poolSize⟩
  refine ⟨hiff h, fun hG => (hiff h).2 ?_⟩
  clear hiff
  induction h with
  | start h => exact fun x hx => absurd hx (by simp)
  | step hr hn ih =>
      obtain ⟨-, hrest⟩ := guarded_cons.1 hG
      have hturn := hr.invariant (I := InTurn)
        (by rintro s ⟨connectionInfo, poolSize, rfl⟩; exact inTurn_start connectionInfo poolSize)
        (fun _ _ _ hI hG hn => hI.next hG hn) hrest
      exact guarded_cons.2 ⟨hturn.submitsInTurn hn, ih hrest⟩

/-- With one connection, the second query waits for it and is handed over after the first. -/
theorem served_in_order_one : ∃ tr w, poolMachine.Run tr w ∧
    history Obs.handed? w.log = [⟨"q0", "a", 0⟩, ⟨"q1", "b", 1⟩] ∧ Throughout InOrder tr w := by
  have hrun : (((poolMachine.restrict JoinsUnawaited).exec (.start "db" 1) oneConnection).map
      fun w => history Obs.handed? w.log) = some [⟨"q0", "a", 0⟩, ⟨"q1", "b", 1⟩] := by
    decide +kernel
  obtain ⟨w, hw, hhanded⟩ := Option.map_eq_some_iff.1 hrun
  obtain ⟨tr, hr, hG⟩ := Machine.exists_guarded_run (M := poolMachine) ⟨"db", 1, rfl⟩ hw
  exact ⟨tr, w, hr, hhanded, (served_in_order_iff hr).2 hG⟩

end FiberConn
