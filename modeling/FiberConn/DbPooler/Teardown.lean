import FiberConn.DbPooler.Proofs

set_option autoImplicit false

/-! # Tearing the pool down

`~DBpooler` counts up to `pool_size`, but `connected_conns` holds the connections whose connect has
succeeded. It deletes what the constructor created exactly when these are all of them. -/

namespace FiberConn

open Machine

namespace DBpooler

/-- The loop of `~DBpooler` at index `i`, with `left` rounds to go: the connections it deletes. It
    is undefined if `connected_conns[i]` is out of bounds in one of the rounds. -/
def destroyFrom (p : DBpooler) : (left i : ℕ) → Option (List ℕ)
  | 0, _ => some []
  | left + 1, i =>
      p.connectedConns[i]?.bind fun conn =>
        (p.destroyFrom left (i + 1)).map fun rest => conn :: rest

/-- The destructor. -/
def destroy (p : DBpooler) : Option (List ℕ) := p.destroyFrom p.poolSize.toNat 0

variable {p : DBpooler}

theorem destroyFrom_eq (left i : ℕ) (h : i + left ≤ p.connectedConns.length) :
    p.destroyFrom left i = some ((p.connectedConns.drop i).take left) := by
  induction left generalizing i with
  | zero => rfl
  | succ left ih =>
      have hi : i < p.connectedConns.length := by omega
      rw [destroyFrom, ih (i + 1) (by omega), List.getElem?_eq_getElem hi,
        List.drop_eq_getElem_cons hi]
      rfl

theorem destroyFrom_isSome {left i : ℕ} (hi : i ≤ p.connectedConns.length)
    (h : (p.destroyFrom left i).isSome) : i + left ≤ p.connectedConns.length := by
  induction left generalizing i with
  | zero => exact hi
  | succ left ih =>
      obtain ⟨deleted, hdeleted⟩ := Option.isSome_iff_exists.1 h
      obtain ⟨conn, hconn, hrest⟩ := Option.bind_eq_some_iff.1 hdeleted
      obtain ⟨rest, hrest, -⟩ := Option.map_eq_some_iff.1 hrest
      have hlt := (List.getElem?_eq_some_iff.1 hconn).1
      have hle := ih hlt (Option.isSome_iff_exists.2 ⟨rest, hrest⟩)
      omega

end DBpooler

namespace PoolState

variable {w : PoolState}

/-- The destructor stays within bounds and deletes each connection of the constructor once. -/
def SafeTeardown (w : PoolState) : Prop :=
  ∃ deleted, w.pool.destroy = some deleted ∧ deleted.Perm (List.range w.built)

/-- The destructor stays within bounds exactly if there are `pool_size` members. -/
theorem destroy_isSome : w.pool.destroy.isSome ↔
    w.pool.poolSize.toNat ≤ w.pool.connectedConns.length := by
  constructor
  · intro h
    have hle := DBpooler.destroyFrom_isSome (Nat.zero_le _) h
    omega
  · intro hle
    rw [DBpooler.destroy, DBpooler.destroyFrom_eq _ _ (by omega)]
    rfl

/-- As many members as were asked for are all the connections built. -/
theorem Consistent.members_perm_range (h : w.Consistent)
    (hall : w.pool.poolSize.toNat ≤ w.pool.connectedConns.length) :
    w.pool.connectedConns.Perm (List.range w.built) := by
  have hsub : w.pool.connectedConns ⊆ List.range w.built :=
    fun c hc => List.mem_range.2 (h.members_lt c hc)
  refine (List.subperm_of_subset h.members_nodup hsub).perm_of_length_le ?_
  rw [List.length_range]
  exact h.built_le.trans hall

theorem Consistent.safeTeardown_iff (h : w.Consistent) :
    w.SafeTeardown ↔ w.pool.poolSize.toNat ≤ w.pool.connectedConns.length := by
  constructor
  · rintro ⟨deleted, hdeleted, -⟩
    exact destroy_isSome.1 (Option.isSome_iff_exists.2 ⟨deleted, hdeleted⟩)
  · intro hall
    refine ⟨_, DBpooler.destroyFrom_eq _ _ (by omega), ?_⟩
    have hle := h.members_length
    rw [List.drop_zero, List.take_of_length_le (by omega)]
    exact h.members_perm_range hall

end PoolState

open PoolState

/-- **When the pool can be torn down**: in every reachable state, the destructor stays within bounds
    and deletes every connection exactly once if and only if all `pool_size` connects have
    succeeded. -/
theorem safe_teardown_iff {w : PoolState} (h : poolMachine.Reachable w) :
    w.SafeTeardown ↔ ∀ i < w.pool.poolSize.toNat, ConnectSucceeded i w.log := by
  have hc := reachable_consistent h
  rw [hc.safeTeardown_iff]
  by_cases hsize : 0 < w.pool.poolSize
  · have hle := hc.members_length
    rw [← hc.all_succeeded_iff hsize]
    omega
  · have hzero : w.pool.poolSize.toNat = 0 := by omega
    rw [hzero]
    exact iff_of_true (Nat.zero_le _) fun i hi => absurd hi (Nat.not_lt_zero i)

/-- Two connections, one of them serving a query that is never completed. -/
theorem safe_teardown_two : ∃ w, poolMachine.Reachable w ∧
    w.inUse = [(0, ⟨"q0", "a", 0⟩)] ∧ w.pool.destroy = some [0, 1] ∧ w.SafeTeardown := by
  have hrun : ((poolMachine.exec (.start "db" 2) twoConnected).map
      fun w => (w.inUse, w.pool.connectedConns, w.pool.poolSize))
      = some ([(0, ⟨"q0", "a", 0⟩)], [0, 1], 2) := by decide +kernel
  obtain ⟨w, hw, hstate⟩ := Option.map_eq_some_iff.1 hrun
  simp only [Prod.mk.injEq] at hstate
  obtain ⟨hinUse, hmembers, hsize⟩ := hstate
  have hreach := reachable_exec "db" 2 hw
  have hall : (w.pool.connectedConns.length : ℤ) = w.pool.poolSize := by
    rw [hmembers, hsize]
    rfl
  refine ⟨w, hreach, hinUse, ?_, (safe_teardown_iff hreach).2 ?_⟩
  · rw [DBpooler.destroy, hsize, DBpooler.destroyFrom_eq _ _ (by rw [hmembers]; decide), hmembers]
    rfl
  · exact ((reachable_consistent hreach).all_succeeded_iff (by omega)).1 hall

/-- `PQconnectStart` returns `NULL` for the only connection: `connected_conns[0]` does not exist. -/
theorem teardown_out_of_bounds : ∃ w, poolMachine.Reachable w ∧ w.stack = [] ∧ w.built = 1 ∧
    w.pool.destroy = none ∧ ¬ w.SafeTeardown := by
  have hrun : ((poolMachine.exec (.start "db" 1) [.construct 0 none, .constructed]).map
      fun w => (w.stack, w.built, w.pool.destroy)) = some ([], 1, none) := by decide +kernel
  obtain ⟨w, hw, hstate⟩ := Option.map_eq_some_iff.1 hrun
  simp only [Prod.mk.injEq] at hstate
  obtain ⟨hstack, hbuilt, hnone⟩ := hstate
  refine ⟨w, reachable_exec "db" 1 hw, hstack, hbuilt, hnone, ?_⟩
  rintro ⟨deleted, hdeleted, -⟩
  rw [hnone] at hdeleted
  cases hdeleted

end FiberConn
