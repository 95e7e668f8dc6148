import FiberConn.DbPooler.Proofs

set_option autoImplicit false

/-! # Replies find the client that asked

`getParent` looks the connection's `parent` up in `isAlive`. Two invariants meet there: the registry
holds exactly the live clients (`Registered`, as long as no `connectionId` is given out twice), and
a connection in use carries the `client` string of the query it serves (`Outcome.parent`).
`reply_routing` puts them together. -/

namespace FiberConn

open Machine

namespace PoolState

variable {w w' : PoolState} {l : PoolLabel}

/-! ## The parent of a connection in use -/

/-- Where the users of connections can come from in one step: they were there before, or a
    connection that was available has been handed to a query. -/
theorem Outcome.inUse (ho : Outcome w l w') {x : ℕ × PendingQuery} (hx : x ∈ w'.inUse) :
    x ∈ w.inUse ∨ x.1 ∈ w.pool.availableConns ∧ .send x.1 x.2 ∈ w'.stack ∧
      w'.conns x.1 = { w.conns x.1 with parent := x.2.client } := by
  have hgrant {c : ℕ} {q : PendingQuery} {conns : ℕ → Dbconnection}
      (hx : x ∈ (c, q) :: w.sending ++ w.flying ++ w.calling) (hc : c ∈ w.pool.availableConns) :
      x ∈ w.inUse ∨ x.1 ∈ w.pool.availableConns ∧ .send x.1 x.2 ∈ Frame.send c q :: w.stack ∧
        Function.update conns c { conns c with parent := q.client } x.1
          = { conns x.1 with parent := x.2.client } := by
    rcases List.mem_cons.1 hx with rfl | hx
    · exact Or.inr ⟨hc, List.mem_cons_self, Function.update_self ..⟩
    · exact Or.inl hx
  cases ho with
  | construct hs =>
    exact Or.inl (by
      simpa [PoolState.inUse, sending, calling, hs, Frame.sending?, Frame.calling?] using hx)
  | constructed hs =>
    exact Or.inl (by
      simpa [PoolState.inUse, sending, calling, hs, Frame.sending?, Frame.calling?] using hx)
  | grant hu hq hfree => exact hgrant hx (hfree ▸ List.mem_cons_self)
  | resume hs hfree hpending => exact hgrant hx (hfree ▸ List.mem_cons_self)
  | drained hs =>
      exact Or.inl (by simpa [PoolState.inUse, sending, calling, hs, Frame.sending?,
        Frame.calling?] using hx)
  | sendCalls hs =>
      simp only [PoolState.inUse, sending, calling, hs, complete, runSend] at hx ⊢
      simp only [List.filterMap_cons, Frame.sending?, Frame.calling?, List.mem_append,
        List.mem_cons] at hx ⊢
      tauto
  | sendWaits hs =>
      simp only [PoolState.inUse, sending, calling, hs, runSend] at hx ⊢
      simp only [List.filterMap_cons, Frame.sending?, Frame.calling?, List.mem_append,
        List.mem_cons] at hx ⊢
      tauto
  | ret hs =>
      simp only [PoolState.inUse, sending, calling, hs, giveBack] at hx ⊢
      simp only [List.filterMap_cons, Frame.sending?, Frame.calling?, List.mem_append,
        List.mem_cons] at hx ⊢
      tauto
  | queryCalls hs hq =>
      simp only [PoolState.inUse, sending, calling, hs, complete, runEvent] at hx ⊢
      simp only [List.filterMap_cons, List.filterMap_nil, Frame.sending?, Frame.calling?,
        List.nil_append, List.append_nil, List.mem_append, List.mem_singleton] at hx ⊢
      rcases hx with hx | rfl
      · exact Or.inl (List.mem_of_mem_erase hx)
      · exact Or.inl hq
  | _ => exact Or.inl hx

/-- Giving a connection back ends one use of it. -/
theorem inUse_giveBack {c : ℕ} {q : PendingQuery} {rest : List Frame}
    (hs : w.stack = .user c q :: rest) :
    w.inUse.Perm ((c, q) :: (w.giveBack c rest).inUse) := by
  simp only [PoolState.inUse, sending, calling, hs, giveBack, List.filterMap_cons, Frame.sending?,
    Frame.calling?]
  exact List.perm_middle

/-- Serving a query never changes whose query it is. -/
theorem parent_of_send {c : Dbconnection} {query : String} {a : SendAnswers}
    {r : Dbconnection × List Effect} (ho : Dbconnection.SendOutcome c query a r) :
    r.1.parent = c.parent := by
  cases ho <;> rfl

theorem parent_of_event {c : Dbconnection} {ev : EpollEvent} {a : PqAnswers}
    {r : Dbconnection × List Effect} (ho : Dbconnection.QueryOutcome c ev a r) :
    r.1.parent = c.parent := by
  cases ho <;> rfl

/-- A step that writes only connection `c` and keeps its parent keeps every parent. -/
theorem parent_update {conns : ℕ → Dbconnection} {c c' : ℕ} {conn : Dbconnection}
    (h : conn.parent = (conns c).parent) :
    (Function.update conns c conn c').parent = (conns c').parent := by
  by_cases he : c' = c
  · rw [he, Function.update_self, h]
  · rw [Function.update_of_ne he]

/-- The parent of a connection in use stays what it is until the connection is given back. -/
theorem Outcome.parent (h : w.Consistent) (ho : Outcome w l w') {x : ℕ × PendingQuery}
    (hx : x ∈ w.inUse) (hx' : x ∈ w'.inUse) : (w'.conns x.1).parent = (w.conns x.1).parent := by
  have hmem := h.mem_of_inUse (c := x.1) (q := x.2) hx
  cases ho with
  | construct hs => simp only [Function.update_of_ne (h.members_lt _ hmem).ne]
  | grant hu hq hfree =>
      have hne : x.1 ≠ _ := fun he =>
        h.not_available_of_inUse (q := x.2) hx (he ▸ hfree ▸ List.mem_cons_self)
      simp only [Function.update_of_ne hne]
  | resume hs hfree hpending =>
      have hne : x.1 ≠ _ := fun he =>
        h.not_available_of_inUse (q := x.2) hx (he ▸ hfree ▸ List.mem_cons_self)
      simp only [Function.update_of_ne hne]
  | sendCalls hs ho => exact parent_update (parent_of_send ho)
  | sendWaits hs ho => exact parent_update (parent_of_send ho)
  | @ret c q rest hs =>
      have hnd := h.inUse_nodup
      rw [((inUse_giveBack hs).map Prod.fst).nodup_iff, List.map_cons, List.nodup_cons] at hnd
      have hne : x.1 ≠ c := fun he => hnd.1 (he ▸ List.mem_map.2 ⟨x, hx', rfl⟩)
      simp only [giveBack, Function.update_of_ne hne]
  | connectWaits hs hc => exact parent_update rfl
  | connectFails hs hc => exact parent_update rfl
  | connects hs hc => exact parent_update rfl
  | queryWaits hs hq ho => exact parent_update (parent_of_event ho)
  | queryCalls hs hq ho => exact parent_update (parent_of_event ho)
  | _ => rfl

/-- A connection in use carries the `client` its query was submitted with. -/
theorem reachable_parent (h : poolMachine.Reachable w) :
    ∀ x ∈ w.inUse, (w.conns x.1).parent = x.2.client := by
  have hboth : w.Consistent ∧ ∀ x ∈ w.inUse, (w.conns x.1).parent = x.2.client := by
    refine h.invariant (I := fun w => w.Consistent ∧
      ∀ x ∈ w.inUse, (w.conns x.1).parent = x.2.client) ?_ ?_
    · rintro s ⟨connectionInfo, poolSize, rfl⟩
      exact ⟨consistent_start connectionInfo poolSize, fun x hx => by cases hx⟩
    · rintro s l t ⟨hc, hparent⟩ hn
      have ho := hc.outcome hn
      refine ⟨hc.next hn, fun x hx => ?_⟩
      -- a connection comes into use with its parent set, and keeps it while in use
      rcases ho.inUse hx with hold | ⟨-, -, hnew⟩
      · rw [ho.parent hc hold hx]
        exact hparent x hold
      · rw [hnew]
  exact hboth.2

/-! ## The registry -/

/-- The registry agrees with the history of accepted and deleted clients. -/
structure Registered (w : PoolState) : Prop where
  lookup : ∀ x ∈ history Obs.accepted? w.log,
    w.isAlive.lookup x.2 = if x.1 ∈ history Obs.deleted? w.log then none else some x.1
  live : ∀ k connectionId, w.live k = some connectionId ↔
    (k, connectionId) ∈ history Obs.accepted? w.log ∧ k ∉ history Obs.deleted? w.log
  accepted_lt : ∀ x ∈ history Obs.accepted? w.log, x.1 < w.accepted
  deleted_lt : ∀ k ∈ history Obs.deleted? w.log, k < w.accepted

/-- The `connectionId`s of all accepted clients are pairwise distinct. -/
def DistinctIds (w : PoolState) : Prop :=
  ((history Obs.accepted? w.log).map Prod.snd).Nodup

/-- A step that accepts and deletes nobody. -/
theorem Registered.frame (h : w.Registered)
    (hacc : history Obs.accepted? w'.log = history Obs.accepted? w.log)
    (hdel : history Obs.deleted? w'.log = history Obs.deleted? w.log)
    (halive : w'.isAlive = w.isAlive) (hlive : w'.live = w.live)
    (hcount : w'.accepted = w.accepted) : w'.Registered := by
  constructor
  · rw [hacc, hdel, halive]; exact h.lookup
  · rw [hacc, hdel, hlive]; exact h.live
  · rw [hacc, hcount]; exact h.accepted_lt
  · rw [hdel, hcount]; exact h.deleted_lt

/-- `Clientconnection(...)` enters itself under a new `connectionId`. -/
theorem Registered.accept (h : w.Registered) {connectionId : String} {log : List Obs}
    (hlog : log = .accepted w.accepted connectionId :: w.log)
    (hnew : connectionId ∉ (history Obs.accepted? w.log).map Prod.snd) :
    Registered { w with
      isAlive := w.isAlive.insert connectionId w.accepted
      live := Function.update w.live w.accepted (some connectionId)
      accepted := w.accepted + 1
      log := log } := by
  subst hlog
  have hnotdel : w.accepted ∉ history Obs.deleted? w.log := fun hmem =>
    lt_irrefl _ (h.deleted_lt _ hmem)
  constructor
  · intro x hx
    simp only [history, Obs.accepted?, Obs.deleted?] at hx ⊢
    rcases List.mem_append.1 hx with hx | hx
    · have hne : x.2 ≠ connectionId := fun he => hnew (List.mem_map.2 ⟨x, hx, he⟩)
      rw [Finmap.lookup_insert_of_ne _ hne]
      exact h.lookup x hx
    · rw [List.mem_singleton.1 hx]
      simp [Finmap.lookup_insert, hnotdel]
  · intro k id
    simp only [history, Obs.accepted?, Obs.deleted?]
    by_cases hk : k = w.accepted
    · subst hk
      have hold : (w.accepted, id) ∉ history Obs.accepted? w.log := fun hmem =>
        lt_irrefl _ (h.accepted_lt _ hmem)
      simp [hold, hnotdel, eq_comm]
    · rw [Function.update_of_ne hk, h.live k id]
      simp [hk]
  · intro x hx
    simp only [history, Obs.accepted?] at hx
    rcases List.mem_append.1 hx with hx | hx
    · exact Nat.lt_succ_of_lt (h.accepted_lt x hx)
    · rw [List.mem_singleton.1 hx]
      exact Nat.lt_succ_self _
  · exact fun k hk => Nat.lt_succ_of_lt (h.deleted_lt k hk)

/-- `~Clientconnection()` takes its own entry out. -/
theorem Registered.delete (h : w.Registered) (hids : w.DistinctIds) {client : ℕ}
    {connectionId : String} (hlive : w.live client = some connectionId) :
    Registered { w with
      isAlive := w.isAlive.erase connectionId
      live := Function.update w.live client none
      log := .deleted client :: w.log } := by
  obtain ⟨hacc, hdel⟩ := (h.live _ _).1 hlive
  constructor
  · intro x hx
    simp only [history, Obs.accepted?, Obs.deleted?] at hx ⊢
    by_cases he : x.2 = connectionId
    · obtain rfl : x = (client, connectionId) := List.inj_on_of_nodup_map hids hx hacc he
      simp [Finmap.lookup_erase]
    · have hne : x.1 ≠ client := by
        intro hk
        have hsame := (h.live client x.2).2 ⟨hk ▸ hx, hdel⟩
        exact he (Option.some.inj (hsame.symm.trans hlive))
      rw [Finmap.lookup_erase_ne he, h.lookup x hx]
      simp [hne]
  · intro k id
    simp only [history, Obs.accepted?, Obs.deleted?]
    by_cases hk : k = client
    · subst hk
      simp
    · rw [Function.update_of_ne hk, h.live k id]
      simp [hk]
  · exact h.accepted_lt
  · intro k hk
    simp only [history, Obs.deleted?] at hk
    rcases List.mem_append.1 hk with hk | hk
    · exact h.deleted_lt k hk
    · rw [List.mem_singleton.1 hk]
      exact h.accepted_lt _ hacc

/-- Histories only grow, so ids that are distinct now were distinct before. -/
theorem Outcome.distinctIds (ho : Outcome w l w') (h : w'.DistinctIds) : w.DistinctIds := by
  cases ho with
  | accept =>
      simp only [DistinctIds, history, Obs.accepted?, List.map_append] at h ⊢
      exact (List.nodup_append.1 h).1
  | _ => exact h

theorem Registered.next (h : w.Registered) (hc : w.Consistent) (hn : w.next l = some w')
    (hids : w'.DistinctIds) : w'.Registered := by
  have ho := hc.outcome hn
  have hbefore := ho.distinctIds hids
  cases ho with
  | accept =>
      refine h.accept rfl fun hmem => ?_
      simp only [DistinctIds, history, Obs.accepted?, List.map_append] at hids
      exact (List.nodup_append.1 hids).2.2 _ hmem _ (List.mem_singleton_self _) rfl
  | delete hlive => exact h.delete hbefore hlive
  | _ => exact h.frame rfl rfl rfl rfl rfl

theorem registered_start (connectionInfo : String) (poolSize : ℤ) :
    (start connectionInfo poolSize).Registered := by
  constructor <;> simp [start, history]

/-- With distinct ids, the registry holds exactly the live clients. -/
theorem reachable_registered (h : poolMachine.Reachable w) (hids : w.DistinctIds) :
    w.Registered := by
  have hboth : w.Consistent ∧ (w.DistinctIds → w.Registered) := by
    refine h.invariant (I := fun w => w.Consistent ∧ (w.DistinctIds → w.Registered)) ?_ ?_
    · rintro s ⟨connectionInfo, poolSize, rfl⟩
      exact ⟨consistent_start connectionInfo poolSize,
        fun _ => registered_start connectionInfo poolSize⟩
    · rintro s l t ⟨hc, hreg⟩ hn
      refine ⟨hc.next hn, fun hids => ?_⟩
      exact (hreg ((hc.outcome hn).distinctIds hids)).next hc hn hids
  exact hboth.2 hids

end PoolState

open PoolState

/-- **Replies are routed to the client that asked.** While the callback of `q` runs on connection
    `c`, `getParent()` is the client whose `connectionId` `q` was submitted with, if that client has
    not been deleted, and `nullptr` if it has. -/
theorem reply_routing {w : PoolState} (h : poolMachine.Reachable w) (hids : w.DistinctIds)
    {c : ℕ} {q : PendingQuery} (hq : .user c q ∈ w.stack) {client : ℕ}
    (hclient : (client, q.client) ∈ history Obs.accepted? w.log) :
    (w.conns c).getParent w.isAlive
      = if client ∈ history Obs.deleted? w.log then none else some client := by
  have hparent := reachable_parent h (c, q) (mem_inUse_of_calling hq)
  have hlookup := (reachable_registered h hids).lookup _ hclient
  rw [Dbconnection.getParent, hparent]
  exact hlookup

/-- Clients "a" and "b" share one connection; "a" is deleted while its query is in flight. -/
def twoClients : List PoolLabel :=
  [.construct 0 (some 5), .constructed, .connectEvent 0 ⟨epollOut, 5⟩ connectOk,
    .accept "a", .accept "b", .submit "q0" "a", .send ⟨1, 0⟩, .submit "q1" "b", .delete 0,
    .queryEvent 0 ⟨"q0", "a", 0⟩ ⟨epollIn, 5⟩ queryOk]

theorem reply_routing_two :
    (∃ w, poolMachine.Reachable w ∧ .user 0 ⟨"q0", "a", 0⟩ ∈ w.stack ∧
      (w.conns 0).getParent w.isAlive = none) ∧
    ∃ w, poolMachine.Reachable w ∧ .user 0 ⟨"q1", "b", 1⟩ ∈ w.stack ∧
      (w.conns 0).getParent w.isAlive = some 1 := by
  constructor
  · have hrun : ((poolMachine.exec (.start "db" 1) twoClients).map
        fun w => (w.stack, history Obs.accepted? w.log, history Obs.deleted? w.log))
        = some ([.user 0 ⟨"q0", "a", 0⟩], [(0, "a"), (1, "b")], [0]) := by decide +kernel
    obtain ⟨w, hw, hstate⟩ := Option.map_eq_some_iff.1 hrun
    simp only [Prod.mk.injEq] at hstate
    obtain ⟨hstack, hacc, hdel⟩ := hstate
    have hreach := reachable_exec "db" 1 hw
    have hids : w.DistinctIds := by rw [DistinctIds, hacc]; decide
    have hq : .user 0 ⟨"q0", "a", 0⟩ ∈ w.stack := by rw [hstack]; exact List.mem_cons_self
    refine ⟨w, hreach, hq, ?_⟩
    have hroute := @reply_routing w hreach hids 0 _ hq 0 (by rw [hacc]; decide)
    rwa [if_pos (by rw [hdel]; decide)] at hroute
  · have hrun : ((poolMachine.exec (.start "db" 1) (twoClients ++ [.ret, .loop, .send ⟨1, 0⟩,
        .loop, .queryEvent 0 ⟨"q1", "b", 1⟩ ⟨epollIn, 5⟩ queryOk])).map
        fun w => (w.stack, history Obs.accepted? w.log, history Obs.deleted? w.log))
        = some ([.user 0 ⟨"q1", "b", 1⟩], [(0, "a"), (1, "b")], [0]) := by decide +kernel
    obtain ⟨w, hw, hstate⟩ := Option.map_eq_some_iff.1 hrun
    simp only [Prod.mk.injEq] at hstate
    obtain ⟨hstack, hacc, hdel⟩ := hstate
    have hreach := reachable_exec "db" 1 hw
    have hids : w.DistinctIds := by rw [DistinctIds, hacc]; decide
    have hq : .user 0 ⟨"q1", "b", 1⟩ ∈ w.stack := by rw [hstack]; exact List.mem_cons_self
    refine ⟨w, hreach, hq, ?_⟩
    have hroute := @reply_routing w hreach hids 0 _ hq 1 (by rw [hacc]; decide)
    rwa [if_neg (by rw [hdel]; decide)] at hroute

end FiberConn
