import FiberConn.DbPooler.Routing
import FiberConn.Uuid.Proofs

set_option autoImplicit false

/-! # Connections that serve nobody

Between two queries a connection's `parent` is `"#"`, from the constructor or from
`resetConnection`. The names of clients are the sixteen bytes of a UUID, so this is the name of
none, and `getParent` finds nobody: no handler can take a client from a connection that is not
serving it. -/

namespace FiberConn

open Machine

open UUIDv4

namespace PoolState

variable {w w' : PoolState} {l : PoolLabel} {c : ℕ}

/-- No query uses the connection. -/
def Idle (w : PoolState) (c : ℕ) : Prop := ∀ q, (c, q) ∉ w.inUse

/-- A use of a connection ends when it is given back, and then its parent has been reset. -/
theorem Outcome.inUse_keep (ho : Outcome w l w') {x : ℕ × PendingQuery} (hx : x ∈ w.inUse) :
    x ∈ w'.inUse ∨ (w'.conns x.1).parent = "#" := by
  cases ho with
  | construct hs =>
      exact Or.inl (by
        simpa [PoolState.inUse, sending, calling, hs, Frame.sending?, Frame.calling?] using hx)
  | constructed hs =>
      exact Or.inl (by
        simpa [PoolState.inUse, sending, calling, hs, Frame.sending?, Frame.calling?] using hx)
  | grant => exact Or.inl (List.mem_cons_of_mem _ hx)
  | resume => exact Or.inl (List.mem_cons_of_mem _ hx)
  | drained hs =>
      exact Or.inl (by
        simpa [PoolState.inUse, sending, calling, hs, Frame.sending?, Frame.calling?] using hx)
  | sendCalls hs =>
      refine Or.inl ?_
      simp only [PoolState.inUse, sending, calling, hs, complete, runSend] at hx ⊢
      simp only [List.filterMap_cons, Frame.sending?, Frame.calling?, List.mem_append,
        List.mem_cons] at hx ⊢
      tauto
  | sendWaits hs =>
      refine Or.inl ?_
      simp only [PoolState.inUse, sending, calling, hs] at hx ⊢
      simp only [List.filterMap_cons, Frame.sending?, Frame.calling?, List.mem_append,
        List.mem_cons] at hx ⊢
      tauto
  | @ret c q rest hs =>
      rcases List.mem_cons.1 ((inUse_giveBack hs).mem_iff.1 hx) with rfl | hx
      · exact Or.inr (by simp [giveBack, Dbconnection.resetConnection])
      · exact Or.inl hx
  | @queryCalls c q ev a r hs hq =>
      refine Or.inl ?_
      simp only [PoolState.inUse, sending, calling, hs, complete, runEvent, List.filterMap_cons,
        List.filterMap_nil, Frame.sending?, Frame.calling?, List.nil_append, List.append_nil,
        List.mem_append, List.mem_singleton] at hx ⊢
      by_cases he : x = (c, q)
      · exact Or.inr he
      · exact Or.inl ((List.mem_erase_of_ne he).2 hx)
  | _ => exact Or.inl hx

/-- The constructor gives the parent `"#"`, and `connectDb` keeps it. -/
theorem parent_construct {memory : ℤ} {start : Option ℤ}
    (hn : w.next (.construct memory start) = some w') (c : ℕ) :
    (w'.conns c).parent = (w.conns c).parent ∨ (w'.conns c).parent = "#" := by
  simp only [PoolState.next] at hn
  split at hn
  case h_2 => cases hn
  obtain ⟨-, hn⟩ := Option.ite_none_right_eq_some.1 hn
  obtain rfl := Option.some.inj hn
  have hnew : ((Dbconnection.new "" memory).connectDb (cStr w.pool.connectionInfo)
      start).1.parent = "#" := by
    cases start <;> rfl
  have hconns : (w.construct memory start).conns = Function.update w.conns w.built
      ((Dbconnection.new "" memory).connectDb (cStr w.pool.connectionInfo) start).1 := by
    rw [PoolState.construct]
    dsimp only
    split <;> rfl
  dsimp only
  rw [hconns]
  by_cases hc : c = w.built
  · rw [hc, Function.update_self]
    exact Or.inr hnew
  · rw [Function.update_of_ne hc]
    exact Or.inl rfl

/-- Only a query that is handed over gives a connection a parent. -/
theorem parent_next (h : w.Consistent) (hn : w.next l = some w') (hidle : w'.Idle c) :
    (w'.conns c).parent = (w.conns c).parent ∨ (w'.conns c).parent = "#" := by
  cases h.outcome hn with
  | construct => exact parent_construct hn c
  | @grant q c' rest hu hq hfree =>
      by_cases hc : c = c'
      · exact absurd (hc ▸ mem_inUse_of_sending List.mem_cons_self) (hidle q)
      · exact Or.inl (by simp only [Function.update_of_ne hc])
  | @resume c' cs q qs rest hs hfree hpending =>
      by_cases hc : c = c'
      · exact absurd (hc ▸ mem_inUse_of_sending List.mem_cons_self) (hidle q)
      · exact Or.inl (by simp only [Function.update_of_ne hc])
  | sendCalls hs ho => exact Or.inl (parent_update (parent_of_send ho))
  | sendWaits hs ho => exact Or.inl (parent_update (parent_of_send ho))
  | @ret c' q rest hs =>
      by_cases hc : c = c'
      · exact Or.inr (by simp [giveBack, Dbconnection.resetConnection, hc])
      · exact Or.inl (by simp only [giveBack, Function.update_of_ne hc])
  | connectWaits => exact Or.inl (parent_update rfl)
  | connectFails => exact Or.inl (parent_update rfl)
  | connects => exact Or.inl (parent_update rfl)
  | queryWaits hs hq ho => exact Or.inl (parent_update (parent_of_event ho))
  | queryCalls hs hq ho => exact Or.inl (parent_update (parent_of_event ho))
  | _ => exact Or.inl rfl

/-- A connection without a query has the parent that the constructor and `resetConnection` give. -/
theorem idle_parent (h : poolMachine.Reachable w) (hidle : w.Idle c) :
    (w.conns c).parent = "#" := by
  have hboth : w.Consistent ∧ ∀ c, w.Idle c → (w.conns c).parent = "#" := by
    refine h.invariant (I := fun w => w.Consistent ∧
      ∀ c, w.Idle c → (w.conns c).parent = "#") ?_ ?_
    · rintro s ⟨connectionInfo, poolSize, rfl⟩
      exact ⟨consistent_start connectionInfo poolSize, fun c _ => rfl⟩
    · rintro s l t ⟨hc, hparent⟩ hn
      refine ⟨hc.next hn, fun c hidle => ?_⟩
      by_cases hbefore : s.Idle c
      · rcases parent_next hc hn hidle with hsame | hreset
        · rw [hsame, hparent c hbefore]
        · exact hreset
      · obtain ⟨q, hq⟩ := not_forall_not.1 hbefore
        exact ((hc.outcome hn).inUse_keep hq).resolve_left (hidle q)
  exact hboth.2 c hidle

/-! ## Nobody is called "#" -/

/-- Every client was accepted under a name that is the bytes of a UUID. -/
def NamedByUuids (w : PoolState) : Prop :=
  ∀ x ∈ history Obs.accepted? w.log, ∃ u : UUID, x.2 = u.connectionId

/-- The registry only has the names of accepted clients. -/
theorem reachable_lookup (h : poolMachine.Reachable w) {connectionId : String} {client : ℕ}
    (hlookup : w.isAlive.lookup connectionId = some client) :
    (client, connectionId) ∈ history Obs.accepted? w.log := by
  have hboth : w.Consistent ∧ ∀ connectionId client, w.isAlive.lookup connectionId = some client →
      (client, connectionId) ∈ history Obs.accepted? w.log := by
    refine h.invariant (I := fun w => w.Consistent ∧ ∀ connectionId client,
      w.isAlive.lookup connectionId = some client →
      (client, connectionId) ∈ history Obs.accepted? w.log) ?_ ?_
    · rintro s ⟨connectionInfo, poolSize, rfl⟩
      exact ⟨consistent_start connectionInfo poolSize, by simp [start]⟩
    · rintro s l t ⟨hc, hnames⟩ hn
      refine ⟨hc.next hn, fun connectionId client hlookup => ?_⟩
      cases hc.outcome hn with
      | @accept new =>
          simp only [history, Obs.accepted?, List.mem_append, List.mem_singleton]
          by_cases he : connectionId = new
          · rw [he, Finmap.lookup_insert] at hlookup
            exact Or.inr (Prod.ext (Option.some.inj hlookup).symm he)
          · rw [Finmap.lookup_insert_of_ne _ he] at hlookup
            exact Or.inl (hnames _ _ hlookup)
      | @delete gone old hlive =>
          refine hnames connectionId client ?_
          by_cases he : connectionId = old
          · rw [he, Finmap.lookup_erase] at hlookup
            cases hlookup
          · rwa [Finmap.lookup_erase_ne he] at hlookup
      | _ => exact hnames _ _ hlookup
  exact hboth.2 _ _ hlookup

end PoolState

open PoolState

/-- **A connection that serves nobody finds nobody.** In every reachable state in which the clients
    are named by UUIDs, `getParent()` is `nullptr` on every connection without a query. -/
theorem idle_parentless {w : PoolState} (h : poolMachine.Reachable w) (hids : w.NamedByUuids)
    {c : ℕ} (hidle : w.Idle c) : (w.conns c).getParent w.isAlive = none := by
  rw [Dbconnection.getParent, idle_parent h hidle]
  cases hlookup : w.isAlive.lookup "#" with
  | none => rfl
  | some client =>
      obtain ⟨u, hu⟩ := hids _ (reachable_lookup h hlookup)
      have hlength : "#".length = 16 := (congrArg String.length hu).trans u.length_connectionId
      exact absurd hlength (by decide)

/-- A connection has served a client that is still there, and finds nobody. -/
theorem idle_parentless_served : ∃ w, poolMachine.Reachable w ∧ w.isAlive.lookup
    (UUID.mk 0#128).connectionId = some 0 ∧ (w.conns 0).getParent w.isAlive = none := by
  have hrun : ((poolMachine.exec (.start "db" 1) [.construct 0 (some 5), .constructed,
      .connectEvent 0 ⟨epollOut, 5⟩ connectOk, .accept (UUID.mk 0#128).connectionId,
      .submit "q" (UUID.mk 0#128).connectionId, .send ⟨1, 0⟩,
      .queryEvent 0 ⟨"q", (UUID.mk 0#128).connectionId, 0⟩ ⟨epollIn, 5⟩ queryOk, .ret,
      .loop]).map fun w => (w.inUse, w.isAlive.lookup (UUID.mk 0#128).connectionId,
        history Obs.accepted? w.log))
      = some ([], some 0, [(0, (UUID.mk 0#128).connectionId)]) := by decide +kernel
  obtain ⟨w, hw, hstate⟩ := Option.map_eq_some_iff.1 hrun
  simp only [Prod.mk.injEq] at hstate
  obtain ⟨huse, hlookup, hacc⟩ := hstate
  have hreach := reachable_exec "db" 1 hw
  have hids : w.NamedByUuids := by
    intro x hx
    rw [hacc, List.mem_singleton] at hx
    exact ⟨UUID.mk 0#128, by rw [hx]⟩
  have hidle : w.Idle 0 := by simp [Idle, huse]
  exact ⟨w, hreach, hlookup, idle_parentless hreach hids hidle⟩

end FiberConn
