import FiberConn.DbConnectionType.Proofs
import FiberConn.DbPooler
import FiberConn.Lib.ResourcePool

set_option autoImplicit false

/-! # One step of the pool

`PoolState.abs` reads the abstract resource pool off the machine's state. `Outcome` says once, for
a `Consistent` state, what each step can do; that the counters, the construction and the connects
stay right, and that the abstract pool takes at most one of its own steps, are case analyses on
it. -/

namespace FiberConn

namespace PoolState

variable {w w' : PoolState} {l : PoolLabel}

/-- The resource pool a state implements: members are the connected connections, jobs are the
    queries. A query holds its connection from the moment it is handed over until its callback is
    called, and the connection settles while the callback runs. -/
def abs (w : PoolState) : ResourcePool ℕ PendingQuery where
  members := w.pool.connectedConns
  free := w.pool.availableConns
  held := ↑(w.sending ++ w.flying)
  settling := ↑w.calling
  waiting := w.pool.pendingQueries
  submitted := history Obs.submitted? w.log
  queued := history Obs.queued? w.log
  granted := history Obs.handed? w.log
  finished := history Obs.called? w.log

/-- What holds in every reachable state. -/
structure Consistent (w : PoolState) : Prop where
  defined : w.undefined = false
  idle : w.pool.idleCount = w.pool.availableConns.length
  connected : w.pool.connectedCount = w.pool.connectedConns.length
  lawful : w.abs.Lawful
  fresh : ∀ q ∈ history Obs.submitted? w.log, q.cb < w.nextCb
  /-- While the constructor runs, nothing else does. -/
  stack : w.stack = [.construct w.built] ∨ ∀ i, .construct i ∉ w.stack
  built_le : w.built ≤ w.pool.poolSize.toNat
  connecting_nodup : w.connecting.Nodup
  connecting_new : ∀ c ∈ w.connecting, c ∉ w.pool.connectedConns ∧ c < w.built
  members_lt : ∀ c ∈ w.pool.connectedConns, c < w.built
  connecting_state : ∀ c ∈ w.connecting,
    (w.conns c).connectionState = .connecting ∧ (w.conns c).isError = false
  flying_active : ∀ x ∈ w.flying, (w.conns x.1).Active
  succeeded : ∀ c, c ∈ w.pool.connectedConns ↔ ConnectSucceeded c w.log
  ready : 0 < w.pool.poolSize →
    (w.pool.isReady = true ↔ (w.pool.connectedConns.length : ℤ) = w.pool.poolSize)

/-! ## Inversion -/

/-- What a step can do. -/
inductive Outcome (w : PoolState) : PoolLabel → PoolState → Prop
  | construct {memory : ℤ} {start : Option ℤ} {conn : Dbconnection} {effs : List Effect}
      {more : List ℕ} (hs : w.stack = [.construct w.built]) (hlt : (w.built : ℤ) < w.pool.poolSize)
      (hmore : more = [] ∨ more = [w.built] ∧ conn.connectionState = .connecting ∧
        conn.isError = false) (hresults : conn.results = []) :
      Outcome w (.construct memory start)
        { w with
          conns := Function.update w.conns w.built conn
          built := w.built + 1
          connecting := w.connecting ++ more
          stack := [.construct (w.built + 1)]
          log := .started w.built effs :: w.log }
  | constructed (hs : w.stack = [.construct w.built]) :
      Outcome w .constructed { w with stack := [] }
  | accept {connectionId : String} :
      Outcome w (.accept connectionId)
        { w with
          isAlive := w.isAlive.insert connectionId w.accepted
          live := Function.update w.live w.accepted (some connectionId)
          accepted := w.accepted + 1
          log := .accepted w.accepted connectionId :: w.log }
  | delete {client : ℕ} {connectionId : String} (hlive : w.live client = some connectionId) :
      Outcome w (.delete client)
        { w with
          isAlive := w.isAlive.erase connectionId
          live := Function.update w.live client none
          log := .deleted client :: w.log }
  | grant {q : PendingQuery} {c : ℕ} {rest : List ℕ} (hu : w.UserCode) (hq : q.cb = w.nextCb)
      (hfree : w.pool.availableConns = c :: rest) :
      Outcome w (.submit q.query q.client)
        { w with
          pool := { w.pool with availableConns := rest, idleCount := w.pool.idleCount - 1 }
          conns := Function.update w.conns c { w.conns c with parent := q.client }
          stack := .send c q :: w.stack
          nextCb := w.nextCb + 1
          log := .handed c q :: .submitted q :: w.log }
  | defer {q : PendingQuery} (hu : w.UserCode) (hq : q.cb = w.nextCb)
      (hfree : w.pool.availableConns = []) :
      Outcome w (.submit q.query q.client)
        { w with
          pool := { w.pool with pendingQueries := w.pool.pendingQueries ++ [q] }
          nextCb := w.nextCb + 1
          log := .queued q :: .submitted q :: w.log }
  | resume {c : ℕ} {cs : List ℕ} {q : PendingQuery} {qs : List PendingQuery} {rest : List Frame}
      (hs : w.stack = .drain :: rest) (hfree : w.pool.availableConns = c :: cs)
      (hpending : w.pool.pendingQueries = q :: qs) :
      Outcome w .loop
        { w with
          pool := { w.pool with
            availableConns := cs, idleCount := w.pool.idleCount - 1, pendingQueries := qs }
          conns := Function.update w.conns c { w.conns c with parent := q.client }
          stack := .send c q :: w.stack
          log := .handed c q :: w.log }
  | drained {rest : List Frame} (hs : w.stack = .drain :: rest)
      (hdone : w.pool.availableConns = [] ∨ w.pool.pendingQueries = []) :
      Outcome w .loop { w with stack := rest }
  | sendCalls {a : SendAnswers} {c : ℕ} {q : PendingQuery} {rest : List Frame}
      {r : Dbconnection × List Effect} (hs : w.stack = .send c q :: rest)
      (ho : Dbconnection.SendOutcome (w.conns c) (cStr q.query) a r) (hcb : CallsBack r.2 = true) :
      Outcome w (.send a) ((w.runSend c q r).complete c q rest)
  | sendWaits {a : SendAnswers} {c : ℕ} {q : PendingQuery} {rest : List Frame}
      {r : Dbconnection × List Effect} (hs : w.stack = .send c q :: rest)
      (ho : Dbconnection.SendOutcome (w.conns c) (cStr q.query) a r) (hcb : CallsBack r.2 = false) :
      Outcome w (.send a) { w.runSend c q r with stack := rest, flying := (c, q) :: w.flying }
  | ret {c : ℕ} {q : PendingQuery} {rest : List Frame} (hs : w.stack = .user c q :: rest) :
      Outcome w .ret (w.giveBack c rest)
  | connectWaits {c : ℕ} {ev : EpollEvent} {a : PqAnswers} {effs : List Effect}
      (hs : w.stack = []) (hc : c ∈ w.connecting) (hno : ¬ Dbconnection.Connects ev a)
      (hpoll : .pq (.connectPoll .ok) ∉ effs) :
      Outcome w (.connectEvent c ev a) (w.runEvent c ev (w.conns c, effs))
  | connectFails {c : ℕ} {ev : EpollEvent} {a : PqAnswers} {effs : List Effect}
      (hs : w.stack = []) (hc : c ∈ w.connecting) (hno : ¬ Dbconnection.Connects ev a)
      (hpoll : .pq (.connectPoll .ok) ∉ effs) :
      Outcome w (.connectEvent c ev a)
        { w.runEvent c ev ({ w.conns c with isError := true }, effs) with
          connecting := w.connecting.erase c }
  | connects {c : ℕ} {ev : EpollEvent} {a : PqAnswers} {effs : List Effect}
      (hs : w.stack = []) (hc : c ∈ w.connecting) (hyes : Dbconnection.Connects ev a)
      (hpoll : .pq (.connectPoll .ok) ∈ effs) (herr : (w.conns c).isError = false) :
      Outcome w (.connectEvent c ev a)
        { w.runEvent c ev ({ w.conns c with connectionState := .connected }, effs) with
          pool := w.pool.onConnect c (w.conns c).isError, connecting := w.connecting.erase c }
  | queryWaits {c : ℕ} {q : PendingQuery} {ev : EpollEvent} {a : PqAnswers}
      {r : Dbconnection × List Effect} (hs : w.stack = []) (hq : (c, q) ∈ w.flying)
      (ho : Dbconnection.QueryOutcome (w.conns c) ev a r) (hcb : CallsBack r.2 = false) :
      Outcome w (.queryEvent c q ev a) (w.runEvent c ev r)
  | queryCalls {c : ℕ} {q : PendingQuery} {ev : EpollEvent} {a : PqAnswers}
      {r : Dbconnection × List Effect} (hs : w.stack = []) (hq : (c, q) ∈ w.flying)
      (ho : Dbconnection.QueryOutcome (w.conns c) ev a r) (hcb : CallsBack r.2 = true) :
      Outcome w (.queryEvent c q ev a)
        ({ w.runEvent c ev r with flying := w.flying.erase (c, q) }.complete c q [])

/-- `connectDb` starts the connect, or calls back at once with `is_error` set. -/
theorem construct_outcome (hs : w.stack = [.construct w.built])
    (hlt : (w.built : ℤ) < w.pool.poolSize) (memory : ℤ) (start : Option ℤ) :
    Outcome w (.construct memory start)
      { w.construct memory start with stack := [.construct (w.built + 1)] } := by
  cases start with
  | none =>
      have ho := @Outcome.construct w memory none
        { Dbconnection.new "" memory with isError := true }
        [.pq (.connectStart (cStr w.pool.connectionInfo) false), .callback] []
        hs hlt (Or.inl rfl) rfl
      rw [List.append_nil] at ho
      exact ho
  | some fd => exact .construct hs hlt (Or.inr ⟨rfl, rfl, rfl⟩) rfl

/-- With the counter and the queue in agreement, `sendQuery` either takes the first available
    connection or appends to `pending_queries`. -/
theorem sendQuery_cases (hidle : w.pool.idleCount = w.pool.availableConns.length)
    (q : PendingQuery) :
    (w.pool.availableConns = [] ∧ w.sendQuery q =
      { w with
        pool := { w.pool with pendingQueries := w.pool.pendingQueries ++ [q] }
        log := .queued q :: w.log }) ∨
    ∃ c rest, w.pool.availableConns = c :: rest ∧ w.sendQuery q =
      { w with
        pool := { w.pool with availableConns := rest, idleCount := w.pool.idleCount - 1 }
        conns := Function.update w.conns c { w.conns c with parent := q.client }
        stack := .send c q :: w.stack
        log := .handed c q :: w.log } := by
  unfold sendQuery
  cases hfree : w.pool.availableConns with
  | nil =>
      rw [hfree] at hidle
      rw [if_neg (by simp [hidle])]
      exact Or.inl ⟨rfl, rfl⟩
  | cons c rest =>
      rw [hfree] at hidle
      rw [if_pos (by rw [hidle, List.length_cons]; omega)]
      exact Or.inr ⟨c, rest, rfl, rfl⟩

/-- The constructor's frame is the whole stack, and its counter is the connections built. -/
theorem Consistent.construct_top (h : w.Consistent) {i : ℕ} {rest : List Frame}
    (hs : w.stack = .construct i :: rest) : i = w.built ∧ rest = [] := by
  rcases h.stack with hb | hb
  · simpa [hs] using hb
  · exact absurd (hs ▸ List.mem_cons_self) (hb i)

theorem accept_outcome {connectionId : String} (hn : w.next (.accept connectionId) = some w') :
    Outcome w (.accept connectionId) w' := by
  obtain rfl := Option.some.inj hn
  exact .accept

theorem delete_outcome {client : ℕ} (hn : w.next (.delete client) = some w') :
    Outcome w (.delete client) w' := by
  simp only [next] at hn
  split at hn
  case h_2 => cases hn
  next connectionId hlive =>
  obtain rfl := Option.some.inj hn
  exact .delete hlive

theorem submit_outcome (hidle : w.pool.idleCount = w.pool.availableConns.length)
    {query client : String} (hn : w.next (.submit query client) = some w') :
    Outcome w (.submit query client) w' := by
  simp only [next] at hn
  split at hn
  case isFalse => cases hn
  next hu =>
  obtain rfl := Option.some.inj hn
  rcases sendQuery_cases
    (w := { w with
      nextCb := w.nextCb + 1
      log := .submitted ⟨query, client, w.nextCb⟩ :: w.log })
    hidle ⟨query, client, w.nextCb⟩ with ⟨hfree, he⟩ | ⟨c, rest, hfree, he⟩
  · rw [he]
    exact @Outcome.defer w ⟨query, client, w.nextCb⟩ hu rfl hfree
  · rw [he]
    exact @Outcome.grant w ⟨query, client, w.nextCb⟩ c rest hu rfl hfree

theorem send_outcome {a : SendAnswers} (hn : w.next (.send a) = some w') :
    Outcome w (.send a) w' := by
  simp only [next] at hn
  split at hn
  case h_2 => cases hn
  next c q rest hs =>
  split at hn
  case isFalse => cases hn
  next hflush =>
  have hflush : a.flush = 0 ∨ a.flush = 1 ∨ a.flush = -1 := hflush
  split at hn
  · next hcb =>
      obtain rfl := Option.some.inj hn
      exact .sendCalls hs (Dbconnection.sendQuery_outcome hflush) hcb
  · next hcb =>
      obtain rfl := Option.some.inj hn
      exact .sendWaits hs (Dbconnection.sendQuery_outcome hflush) (by simpa using hcb)

theorem ret_outcome (hn : w.next .ret = some w') : Outcome w .ret w' := by
  simp only [next] at hn
  split at hn
  case h_2 => cases hn
  next c q rest hs =>
  obtain rfl := Option.some.inj hn
  exact .ret hs

/-- The drain loop hands on the next query only while a connection is available, so `sendQuery`
    does not append to `pending_queries` there. -/
theorem loop_outcome (hidle : w.pool.idleCount = w.pool.availableConns.length)
    (hn : w.next .loop = some w') : Outcome w .loop w' := by
  simp only [next] at hn
  split at hn
  case h_2 => cases hn
  next rest hs =>
  cases hpending : w.pool.pendingQueries with
  | nil =>
      rw [hpending] at hn
      obtain rfl := Option.some.inj hn
      exact .drained hs (Or.inr hpending)
  | cons q qs =>
      simp only [hpending] at hn
      split at hn
      · next hpos =>
          obtain rfl := Option.some.inj hn
          rcases sendQuery_cases
            (w := { w with pool := { w.pool with pendingQueries := qs } }) hidle q with
            ⟨hfree, -⟩ | ⟨c, cs, hfree, he⟩
          · have hfree : w.pool.availableConns = [] := hfree
            rw [hidle, hfree] at hpos
            simp at hpos
          · rw [he]
            exact .resume hs hfree hpending
      · next hpos =>
          obtain rfl := Option.some.inj hn
          refine .drained hs (Or.inl (List.length_eq_zero_iff.1 ?_))
          omega

theorem Consistent.connectEvent_outcome (h : w.Consistent) {c : ℕ} {ev : EpollEvent}
    {a : PqAnswers} (hn : w.next (.connectEvent c ev a) = some w') :
    Outcome w (.connectEvent c ev a) w' := by
  simp only [next] at hn
  split at hn
  case isFalse => cases hn
  next hc =>
  obtain ⟨hstate, herr⟩ := h.connecting_state c hc.2
  have ho : Dbconnection.ConnectOutcome _ ev a _ := Dbconnection.handleEvent_connecting hstate
  generalize (w.conns c).handleEvent ev a = r at ho hn
  cases ho with
  | waits hno hcb hpoll =>
      rw [if_neg (by simp [hcb])] at hn
      obtain rfl := Option.some.inj hn
      exact .connectWaits hc.1 hc.2 hno hpoll
  | fails hno hcb hpoll =>
      rw [if_pos hcb] at hn
      obtain rfl := Option.some.inj hn
      exact .connectFails hc.1 hc.2 hno hpoll
  | connects hyes hcb hpoll =>
      rw [if_pos hcb] at hn
      obtain rfl := Option.some.inj hn
      exact .connects hc.1 hc.2 hyes hpoll herr

theorem Consistent.queryEvent_outcome (h : w.Consistent) {c : ℕ} {q : PendingQuery}
    {ev : EpollEvent} {a : PqAnswers} (hn : w.next (.queryEvent c q ev a) = some w') :
    Outcome w (.queryEvent c q ev a) w' := by
  simp only [next] at hn
  split at hn
  case isFalse => cases hn
  next hc =>
  have ho : Dbconnection.QueryOutcome _ ev a _ :=
    Dbconnection.handleEvent_active (h.flying_active _ hc.2)
  split at hn
  · next hcb =>
      obtain rfl := Option.some.inj hn
      exact .queryCalls hc.1 hc.2 ho hcb
  · next hcb =>
      obtain rfl := Option.some.inj hn
      exact .queryWaits hc.1 hc.2 ho (by simpa using hcb)

/-- A step does what `Outcome` says. -/
theorem Consistent.outcome (h : w.Consistent) (hn : w.next l = some w') : Outcome w l w' := by
  cases l with
  | construct memory start =>
      simp only [next] at hn
      split at hn
      case h_2 => cases hn
      next i rest hs =>
      obtain ⟨rfl, rfl⟩ := h.construct_top hs
      split at hn
      case isFalse => cases hn
      next hlt =>
      obtain rfl := Option.some.inj hn
      exact construct_outcome hs hlt memory start
  | constructed =>
      simp only [next] at hn
      split at hn
      case h_2 => cases hn
      next i rest hs =>
      obtain ⟨rfl, rfl⟩ := h.construct_top hs
      split at hn
      · cases hn
      obtain rfl := Option.some.inj hn
      exact .constructed hs
  | accept connectionId => exact accept_outcome hn
  | delete client => exact delete_outcome hn
  | submit query client => exact submit_outcome h.idle hn
  | send a => exact send_outcome hn
  | ret => exact ret_outcome hn
  | loop => exact loop_outcome h.idle hn
  | connectEvent c ev a => exact h.connectEvent_outcome hn
  | queryEvent c q ev a => exact h.queryEvent_outcome hn

/-! ## The abstract pool -/

/-- **The pool refines the abstract pool**: each step is one step of it, or none. -/
theorem Outcome.refines (h : w.Consistent) (ho : Outcome w l w') :
    w'.abs = w.abs ∨ w.abs.Step w'.abs := by
  have hnew {q : PendingQuery} (hq : q.cb = w.nextCb) : q ∉ w.abs.submitted := fun hmem => by
    have := h.fresh q hmem
    omega
  cases ho with
  | construct hs =>
      refine Or.inl ?_
      simp only [abs, sending, calling, hs]
      rfl
  | constructed hs =>
      refine Or.inl ?_
      simp only [abs, sending, calling, hs]
      rfl
  | accept => exact Or.inl rfl
  | delete => exact Or.inl rfl
  | @grant q c rest hu hq hfree => exact Or.inr (.grant hfree (hnew hq))
  | @defer q hu hq hfree => exact Or.inr (.defer (hnew hq))
  | @resume c cs q qs rest hs hfree hpending => exact Or.inr (.resume hfree hpending)
  | @drained rest hs =>
      refine Or.inl ?_
      simp only [abs, sending, calling, hs]
      rfl
  | @sendCalls a c q rest r hs ho hcb =>
      have he : ((w.runSend c q r).complete c q rest).abs =
          { w.abs with
            held := ↑(rest.filterMap Frame.sending? ++ w.flying)
            settling := (c, q) ::ₘ w.abs.settling
            finished := w.abs.finished ++ [q] } := by
        simp only [abs, sending, calling, hs]
        rfl
      rw [he]
      refine Or.inr (.finish ?_)
      simp only [abs, sending, hs]
      rfl
  | @sendWaits a c q rest r hs ho hcb =>
      -- the query moves from the frame to the connection; both hold it
      refine Or.inl ?_
      have hheld :
          (rest.filterMap Frame.sending? ++ (c, q) :: w.flying : Multiset (ℕ × PendingQuery))
          = ((c, q) :: rest.filterMap Frame.sending? ++ w.flying : List (ℕ × PendingQuery)) :=
        Multiset.coe_eq_coe.2 List.perm_middle
      simp only [abs, sending, calling, hs]
      rw [hheld]
      rfl
  | @ret c q rest hs =>
      have he : (w.giveBack c rest).abs =
          { w.abs with
            settling := ↑(rest.filterMap Frame.calling?), free := w.abs.free ++ [c] } := by
        simp only [abs, sending, calling, hs]
        rfl
      rw [he]
      refine Or.inr (@ResourcePool.Step.release _ _ w.abs c q _ ?_)
      simp only [abs, calling, hs]
      rfl
  | connectWaits hs hc hno hpoll => exact Or.inl rfl
  | connectFails hs hc hno hpoll => exact Or.inl rfl
  | @connects c ev a effs hs hc hyes hpoll herr =>
      rw [herr]
      exact Or.inr (.join (h.connecting_new c hc).1)
  | queryWaits hs hq ho hcb => exact Or.inl rfl
  | @queryCalls c q ev a r hs hq ho hcb =>
      have he : ({ w.runEvent c ev r with flying := w.flying.erase (c, q) }.complete c q []).abs =
          { w.abs with
            held := ↑(w.flying.erase (c, q))
            settling := (c, q) ::ₘ w.abs.settling
            finished := w.abs.finished ++ [q] } := by
        simp only [abs, sending, calling, hs]
        rfl
      rw [he]
      refine Or.inr (.finish ?_)
      simp only [abs, sending, hs]
      exact Multiset.coe_eq_coe.2 (List.perm_cons_erase hq)

/-! ## Consistency is kept -/

theorem Consistent.inUse_eq : w.abs.inUse = ↑w.inUse := by
  rw [ResourcePool.inUse, inUse, ← Multiset.coe_add]
  rfl

theorem Consistent.mem_of_inUse (h : w.Consistent) {c : ℕ} {q : PendingQuery}
    (hc : (c, q) ∈ w.inUse) : c ∈ w.pool.connectedConns :=
  h.lawful.mem_of_inUse (Consistent.inUse_eq ▸ Multiset.mem_coe.2 hc)

theorem Consistent.mem_of_available (h : w.Consistent) {c : ℕ}
    (hc : c ∈ w.pool.availableConns) : c ∈ w.pool.connectedConns :=
  h.lawful.mem_of_free hc

/-- No connection serves two queries. -/
theorem Consistent.inUse_unique (h : w.Consistent) {c : ℕ} {q q' : PendingQuery}
    (hq : (c, q) ∈ w.inUse) (hq' : (c, q') ∈ w.inUse) : q = q' :=
  h.lawful.inUse_unique (Consistent.inUse_eq ▸ Multiset.mem_coe.2 hq)
    (Consistent.inUse_eq ▸ Multiset.mem_coe.2 hq')

theorem Consistent.not_available_of_inUse (h : w.Consistent) {c : ℕ} {q : PendingQuery}
    (hq : (c, q) ∈ w.inUse) : c ∉ w.pool.availableConns := fun hc =>
  h.lawful.not_inUse_of_free hc q (Consistent.inUse_eq ▸ Multiset.mem_coe.2 hq)

theorem mem_inUse_of_flying {x : ℕ × PendingQuery} (h : x ∈ w.flying) : x ∈ w.inUse := by
  simp [inUse, h]

theorem mem_inUse_of_sending {c : ℕ} {q : PendingQuery} (h : .send c q ∈ w.stack) :
    (c, q) ∈ w.inUse := by
  have : (c, q) ∈ w.sending := List.mem_filterMap.2 ⟨_, h, rfl⟩
  simp [inUse, this]

theorem mem_inUse_of_calling {c : ℕ} {q : PendingQuery} (h : .user c q ∈ w.stack) :
    (c, q) ∈ w.inUse := by
  have : (c, q) ∈ w.calling := List.mem_filterMap.2 ⟨_, h, rfl⟩
  simp [inUse, this]

/-- The counters follow the queues. -/
theorem Outcome.counters (h : w.Consistent) (ho : Outcome w l w') :
    w'.pool.idleCount = w'.pool.availableConns.length ∧
      w'.pool.connectedCount = w'.pool.connectedConns.length := by
  have hidle := h.idle
  have hconnected := h.connected
  cases ho with
  | grant hu hq hfree =>
      rw [hfree, List.length_cons] at hidle
      refine ⟨?_, hconnected⟩
      dsimp only
      omega
  | resume hs hfree =>
      rw [hfree, List.length_cons] at hidle
      refine ⟨?_, hconnected⟩
      dsimp only
      omega
  | ret hs =>
      refine ⟨?_, hconnected⟩
      simp [giveBack, hidle]
  | connects hs hc hyes hpoll herr =>
      simp [DBpooler.onConnect, herr, hidle, hconnected]
  | _ => exact ⟨hidle, hconnected⟩

theorem Outcome.fresh (h : w.Consistent) (ho : Outcome w l w') :
    ∀ q ∈ history Obs.submitted? w'.log, q.cb < w'.nextCb := by
  have hold := h.fresh
  have hnew {q : PendingQuery} (hq : q.cb = w.nextCb) :
      ∀ q' ∈ history Obs.submitted? w.log ++ [q], q'.cb < w.nextCb + 1 := by
    intro q' hq'
    rcases List.mem_append.1 hq' with hq' | hq'
    · have := hold q' hq'
      omega
    · rw [List.mem_singleton.1 hq']
      omega
  cases ho with
  | grant hu hq hfree => exact hnew hq
  | defer hu hq hfree => exact hnew hq
  | _ => exact hold

theorem Outcome.stack (h : w.Consistent) (ho : Outcome w l w') :
    w'.stack = [.construct w'.built] ∨ ∀ i, .construct i ∉ w'.stack := by
  -- off the constructor, frames come and go but none of them is a `construct` frame
  have hoff {f : Frame} {rest : List Frame} (hs : w.stack = f :: rest)
      (hf : ∀ i, f ≠ .construct i) : ∀ i, .construct i ∉ rest := by
    rcases h.stack with hb | hb
    · exact absurd (List.cons.inj (hs ▸ hb)).1 (hf _)
    · exact fun i hi => hb i (hs ▸ List.mem_cons_of_mem _ hi)
  have huser (hu : w.UserCode) : ∀ i, .construct i ∉ w.stack := by
    rcases h.stack with hb | hb
    · rw [UserCode, hb] at hu
      exact hu.elim
    · exact hb
  cases ho with
  | construct hs => exact Or.inl rfl
  | constructed hs => exact Or.inr (by simp)
  | accept => exact h.stack
  | delete => exact h.stack
  | grant hu hq hfree => exact Or.inr (by simpa using huser hu)
  | defer hu hq hfree => exact h.stack
  | resume hs hfree hpending =>
      have := hoff hs (by simp)
      exact Or.inr (by simpa [hs] using this)
  | drained hs => exact Or.inr (hoff hs (by simp))
  | sendCalls hs ho hcb =>
      have := hoff hs (by simp)
      exact Or.inr (by simpa [complete] using this)
  | sendWaits hs ho hcb => exact Or.inr (hoff hs (by simp))
  | ret hs =>
      have := hoff hs (by simp)
      exact Or.inr (by simpa [giveBack] using this)
  | connectWaits hs => exact h.stack
  | connectFails hs => exact h.stack
  | connects hs => exact h.stack
  | queryWaits hs => exact h.stack
  | queryCalls hs => exact Or.inr (by simp [complete])

theorem Outcome.built_le (h : w.Consistent) (ho : Outcome w l w') :
    w'.built ≤ w'.pool.poolSize.toNat := by
  have hold := h.built_le
  cases ho with
  | construct hs hlt =>
      dsimp only
      omega
  | connects hs hc hyes hpoll herr =>
      simpa [DBpooler.onConnect, herr, runEvent] using hold
  | _ => exact hold

/-- The connects under way are of new connections, each once. -/
theorem Outcome.connecting (h : w.Consistent) (ho : Outcome w l w') :
    w'.connecting.Nodup ∧
      (∀ c ∈ w'.connecting, c ∉ w'.pool.connectedConns ∧ c < w'.built) ∧
      ∀ c ∈ w'.pool.connectedConns, c < w'.built := by
  have hnd := h.connecting_nodup
  have hnew := h.connecting_new
  have hlt := h.members_lt
  cases ho with
  | construct hs hsize hmore =>
      refine ⟨?_, ?_, fun c hc => Nat.lt_succ_of_lt (hlt c hc)⟩
      · rcases hmore with rfl | ⟨rfl, -⟩
        · simpa using hnd
        · exact ResourcePool.nodup_snoc hnd fun hc => lt_irrefl _ (hnew _ hc).2
      · intro c hc
        rcases List.mem_append.1 hc with hc | hc
        · exact ⟨(hnew c hc).1, Nat.lt_succ_of_lt (hnew c hc).2⟩
        · obtain rfl : c = w.built := by
            rcases hmore with rfl | ⟨rfl, -⟩
            · cases hc
            · exact List.mem_singleton.1 hc
          exact ⟨fun hmem => lt_irrefl _ (hlt _ hmem), Nat.lt_succ_self _⟩
  | connectFails hs hc =>
      exact ⟨hnd.erase _, fun c hc => hnew c (List.mem_of_mem_erase hc), hlt⟩
  | @connects c ev a effs hs hc hyes hpoll herr =>
      simp only [DBpooler.onConnect, herr, if_true]
      refine ⟨hnd.erase _, fun c' hc' => ?_, fun c' hc' => ?_⟩
      · obtain ⟨hne, hmem⟩ := hnd.mem_erase_iff.1 hc'
        refine ⟨fun hin => ?_, (hnew c' hmem).2⟩
        rcases List.mem_append.1 hin with hin | hin
        · exact (hnew c' hmem).1 hin
        · exact hne (List.mem_singleton.1 hin)
      · rcases List.mem_append.1 hc' with hin | hin
        · exact hlt c' hin
        · rw [List.mem_singleton.1 hin]
          exact (hnew c hc).2
  | _ => exact ⟨hnd, hnew, hlt⟩

/-- A connection under a connect is not one of the members. -/
theorem Consistent.ne_of_connecting (h : w.Consistent) {c c' : ℕ} (hc : c ∈ w.connecting)
    (hmem : c' ∈ w.pool.connectedConns) : c ≠ c' := fun he =>
  (h.connecting_new c hc).1 (he ▸ hmem)

/-- A step leaves the connects of other connections alone. -/
theorem Consistent.connecting_update (h : w.Consistent) {c' : ℕ} {conn : Dbconnection}
    (hmem : c' ∈ w.pool.connectedConns) :
    ∀ c ∈ w.connecting, (Function.update w.conns c' conn c).connectionState = .connecting ∧
      (Function.update w.conns c' conn c).isError = false := by
  intro c hc
  rw [Function.update_of_ne (h.ne_of_connecting hc hmem)]
  exact h.connecting_state c hc

theorem Outcome.connecting_state (h : w.Consistent) (ho : Outcome w l w') :
    ∀ c ∈ w'.connecting,
      (w'.conns c).connectionState = .connecting ∧ (w'.conns c).isError = false := by
  have hold := h.connecting_state
  cases ho with
  | @construct _ _ conn _ more hs hsize hmore =>
      intro c hc
      dsimp only at hc ⊢
      rcases List.mem_append.1 hc with hc | hc
      · rw [Function.update_of_ne (h.connecting_new c hc).2.ne]
        exact hold c hc
      · rcases hmore with rfl | ⟨rfl, hstate, herr⟩
        · cases hc
        · obtain rfl := List.mem_singleton.1 hc
          rw [Function.update_self]
          exact ⟨hstate, herr⟩
  | grant hu hq hfree =>
      exact h.connecting_update (h.mem_of_available (hfree ▸ List.mem_cons_self))
  | resume hs hfree hpending =>
      exact h.connecting_update (h.mem_of_available (hfree ▸ List.mem_cons_self))
  | sendCalls hs ho hcb =>
      exact h.connecting_update
        (h.mem_of_inUse (mem_inUse_of_sending (hs ▸ List.mem_cons_self)))
  | sendWaits hs ho hcb =>
      exact h.connecting_update
        (h.mem_of_inUse (mem_inUse_of_sending (hs ▸ List.mem_cons_self)))
  | ret hs =>
      exact h.connecting_update
        (h.mem_of_inUse (mem_inUse_of_calling (hs ▸ List.mem_cons_self)))
  | queryWaits hs hq => exact h.connecting_update (h.mem_of_inUse (mem_inUse_of_flying hq))
  | queryCalls hs hq => exact h.connecting_update (h.mem_of_inUse (mem_inUse_of_flying hq))
  | connectWaits hs hc =>
      intro c' hc'
      simp only [runEvent, Function.update_eq_self]
      exact hold c' hc'
  | connectFails hs hc =>
      intro c' hc'
      obtain ⟨hne, hmem⟩ := h.connecting_nodup.mem_erase_iff.1 hc'
      simp only [runEvent, Function.update_of_ne hne]
      exact hold c' hmem
  | connects hs hc =>
      intro c' hc'
      obtain ⟨hne, hmem⟩ := h.connecting_nodup.mem_erase_iff.1 hc'
      simp only [runEvent, Function.update_of_ne hne]
      exact hold c' hmem
  | _ => exact hold

/-- A step leaves the queries in flight on other connections alone. -/
theorem Consistent.flying_update (h : w.Consistent) {c' : ℕ} {conn : Dbconnection}
    (hc' : ∀ x ∈ w.flying, x.1 ≠ c') :
    ∀ x ∈ w.flying, (Function.update w.conns c' conn x.1).Active := by
  intro x hx
  rw [Function.update_of_ne (hc' x hx)]
  exact h.flying_active x hx

theorem Consistent.inUse_nodup (h : w.Consistent) : (w.inUse.map Prod.fst).Nodup := by
  have := h.lawful.inUse_nodup
  rw [Consistent.inUse_eq, Multiset.map_coe, Multiset.coe_nodup] at this
  exact this

theorem Consistent.flying_ne_sending (h : w.Consistent) {c : ℕ} {q : PendingQuery}
    (hs : .send c q ∈ w.stack) : ∀ x ∈ w.flying, x.1 ≠ c := by
  have hnd := h.inUse_nodup
  rw [inUse, List.append_assoc, List.map_append, List.nodup_append] at hnd
  intro x hx he
  refine hnd.2.2 c (List.mem_map.2 ⟨(c, q), List.mem_filterMap.2 ⟨_, hs, rfl⟩, rfl⟩) x.1 ?_ he.symm
  exact List.mem_map.2 ⟨x, List.mem_append_left _ hx, rfl⟩

theorem Consistent.flying_ne_calling (h : w.Consistent) {c : ℕ} {q : PendingQuery}
    (hs : .user c q ∈ w.stack) : ∀ x ∈ w.flying, x.1 ≠ c := by
  have hnd := h.inUse_nodup
  rw [inUse, List.map_append, List.nodup_append] at hnd
  intro x hx he
  refine hnd.2.2 x.1 ?_ c (List.mem_map.2 ⟨(c, q), List.mem_filterMap.2 ⟨_, hs, rfl⟩, rfl⟩) he
  exact List.mem_map.2 ⟨x, List.mem_append_right _ hx, rfl⟩

theorem Consistent.flying_nodup (h : w.Consistent) : (w.flying.map Prod.fst).Nodup := by
  have hnd := h.inUse_nodup
  rw [inUse, List.append_assoc, List.map_append, List.nodup_append] at hnd
  have := hnd.2.1
  rw [List.map_append, List.nodup_append] at this
  exact this.1

theorem Consistent.flying_ne_available (h : w.Consistent) {c : ℕ}
    (hc : c ∈ w.pool.availableConns) : ∀ x ∈ w.flying, x.1 ≠ c := by
  rintro ⟨c', q⟩ hx rfl
  exact h.not_available_of_inUse (mem_inUse_of_flying hx) hc

/-- Another query in flight is in flight on another connection. -/
theorem Consistent.flying_ne_erase (h : w.Consistent) {x y : ℕ × PendingQuery}
    (hx : x ∈ w.flying) (hy : y ∈ w.flying.erase x) : y.1 ≠ x.1 := by
  have hnd := h.flying_nodup
  rw [((List.perm_cons_erase hx).map Prod.fst).nodup_iff, List.map_cons, List.nodup_cons] at hnd
  intro he
  exact hnd.1 (List.mem_map.2 ⟨y, hy, he⟩)

theorem Outcome.flying_active (h : w.Consistent) (ho : Outcome w l w') :
    ∀ x ∈ w'.flying, (w'.conns x.1).Active := by
  have hold := h.flying_active
  cases ho with
  | construct hs hsize hmore =>
      refine h.flying_update fun x hx he => ?_
      have := h.members_lt x.1 (h.mem_of_inUse (mem_inUse_of_flying hx))
      omega
  | grant hu hq hfree =>
      exact h.flying_update (h.flying_ne_available (hfree ▸ List.mem_cons_self))
  | resume hs hfree hpending =>
      exact h.flying_update (h.flying_ne_available (hfree ▸ List.mem_cons_self))
  | sendCalls hs ho hcb =>
      exact h.flying_update (h.flying_ne_sending (hs ▸ List.mem_cons_self))
  | sendWaits hs ho hcb =>
      rintro x hx
      rcases List.mem_cons.1 hx with rfl | hx
      · simp only [runSend, Function.update_self]
        cases ho with
        | refused => cases hcb
        | unsent => cases hcb
        | tracked hret hflush hstate => exact hstate
      · exact h.flying_update (h.flying_ne_sending (hs ▸ List.mem_cons_self)) x hx
  | ret hs => exact h.flying_update (h.flying_ne_calling (hs ▸ List.mem_cons_self))
  | connectWaits hs hc =>
      simp only [runEvent, Function.update_eq_self]
      exact hold
  | connectFails hs hc =>
      exact h.flying_update fun x hx =>
        (h.ne_of_connecting hc (h.mem_of_inUse (mem_inUse_of_flying hx))).symm
  | connects hs hc =>
      exact h.flying_update fun x hx =>
        (h.ne_of_connecting hc (h.mem_of_inUse (mem_inUse_of_flying hx))).symm
  | @queryWaits c q ev a r hs hq ho hcb =>
      intro x hx
      by_cases he : x.1 = c
      · simp only [runEvent, he, Function.update_self]
        cases ho with
        | waits herr hstate => exact hstate
        | fails hcb' => rw [hcb'] at hcb; cases hcb
        | completes => simp [CallsBack, Effect.IsCallback] at hcb
      · simp only [runEvent, Function.update_of_ne he]
        exact hold x hx
  | queryCalls hs hq ho hcb =>
      intro x hx
      simp only [complete, runEvent, Function.update_of_ne (h.flying_ne_erase hq hx)]
      exact hold x (List.mem_of_mem_erase hx)
  | _ => exact hold

theorem connectSucceeded_cons {c : ℕ} {o : Obs} {log : List Obs}
    (ho : ∀ c' command ev effs, o = .handled c' command ev effs → .pq (.connectPoll .ok) ∉ effs) :
    ConnectSucceeded c (o :: log) ↔ ConnectSucceeded c log := by
  constructor
  · rintro ⟨command, ev, effs, hmem, hok⟩
    rcases List.mem_cons.1 hmem with he | hmem
    · exact absurd hok (ho _ _ _ _ he.symm)
    · exact ⟨command, ev, effs, hmem, hok⟩
  · rintro ⟨command, ev, effs, hmem, hok⟩
    exact ⟨command, ev, effs, List.mem_cons_of_mem _ hmem, hok⟩

/-- Serving a query polls no connect. -/
theorem no_connectPoll {c : Dbconnection} {ev : EpollEvent} {a : PqAnswers}
    {r : Dbconnection × List Effect} (ho : Dbconnection.QueryOutcome c ev a r) :
    .pq (.connectPoll .ok) ∉ r.2 := by
  intro hmem
  cases ho with
  | waits herr hstate hcb hplain => exact (hplain _ hmem).1
  | fails hcb hplain => exact hplain _ hmem
  | completes => simp at hmem

theorem Outcome.succeeded (h : w.Consistent) (ho : Outcome w l w') (c : ℕ) :
    c ∈ w'.pool.connectedConns ↔ ConnectSucceeded c w'.log := by
  have hold := h.succeeded c
  cases ho with
  | construct => exact hold.trans (connectSucceeded_cons (by simp)).symm
  | accept => exact hold.trans (connectSucceeded_cons (by simp)).symm
  | delete => exact hold.trans (connectSucceeded_cons (by simp)).symm
  | grant =>
      exact hold.trans
        ((connectSucceeded_cons (by simp)).trans (connectSucceeded_cons (by simp))).symm
  | defer =>
      exact hold.trans
        ((connectSucceeded_cons (by simp)).trans (connectSucceeded_cons (by simp))).symm
  | resume => exact hold.trans (connectSucceeded_cons (by simp)).symm
  | sendCalls =>
      exact hold.trans
        ((connectSucceeded_cons (by simp)).trans (connectSucceeded_cons (by simp))).symm
  | sendWaits => exact hold.trans (connectSucceeded_cons (by simp)).symm
  | connectWaits hs hc hno hpoll =>
      exact hold.trans (connectSucceeded_cons (by rintro _ _ _ _ ⟨⟩; exact hpoll)).symm
  | connectFails hs hc hno hpoll =>
      exact hold.trans (connectSucceeded_cons (by rintro _ _ _ _ ⟨⟩; exact hpoll)).symm
  | @connects c' ev a effs hs hc hyes hpoll herr =>
      simp only [DBpooler.onConnect, herr, if_true, runEvent, List.mem_append, List.mem_singleton]
      constructor
      · rintro (hmem | rfl)
        · obtain ⟨command, ev', effs', hmem', hok⟩ := hold.1 hmem
          exact ⟨command, ev', effs', List.mem_cons_of_mem _ hmem', hok⟩
        · exact ⟨_, _, _, List.mem_cons_self, hpoll⟩
      · rintro ⟨command, ev', effs', hmem, hok⟩
        rcases List.mem_cons.1 hmem with he | hmem
        · exact Or.inr (Obs.handled.inj he).1
        · exact Or.inl (hold.2 ⟨command, ev', effs', hmem, hok⟩)
  | queryWaits hs hq ho hcb =>
      have hpoll := no_connectPoll ho
      exact hold.trans (connectSucceeded_cons (by rintro _ _ _ _ ⟨⟩; exact hpoll)).symm
  | queryCalls hs hq ho hcb =>
      have hpoll := no_connectPoll ho
      exact hold.trans ((connectSucceeded_cons (by simp)).trans
        (connectSucceeded_cons (by rintro _ _ _ _ ⟨⟩; exact hpoll))).symm
  | _ => exact hold

/-- Distinct numbers below `n` are at most `n` many. -/
theorem length_le_of_nodup {cs : List ℕ} {n : ℕ} (hnd : cs.Nodup) (hlt : ∀ c ∈ cs, c < n) :
    cs.length ≤ n := by
  rw [← List.toFinset_card_of_nodup hnd]
  calc cs.toFinset.card ≤ (Finset.range n).card :=
        Finset.card_le_card fun c hc => Finset.mem_range.2 (hlt c (List.mem_toFinset.1 hc))
    _ = n := Finset.card_range n

theorem Consistent.members_nodup (h : w.Consistent) : w.pool.connectedConns.Nodup :=
  h.lawful.members_nodup

theorem Consistent.members_length (h : w.Consistent) :
    w.pool.connectedConns.length ≤ w.pool.poolSize.toNat :=
  (length_le_of_nodup h.members_nodup h.members_lt).trans h.built_le

theorem Outcome.ready (h : w.Consistent) (ho : Outcome w l w') (hsize : 0 < w'.pool.poolSize) :
    w'.pool.isReady = true ↔ (w'.pool.connectedConns.length : ℤ) = w'.pool.poolSize := by
  have hold := h.ready
  cases ho with
  | @connects c ev a effs hs hc hyes hpoll herr =>
      have hcount := h.connected
      -- one more member is still at most `poolSize` members, so `is_ready` was not yet set
      have hmore : (c :: w.pool.connectedConns).length ≤ w.pool.poolSize.toNat := by
        refine (length_le_of_nodup (List.nodup_cons.2 ⟨(h.connecting_new c hc).1, h.members_nodup⟩)
          fun c' hc' => ?_).trans h.built_le
        rcases List.mem_cons.1 hc' with rfl | hc'
        · exact (h.connecting_new _ hc).2
        · exact h.members_lt c' hc'
      simp only [DBpooler.onConnect, herr, if_true] at hsize ⊢
      have hiff := hold hsize
      rw [List.length_cons] at hmore
      rw [List.length_append, List.length_singleton]
      split
      · next he =>
          refine iff_of_true rfl ?_
          push_cast
          omega
      · next he =>
          refine iff_of_false (fun hr => ?_) fun hl => he ?_
          · have := hiff.1 hr
            omega
          · push_cast at hl
            omega
  | _ => exact hold hsize

/-- **Consistency is kept by every step.** -/
theorem Consistent.next (h : w.Consistent) (hn : w.next l = some w') : w'.Consistent := by
  have ho := h.outcome hn
  exact {
    defined := by
      have := h.defined
      cases ho <;> exact this
    idle := (ho.counters h).1
    connected := (ho.counters h).2
    lawful := by
      rcases ho.refines h with he | hs
      · exact he ▸ h.lawful
      · exact h.lawful.step hs
    fresh := ho.fresh h
    stack := ho.stack h
    built_le := ho.built_le h
    connecting_nodup := (ho.connecting h).1
    connecting_new := (ho.connecting h).2.1
    members_lt := (ho.connecting h).2.2
    connecting_state := ho.connecting_state h
    flying_active := ho.flying_active h
    succeeded := ho.succeeded h
    ready := ho.ready h }

theorem consistent_start (connectionInfo : String) (poolSize : ℤ) :
    (start connectionInfo poolSize).Consistent where
  defined := rfl
  idle := rfl
  connected := rfl
  lawful := ResourcePool.lawful_empty
  fresh := by simp [start, history]
  stack := Or.inl rfl
  built_le := Nat.zero_le _
  connecting_nodup := List.nodup_nil
  connecting_new := by simp [start]
  members_lt := by simp [start, DBpooler.new]
  connecting_state := by simp [start]
  flying_active := by simp [start]
  succeeded := by simp [start, DBpooler.new, ConnectSucceeded]
  ready := by
    intro hsize
    simp only [start, DBpooler.new] at hsize ⊢
    simp
    omega

theorem reachable_consistent (h : poolMachine.Reachable w) : w.Consistent := by
  refine h.invariant ?_ fun s l t hs hn => hs.next hn
  rintro s ⟨connectionInfo, poolSize, rfl⟩
  exact consistent_start connectionInfo poolSize

end PoolState

end FiberConn
