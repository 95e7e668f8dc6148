import FiberConn.DbPooler.Driver
import FiberConn.DbPooler.Proofs
import FiberConn.Lifetimes.Proofs

set_option autoImplicit false

/-! # Proofs about a pool driven by `reactorRun`

A query can be left in two places when `reactorRun` has nothing to wait for. In `pending_queries`,
if no query is on a connection whose completion lambda would hand it on (`Attended`): only the last
submission decides that. On a connection, if its function is not stored in the reactor
(`Tracked`): once one is lost, it stays lost. -/

namespace FiberConn

open Machine

namespace PoolState

variable {w w' : PoolState} {l : PoolLabel}

/-! ## Queries that are not completed -/

/-- When no call is running, the queries not completed are those that wait and those in flight. -/
theorem Consistent.completed_iff (h : w.Consistent) (hs : w.stack = []) :
    (∀ q ∈ history Obs.submitted? w.log, q ∈ history Obs.called? w.log) ↔
      w.pool.pendingQueries = [] ∧ w.flying = [] := by
  have hflight : w.inFlight = w.flying.map Prod.snd := by simp [inFlight, sending, hs]
  have hcount := h.count_submitted
  constructor
  · intro hall
    -- a query that is somewhere else has not been called, and is submitted once
    have hnot (q : PendingQuery)
        (hpos : 0 < w.pool.pendingQueries.count q + w.inFlight.count q) : False := by
      have hsum := hcount q
      have hmem : q ∈ history Obs.submitted? w.log := List.count_pos_iff.1 (by omega)
      have hone := List.count_eq_one_of_mem h.lawful.submitted_nodup hmem
      have hone : (history Obs.submitted? w.log).count q = 1 := hone
      have hcalled := List.count_pos_iff.2 (hall q hmem)
      omega
    constructor
    · rw [List.eq_nil_iff_forall_not_mem]
      intro q hq
      have hpos := List.count_pos_iff.2 hq
      exact hnot q (by omega)
    · rw [List.eq_nil_iff_forall_not_mem]
      intro x hx
      have hmem : x.2 ∈ w.inFlight := hflight ▸ List.mem_map.2 ⟨x, hx, rfl⟩
      have hpos := List.count_pos_iff.2 hmem
      exact hnot x.2 (by omega)
  · rintro ⟨hpending, hfly⟩ q hq
    have hsum := hcount q
    rw [hpending, hflight, hfly] at hsum
    have hpos := List.count_pos_iff.2 hq
    simp only [List.count_nil, List.map_nil, Nat.zero_add] at hsum
    exact List.count_pos_iff.1 (by omega)

/-! ## Sockets and the functions that serve them -/

/-- A connection that connects or has joined. -/
def Live (w : PoolState) (c : ℕ) : Prop := c ∈ w.connecting ∨ c ∈ w.pool.connectedConns

/-- A function of the pool belongs to a connect or a query under way on the socket. -/
def Serves (w : PoolState) (fd : ℤ) : PoolClosure → Prop
  | .connect c => c ∈ w.connecting ∧ (w.conns c).socket = fd
  | .query c q => (c, q) ∈ w.flying ∧ (w.conns c).socket = fd
  | .other => True

theorem Consistent.live_lt (h : w.Consistent) {c : ℕ} (hc : w.Live c) : c < w.built := by
  rcases hc with hc | hc
  · exact (h.connecting_new c hc).2
  · exact h.members_lt c hc

theorem Consistent.live_of_flying (h : w.Consistent) {x : ℕ × PendingQuery} (hx : x ∈ w.flying) :
    w.Live x.1 :=
  Or.inr (h.mem_of_inUse (mem_inUse_of_flying hx))

theorem Consistent.live_of_sending (h : w.Consistent) {c : ℕ} {q : PendingQuery}
    (hs : .send c q ∈ w.stack) : w.Live c :=
  Or.inr (h.mem_of_inUse (mem_inUse_of_sending hs))

/-- An update of one connection that keeps its socket keeps all sockets. -/
theorem socket_update {conns : ℕ → Dbconnection} {c c' : ℕ} {conn : Dbconnection}
    (hsocket : conn.socket = (conns c).socket) :
    (Function.update conns c conn c').socket = (conns c').socket := by
  by_cases heq : c' = c
  · rw [heq, Function.update_self, hsocket]
  · rw [Function.update_of_ne heq]

/-- **Only the constructor sets sockets.** -/
theorem Consistent.socket_next (h : w.Consistent) (hl : ∀ memory start, l ≠ .construct memory start)
    (hn : w.next l = some w') (c : ℕ) : (w'.conns c).socket = (w.conns c).socket := by
  cases h.outcome hn with
  | construct => exact absurd rfl (hl _ _)
  | constructed => rfl
  | accept => rfl
  | delete => rfl
  | grant => exact socket_update rfl
  | defer => rfl
  | resume => exact socket_update rfl
  | drained => rfl
  | sendCalls hs ho => exact socket_update ho.socket
  | sendWaits hs ho => exact socket_update ho.socket
  | ret => exact socket_update rfl
  | connectWaits => exact socket_update rfl
  | connectFails => exact socket_update rfl
  | connects => exact socket_update rfl
  | queryWaits hs hq ho => exact socket_update ho.socket
  | queryCalls hs hq ho => exact socket_update ho.socket

/-- Only the constructor makes connections. -/
theorem Consistent.live_next (h : w.Consistent) (hl : ∀ memory start, l ≠ .construct memory start)
    (hn : w.next l = some w') {c : ℕ} (hc : w'.Live c) : w.Live c := by
  cases h.outcome hn with
  | construct => exact absurd rfl (hl _ _)
  | connectFails => exact hc.imp_left List.mem_of_mem_erase
  | @connects c' ev a effs hs hc' hyes hpoll herr =>
      rcases hc with hc | hc
      · exact Or.inl (List.mem_of_mem_erase hc)
      · simp only [DBpooler.onConnect, herr, if_true] at hc
        rcases List.mem_append.1 hc with hc | hc
        · exact Or.inr hc
        · rw [List.mem_singleton.1 hc]
          exact Or.inl hc'
  | _ => exact hc

/-- No step enters the constructor again. -/
theorem Consistent.constructing_next (h : w.Consistent) (hn : w.next l = some w')
    (hs' : w'.stack = [.construct w'.built]) : w.stack = [.construct w.built] := by
  -- below another frame there is no constructor
  have hbelow {f : Frame} (hs : w.stack = f :: [.construct w.built]) :
      w.stack = [.construct w.built] := by
    refine h.stack.resolve_right fun hno => hno w.built ?_
    rw [hs]
    simp
  cases h.outcome hn with
  | construct hs => exact hs
  | constructed hs => exact hs
  | drained hs => exact hbelow (hs.trans (congrArg _ hs'))
  | sendWaits hs => exact hbelow (hs.trans (congrArg _ hs'))
  | connectWaits hs => exact hs'
  | connectFails hs => exact hs'
  | connects hs => exact hs'
  | queryWaits hs => exact hs'
  | accept => exact hs'
  | delete => exact hs'
  | defer => exact hs'
  | grant => simp at hs'
  | resume => simp at hs'
  | sendCalls => simp [complete] at hs'
  | ret => simp [giveBack] at hs'
  | queryCalls => simp [complete] at hs'

/-- A step that asks nothing of the reactor starts and ends no connect and no query. -/
theorem Consistent.aside (h : w.Consistent) (hcalls : w.calls l = none)
    (hn : w.next l = some w') : w'.connecting = w.connecting ∧ w'.flying = w.flying := by
  cases h.outcome hn with
  | construct => cases hcalls
  | sendWaits hs =>
      rw [calls, hs] at hcalls
      cases hcalls
  | connectFails => cases hcalls
  | connects => cases hcalls
  | queryCalls => cases hcalls
  | _ => exact ⟨rfl, rfl⟩

/-- A function goes on serving where nothing it needs has gone. -/
theorem Consistent.serves_mono (h : w.Consistent) (hconn : w.connecting ⊆ w'.connecting)
    (hfly : w.flying ⊆ w'.flying)
    (hsocket : ∀ c, w.Live c → (w'.conns c).socket = (w.conns c).socket) {fd : ℤ} {x : PoolClosure}
    (hx : w.Serves fd x) : w'.Serves fd x := by
  cases x with
  | connect c => exact ⟨hconn hx.1, (hsocket c (Or.inl hx.1)).trans hx.2⟩
  | query c q => exact ⟨hfly hx.1, (hsocket c (h.live_of_flying hx.1)).trans hx.2⟩
  | other => trivial

/-- A function of the pool serves one socket. -/
theorem Serves.unique {fd fd' : ℤ} {x : PoolClosure} (hx : w.Serves fd x) (hx' : w.Serves fd' x)
    (hpool : x ≠ .other) : fd = fd' := by
  cases x with
  | connect c => exact hx.2.symm.trans hx'.2
  | query c q => exact hx.2.symm.trans hx'.2
  | other => exact absurd rfl hpool

/-- Two connections have different sockets, if any. -/
def DistinctSockets (w : PoolState) : Prop :=
  ∀ c c', w.Live c → w.Live c' → (w.conns c).socket = (w.conns c').socket →
    (w.conns c).socket ≠ -1 → c = c'

theorem DistinctSockets.mono (h : w.DistinctSockets) (hlive : ∀ c, w'.Live c → w.Live c)
    (hsocket : ∀ c, w.Live c → (w'.conns c).socket = (w.conns c).socket) :
    w'.DistinctSockets := by
  intro c c' hc hc' heq hne
  rw [hsocket c (hlive c hc)] at heq hne
  rw [hsocket c' (hlive c' hc')] at heq
  exact h c c' (hlive c hc) (hlive c' hc') heq hne

/-- A new connection whose socket nobody has. -/
theorem DistinctSockets.extend (h : w.DistinctSockets) {n : ℕ}
    (hlive : ∀ c, w'.Live c → w.Live c ∨ c = n)
    (hsocket : ∀ c, w.Live c → (w'.conns c).socket = (w.conns c).socket)
    (hnew : ∀ c, w.Live c → (w.conns c).socket ≠ -1 → (w.conns c).socket ≠ (w'.conns n).socket) :
    w'.DistinctSockets := by
  intro c c' hc hc' heq hne
  rcases hlive c hc with hold | rfl
  · rw [hsocket c hold] at heq hne
    rcases hlive c' hc' with hold' | rfl
    · rw [hsocket c' hold'] at heq
      exact h c c' hold hold' heq hne
    · exact absurd heq (hnew c hold hne)
  · rcases hlive c' hc' with hold' | rfl
    · rw [heq, hsocket c' hold'] at hne
      rw [hsocket c' hold'] at heq
      exact absurd heq.symm (hnew c' hold' hne)
    · rfl

/-- What an event does that runs the function `x`, which makes the calls `effs`: only `x` may be
    done, and it is when it calls back. -/
structure Ran (w w' : PoolState) (x : PoolClosure) (effs : List Effect) : Prop where
  serves : ∀ fd y, w.Serves fd y → (CallsBack effs = true → y ≠ x) → w'.Serves fd y
  flying : ∀ c q, (c, q) ∈ w'.flying →
    (c, q) ∈ w.flying ∧ (CallsBack effs = true → .query c q ≠ x)

theorem Consistent.ran_connect (h : w.Consistent) {c : ℕ} {ev : EpollEvent} {a : PqAnswers}
    (hn : w.next (.connectEvent c ev a) = some w') :
    Ran w w' (.connect c) ((w.conns c).handleEvent ev a).2 := by
  have hsocket := h.socket_next (by simp) hn
  obtain ⟨-, hn⟩ := Option.ite_none_right_eq_some.1 hn
  dsimp only at hn
  split at hn
  · next hcb =>
      obtain rfl := Option.some.inj hn
      refine ⟨fun fd y hy hne => ?_, fun c' q hq => ⟨hq, nofun⟩⟩
      cases y with
      | connect c' =>
          refine ⟨(List.mem_erase_of_ne ?_).2 hy.1, (hsocket c').trans hy.2⟩
          rintro rfl
          exact hne hcb rfl
      | query c' q => exact ⟨hy.1, (hsocket c').trans hy.2⟩
      | other => trivial
  · obtain rfl := Option.some.inj hn
    refine ⟨fun fd y hy hne => ?_, fun c' q hq => ⟨hq, nofun⟩⟩
    cases y with
    | connect c' => exact ⟨hy.1, (hsocket c').trans hy.2⟩
    | query c' q => exact ⟨hy.1, (hsocket c').trans hy.2⟩
    | other => trivial

theorem Consistent.ran_query (h : w.Consistent) {c : ℕ} {q : PendingQuery} {ev : EpollEvent}
    {a : PqAnswers} (hn : w.next (.queryEvent c q ev a) = some w') :
    Ran w w' (.query c q) ((w.conns c).handleEvent ev a).2 := by
  have hsocket := h.socket_next (by simp) hn
  obtain ⟨-, hn⟩ := Option.ite_none_right_eq_some.1 hn
  dsimp only at hn
  split at hn
  · next hcb =>
      obtain rfl := Option.some.inj hn
      constructor
      · intro fd y hy hne
        cases y with
        | connect c' => exact ⟨hy.1, (hsocket c').trans hy.2⟩
        | query c' q' =>
            refine ⟨(List.mem_erase_of_ne ?_).2 hy.1, (hsocket c').trans hy.2⟩
            intro heq
            obtain ⟨rfl, rfl⟩ := Prod.mk.inj heq
            exact hne hcb rfl
        | other => trivial
      · intro c' q' hq'
        obtain ⟨hne, hmem⟩ := h.flying_nodup.of_map.mem_erase_iff.1 hq'
        refine ⟨hmem, fun _ heq => hne ?_⟩
        cases heq
        rfl
  · next hcb =>
      obtain rfl := Option.some.inj hn
      refine ⟨fun fd y hy hne => ?_, fun c' q' hq' => ⟨hq', fun h => absurd h hcb⟩⟩
      cases y with
      | connect c' => exact ⟨hy.1, (hsocket c').trans hy.2⟩
      | query c' q' => exact ⟨hy.1, (hsocket c').trans hy.2⟩
      | other => trivial

end PoolState

/-! ## The reactor -/

namespace RunState

variable {κ : Type} {s : RunState κ} {cb : κ} {granted : Bool} {effs : List Effect}

/-- Only `openFd` opens a descriptor. -/
theorem openFds_act {a : Action κ} (ha : ∀ fd, a ≠ .openFd fd) :
    (s.act a).ioc.kernel.openFds ⊆ s.ioc.kernel.openFds := by
  have hadd (fd : ℤ) (mask : EventMask) (priority : EventPriority) (cb : κ) (granted : Bool) :
      (s.ioc.addTrack fd mask priority cb granted).1.kernel.openFds ⊆ s.ioc.kernel.openFds := by
    rcases s.ioc.addTrack_cases fd mask priority cb granted with he | ⟨-, k, -, hk, he⟩
    · rw [he]
    · rw [he]
      exact hk.subset
  cases a with
  | asyncAccept fd cb granted => exact hadd fd epollIn .listenSock cb granted
  | addTrack fd mask priority cb granted => exact hadd fd mask priority cb granted
  | modifyTrack fd mask priority cb granted =>
      show (s.ioc.modifyTrack fd mask priority cb granted).1.kernel.openFds ⊆ _
      rcases s.ioc.modifyTrack_cases fd mask priority cb granted with he | ⟨-, k, -, hk, he⟩
      · rw [he]
      · rw [he]
        exact hk.subset
  | removeTrack fd =>
      show (s.ioc.kernel.removeEpollInterest fd).1.openFds ⊆ _
      unfold Kernel.removeEpollInterest
      split <;> exact Finset.Subset.refl _
  | closeFd fd =>
      show (s.ioc.kernel.closeConnection fd).1.openFds ⊆ _
      unfold Kernel.closeConnection
      split
      · exact Finset.erase_subset _ _
      · exact Finset.Subset.refl _
  | openFd fd => exact absurd rfl (ha fd)

/-- What every action but `openFd` keeps, the calls keep. -/
theorem perform_keeps {P : RunState κ → Prop} (hs : P s)
    (hact : ∀ s a, (∀ fd, a ≠ .openFd fd) → P s → P (s.act a)) :
    P (s.perform cb granted effs).run := by
  have hfold (effs : List Effect) (p : Performed κ) (hp : P p.run) :
      P (effs.foldl (Performed.step cb granted) p).run := by
    induction effs generalizing p with
    | nil => exact hp
    | cons e effs ih =>
        rw [List.foldl_cons]
        refine ih _ ?_
        unfold Performed.step
        split
        · next a ha =>
            refine hact _ _ (fun fd heq => ?_) hp
            unfold Effect.request at ha
            split at ha <;> cases ha <;> cases heq
        · exact hp
  exact hfold effs _ hs

theorem phase_perform : (s.perform cb granted effs).run.phase = s.phase :=
  perform_keeps (P := fun t => t.phase = s.phase) rfl fun _ _ _ h => h

theorem openFds_perform :
    (s.perform cb granted effs).run.ioc.kernel.openFds ⊆ s.ioc.kernel.openFds :=
  perform_keeps (P := fun t => t.ioc.kernel.openFds ⊆ s.ioc.kernel.openFds)
    (Finset.Subset.refl _) fun _ _ ha h => (openFds_act ha).trans h

/-- `addTrack` keeps the descriptors open. -/
theorem openFds_addTrack {fd : ℤ} {mask : EventMask} {priority : EventPriority}
    (hcalls : ∀ e ∈ effs, e.IsCall) :
    (s.perform cb granted (effs ++ [.addTrack fd mask priority])).run.ioc.kernel.openFds =
      s.ioc.kernel.openFds := by
  rw [perform, List.foldl_append, Performed.foldl_calls hcalls]
  show (s.ioc.addTrack fd mask priority cb granted).1.kernel.openFds = _
  rcases s.ioc.addTrack_cases fd mask priority cb granted with he | ⟨-, k, -, hk, he⟩
  · rw [he]
  · rw [he]
    exact hk

end RunState

namespace Driven

variable {s t : Driven} {l : DrivenLabel}

/-! ## Inversion -/

/-- What holds in every reachable state. -/
structure Wired (s : Driven) : Prop where
  consistent : s.pool.Consistent
  drains : s.pool.DrainsMember
  idle : s.run.phase = .loop → s.pool.stack = []
  open_nonneg : ∀ fd ∈ s.run.ioc.kernel.openFds, 0 ≤ fd
  stored : ∀ fd x, s.run.callback fd = some x → s.pool.Serves fd x
  socket_open : s.Constructing → ∀ c, s.pool.Live c →
    (s.pool.conns c).socket = -1 ∨ (s.pool.conns c).socket ∈ s.run.ioc.kernel.openFds
  distinct : s.pool.DistinctSockets

/-- What a step can do to the pool and the reactor. -/
inductive Step (s : Driven) : DrivenLabel → Driven → Prop
  /-- The loop, or the rest of the program. -/
  | beside {l : DrivenLabel} {t : Driven}
      (hl : ∀ query client granted, l ≠ .pool (.submit query client) granted)
      (hpool : t.pool = s.pool) (hfree : ¬ s.Constructing)
      (hidle : t.run.phase = .loop → s.pool.stack = [])
      (hopen : ∀ fd ∈ t.run.ioc.kernel.openFds, 0 ≤ fd)
      (hstored : ∀ fd x, t.run.callback fd = some x → s.run.callback fd = some x ∨ x = .other)
      (hkeeps : s.KeepsTrack l ↔ ∀ fd c q, s.run.callback fd = some (.query c q) →
        t.run.callback fd = some (.query c q)) : Step s l t
  /-- The pool, without the reactor. -/
  | aside {l : PoolLabel} {granted : Bool} {w : PoolState} (hn : s.pool.next l = some w)
      (hconn : w.connecting = s.pool.connecting) (hfly : w.flying = s.pool.flying)
      (hlive : ∀ c, w.Live c → s.pool.Live c)
      (hsocket : ∀ c, s.pool.Live c → (w.conns c).socket = (s.pool.conns c).socket)
      (hidle : s.run.phase = .loop → w.stack = []) (hkeeps : s.KeepsTrack (.pool l granted)) :
      Step s (.pool l granted) { s with pool := w }
  /-- `connectDb` tracks a new connection. -/
  | connects {memory fd : ℤ} {granted : Bool} {w : PoolState} {effs : List Effect}
      {mask : EventMask} (hn : s.pool.next (.construct memory (some fd)) = some w)
      (hcalls : ∀ e ∈ effs, e.IsCall) (hs : s.Constructing) (hfd : fd = -1 ∨ s.Fresh fd)
      (hconn : w.connecting = s.pool.connecting ++ [s.pool.built]) (hfly : w.flying = s.pool.flying)
      (hlive : ∀ c, w.Live c → s.pool.Live c ∨ c = s.pool.built)
      (hsocket : ∀ c, s.pool.Live c → (w.conns c).socket = (s.pool.conns c).socket)
      (hnew : (w.conns s.pool.built).socket = fd) :
      Step s (.pool (.construct memory (some fd)) granted)
        { s with
          pool := w
          run := ((s.opened (.construct memory (some fd))).perform (.connect s.pool.built) granted
            (effs ++ [.addTrack fd mask .helperSock])).run }
  /-- `Dbconnection::sendQuery` tracks a query. -/
  | sends {a : SendAnswers} {c : ℕ} {q : PendingQuery} {granted : Bool} {w : PoolState}
      {effs : List Effect} {mask : EventMask} (hn : s.pool.next (.send a) = some w)
      (hcalls : ∀ e ∈ effs, e.IsCall) (hs : .send c q ∈ s.pool.stack)
      (hconn : w.connecting = s.pool.connecting) (hfly : w.flying = (c, q) :: s.pool.flying)
      (hlive : ∀ c, w.Live c → s.pool.Live c)
      (hsocket : ∀ c, (w.conns c).socket = (s.pool.conns c).socket)
      (hkeeps : s.KeepsTrack (.pool (.send a) granted) ↔
        s.run.CanAdd (s.pool.conns c).socket granted) :
      Step s (.pool (.send a) granted)
        { s with
          pool := w
          run := (s.run.perform (.query c q) granted
            (effs ++ [.addTrack (s.pool.conns c).socket mask .helperSock])).run }
  /-- A function of the pool runs. -/
  | runs {e : QueuedEvent} {a : PqAnswers} {granted : Bool} {t : Driven} {l : PoolLabel}
      {x : PoolClosure} {effs : List Effect} (hl : ∀ query client, l ≠ .submit query client)
      (hn : s.pool.next l = some t.pool) (hfree : ¬ s.Constructing)
      (hx : s.run.callback e.2.fd = some x) (hpool : x ≠ .other)
      (hran : PoolState.Ran s.pool t.pool x effs)
      (hlive : ∀ c, t.pool.Live c → s.pool.Live c)
      (hsocket : ∀ c, (t.pool.conns c).socket = (s.pool.conns c).socket)
      (hmap : ∀ fd, t.run.callback fd =
        if CallsBack effs = true ∧ fd = e.2.fd then none else s.run.callback fd)
      (hopen : t.run.ioc.kernel.openFds ⊆ s.run.ioc.kernel.openFds)
      (hphase : t.run.phase ≠ .loop) : Step s (.dispatch e a granted) t

/-- A step that asks nothing of the reactor. -/
theorem Wired.aside (h : s.Wired) {l : PoolLabel} {w : PoolState} {granted : Bool}
    (hl : ∀ memory start, l ≠ .construct memory start) (henabled : l.Enabled s)
    (hconn : w.connecting = s.pool.connecting) (hfly : w.flying = s.pool.flying)
    (hkeeps : s.KeepsTrack (.pool l granted)) (hn : s.pool.next l = some w) :
    Step s (.pool l granted) { s with pool := w } := by
  refine .aside hn hconn hfly (fun c hc => h.consistent.live_next hl hn hc)
    (fun c _ => h.consistent.socket_next hl hn c) (fun hphase => ?_) hkeeps
  -- between two handlers nothing runs that could put a frame on the stack
  have hempty := h.idle hphase
  have hnot : ¬ s.UserCode := by
    intro hu
    have hrun := hu.1
    rw [RunState.UserCode, hphase] at hrun
    exact hrun
  cases h.consistent.outcome hn with
  | grant => exact absurd henabled hnot
  | defer => exact absurd henabled hnot
  | accept => exact hempty
  | delete => exact hempty
  | construct hs => rw [hempty] at hs; cases hs
  | constructed hs => rfl
  | resume hs => rw [hempty] at hs; cases hs
  | drained hs => rw [hempty] at hs; cases hs
  | sendCalls hs => rw [hempty] at hs; cases hs
  | sendWaits hs => rw [hempty] at hs; cases hs
  | ret hs => rw [hempty] at hs; cases hs
  | connectWaits => exact False.elim henabled
  | connectFails => exact False.elim henabled
  | connects => exact False.elim henabled
  | queryWaits => exact False.elim henabled
  | queryCalls => exact False.elim henabled

theorem Wired.not_loop_of_constructing (h : s.Wired) (hs : s.Constructing) :
    s.run.phase ≠ .loop := by
  intro hphase
  have hempty := h.idle hphase
  rw [hs] at hempty
  cases hempty

/-- One connection of the constructor. -/
theorem Wired.construct_step (h : s.Wired) {memory : ℤ} {start : Option ℤ} {granted : Bool}
    (henabled : (PoolLabel.construct memory start).Enabled s)
    (ht : s.take (.construct memory start) granted = some t) :
    Step s (.pool (.construct memory start) granted) t := by
  obtain ⟨w, hw, rfl⟩ := Option.map_eq_some_iff.1 ht
  cases hstack : s.pool.stack with
  | nil =>
      simp only [PoolState.next, hstack] at hw
      cases hw
  | cons f rest =>
      cases f with
      | construct i =>
          obtain ⟨rfl, rfl⟩ := h.consistent.construct_top hstack
          have hs : s.Constructing := hstack
          have hn := hw
          simp only [PoolState.next, hstack] at hw
          obtain ⟨-, hw⟩ := Option.ite_none_right_eq_some.1 hw
          obtain rfl := Option.some.inj hw
          have hold (conn : Dbconnection) (c : ℕ) (hc : s.pool.Live c) :
              (Function.update s.pool.conns s.pool.built conn c).socket =
                (s.pool.conns c).socket := by
            rw [Function.update_of_ne (h.consistent.live_lt hc).ne]
          have hidle (hphase : s.run.phase = .loop) := h.not_loop_of_constructing hs hphase
          cases start with
          | none =>
              exact .aside hn rfl rfl (fun c hc => hc) (hold _) (fun hphase => (hidle hphase).elim)
                trivial
          | some fd =>
              refine @Step.connects s memory fd granted _
                [.pq (.connectStart (cStr s.pool.pool.connectionInfo) true)] writeMask
                hn (by simp [Effect.IsCall]) hs (henabled fd rfl) rfl rfl (fun c hc => ?_)
                (hold _) ?_
              · rcases hc with hc | hc
                · rcases List.mem_append.1 hc with hc | hc
                  · exact Or.inl (Or.inl hc)
                  · exact Or.inr (List.mem_singleton.1 hc)
                · exact Or.inl (Or.inr hc)
              · show (Function.update s.pool.conns s.pool.built _ s.pool.built).socket = fd
                rw [Function.update_self]
                rfl
      | _ =>
          simp only [PoolState.next, hstack] at hw
          cases hw

/-- One call of `Dbconnection::sendQuery`. -/
theorem Wired.send_step (h : s.Wired) {a : SendAnswers} {granted : Bool}
    (ht : s.take (.send a) granted = some t) : Step s (.pool (.send a) granted) t := by
  obtain ⟨w, hw, rfl⟩ := Option.map_eq_some_iff.1 ht
  cases hstack : s.pool.stack with
  | nil =>
      simp only [PoolState.next, hstack] at hw
      cases hw
  | cons f rest =>
      cases f with
      | send c q =>
          have hn := hw
          simp only [PoolState.next, hstack] at hw
          obtain ⟨hflush, hw⟩ := Option.ite_none_right_eq_some.1 hw
          have hcalls : s.pool.calls (.send a) =
              some (.query c q, ((s.pool.conns c).sendQuery (cStr q.query) a).2) := by
            rw [PoolState.calls, hstack]
          rw [hcalls]
          dsimp only
          have hlive (c : ℕ) (hc : w.Live c) := h.consistent.live_next (by simp) hn hc
          have hsocket := h.consistent.socket_next (by simp) hn
          by_cases hfail : a.sendQuery = 0 ∨ a.flush = -1
          · have hkeeps : s.KeepsTrack (.pool (.send a) granted) := by
              intro hret hbad
              rcases hfail with hzero | hzero
              · exact absurd hzero hret
              · exact absurd hzero hbad
            have ho := @Dbconnection.sendQuery_outcome (s.pool.conns c) (cStr q.query) a hflush
            generalize (s.pool.conns c).sendQuery (cStr q.query) a = r at ho hw
            cases ho with
            | refused hret =>
                obtain rfl := Option.some.inj hw
                exact h.aside (by simp) trivial rfl rfl hkeeps hn
            | unsent hret =>
                obtain rfl := Option.some.inj hw
                exact h.aside (by simp) trivial rfl rfl hkeeps hn
            | tracked hret hbad =>
                rcases hfail with hzero | hzero
                · exact absurd hzero hret
                · exact absurd hzero hbad
          · obtain ⟨hret, hbad⟩ := not_or.1 hfail
            obtain ⟨state, mask, he⟩ := 
              @Dbconnection.sendQuery_tracks (s.pool.conns c) (cStr q.query) a hret hbad hflush
            rw [he] at hw ⊢
            obtain rfl := Option.some.inj hw
            refine @Step.sends s a c q granted _
              [.pq (.sendQuery (cStr q.query) a.sendQuery), .pq (.flush a.flush)] mask
              hn (by simp [Effect.IsCall]) (hstack ▸ List.mem_cons_self) rfl rfl hlive hsocket ?_
            simp [KeepsTrack, hret, hbad, hstack, Frame.sending?]
      | _ =>
          simp only [PoolState.next, hstack] at hw
          cases hw

/-- A function of the pool runs on an event for its socket. -/
theorem Wired.run_step (h : s.Wired) {e : QueuedEvent} {a : PqAnswers} {granted : Bool}
    {run : RunState PoolClosure} {l : PoolLabel} {x : PoolClosure} {effs : List Effect}
    (hl : ∀ memory start, l ≠ .construct memory start)
    (hsubmit : ∀ query client, l ≠ .submit query client) (hfree : ¬ s.Constructing)
    (hioc : run.ioc = s.run.ioc) (hphase : run.phase ≠ .loop)
    (hx : s.run.callback e.2.fd = some x) (hpool : x ≠ .other)
    (hcalls : s.pool.calls l = some (x, effs)) (htrace : HandlerTrace e.2.fd effs)
    (hran : ∀ {w}, s.pool.next l = some w → PoolState.Ran s.pool w x effs)
    (ht : { s with run := run, foreign := false }.take l granted = some t) :
    Step s (.dispatch e a granted) t := by
  obtain ⟨w, hn, rfl⟩ := Option.map_eq_some_iff.1 ht
  have hopened : opened { s with run := run, foreign := false } l = run := by
    cases l with
    | construct memory start => exact absurd rfl (hl _ _)
    | _ => rfl
  dsimp only
  rw [hcalls, hopened]
  have hcb (fd : ℤ) : run.callback fd = s.run.callback fd := by
    rw [RunState.callback, hioc, RunState.callback]
  refine .runs hsubmit hn hfree hx hpool (hran hn) (fun c hc => h.consistent.live_next hl hn hc)
    (h.consistent.socket_next hl hn) (fun fd => ?_) ?_ ?_
  · have hmap : (run.perform x granted effs).run.callback fd = _ :=
      RunState.callback_handler htrace ((hcb _).trans hx) fd
    rwa [hcb] at hmap
  · rw [← hioc]
    exact RunState.openFds_perform
  · exact RunState.phase_perform.trans_ne hphase

/-- One event. -/
theorem Wired.dispatch_step (h : s.Wired) {e : QueuedEvent} {a : PqAnswers} {granted : Bool}
    (ht : s.next (.dispatch e a granted) = some t) : Step s (.dispatch e a granted) t := by
  obtain ⟨run, hrun, ht⟩ := Option.bind_eq_some_iff.1 ht
  obtain ⟨⟨hloop, -⟩, hrun⟩ := Option.ite_none_right_eq_some.1 hrun
  have hrun := Option.some.inj hrun
  have hioc : run.ioc = s.run.ioc := by rw [← hrun]
  have hphase : run.phase ≠ .loop := by
    rw [← hrun]
    intro hphase
    cases hphase
  have hmap (fd : ℤ) : run.callback fd = s.run.callback fd := by
    rw [RunState.callback, hioc, RunState.callback]
  have hfree : ¬ s.Constructing := fun hs => h.not_loop_of_constructing hs hloop
  -- without a function of the pool nothing happens to it
  have hbeside (foreign : Bool) :
      Step s (.dispatch e a granted) { s with run := run, foreign := foreign } := by
    refine .beside (by simp) rfl hfree (fun _ => h.idle hloop) ?_
      (fun fd x hcb => Or.inl (hmap fd ▸ hcb))
      (iff_of_true trivial fun fd c q hcb => (hmap fd).trans hcb)
    rw [hioc]
    exact h.open_nonneg
  cases hx : s.run.ioc.runCallback e with
  | none =>
      rw [hx] at ht
      obtain rfl := Option.some.inj ht
      exact hbeside false
  | some x =>
      have hcb : s.run.callback e.2.fd = some x := hx
      rw [hx] at ht
      cases x with
      | connect c =>
          obtain ⟨hc, hfd⟩ := h.stored _ _ hcb
          have htake : { s with run := run, foreign := false }.take (.connectEvent c e.2 a)
            granted = some t := ht
          exact h.run_step (by simp) (by simp) hfree hioc hphase hcb (by simp) rfl
            (hfd ▸ Dbconnection.handleEvent_trace) h.consistent.ran_connect htake
      | query c q =>
          obtain ⟨hq, hfd⟩ := h.stored _ _ hcb
          have htake : { s with run := run, foreign := false }.take (.queryEvent c q e.2 a)
            granted = some t := ht
          exact h.run_step (by simp) (by simp) hfree hioc hphase hcb (by simp) rfl
            (hfd ▸ Dbconnection.handleEvent_trace) h.consistent.ran_query htake
      | other =>
          obtain rfl := Option.some.inj ht
          exact hbeside true

theorem isRequest_registers {a : Action PoolClosure} (ha : a.IsRequest) {fd : ℤ} {x : PoolClosure}
    {priority : EventPriority} (hreg : a.registers = some (fd, x, priority)) : x = .other := by
  cases a with
  | openFd fd => exact False.elim ha
  | closeFd fd => exact False.elim ha
  | removeTrack fd => cases hreg
  | asyncAccept fd cb granted => exact ha _ hreg
  | addTrack fd mask priority cb granted => exact ha _ hreg
  | modifyTrack fd mask priority cb granted => exact ha _ hreg

/-- The rest of the program, while the pool is not being constructed, acts on the reactor. -/
theorem Wired.act_step (h : s.Wired) {a : Action PoolClosure} (hu : s.UserCode)
    (ha : a.IsRequest) : Step s (.act a) { s with run := s.run.act a } := by
  refine .beside (by simp) rfl (fun hs => ?_) h.idle (fun fd hfd => ?_) (fun fd x hcb => ?_) ?_
  · have hpool := hu.2.1
    rw [PoolState.UserCode, hs] at hpool
    exact hpool
  · refine h.open_nonneg fd (RunState.openFds_act (fun fd' heq => ?_) hfd)
    rw [heq] at ha
    exact ha
  · rcases RunState.callback_act hcb with hold | ⟨priority, hreg⟩
    · exact Or.inl hold
    · exact Or.inr (isRequest_registers ha hreg)
  · constructor
    · intro hkeeps fd c q hcb
      have hmem : fd ∈ s.run.ioc.eventCallback.keys := ThreadSafeMap.mem_keys_iff.2 ⟨_, hcb⟩
      exact (hkeeps fd hmem (by rw [hcb]; rfl)).trans hcb
    · intro hkeeps fd hmem hquery
      obtain ⟨x, hx⟩ := ThreadSafeMap.mem_keys_iff.1 hmem
      have hcb : s.run.callback fd = some x := hx
      rw [hcb] at hquery
      cases x with
      | query c q => exact (hkeeps fd c q hcb).trans hcb.symm
      | connect c => cases hquery
      | other => cases hquery

/-- **A step does what `Step` says.** -/
theorem Wired.step (h : s.Wired) (ht : s.next l = some t) : Step s l t := by
  cases l with
  | loop l =>
      obtain ⟨⟨hl, hempty⟩, ht⟩ := Option.ite_none_right_eq_some.1 ht
      obtain ⟨run, hrun, rfl⟩ := Option.map_eq_some_iff.1 ht
      obtain ⟨hmap, hkernel⟩ := Process.loop_ioc hl (RunState.next_outcome hrun)
      have hcb (fd : ℤ) : run.callback fd = s.run.callback fd := by
        rw [RunState.callback, hmap, RunState.callback]
      refine .beside (by simp) rfl ?_ (fun _ => hempty) ?_ (fun fd x hx => Or.inl (hcb fd ▸ hx))
        (iff_of_true trivial fun fd c q hx => (hcb fd).trans hx)
      · intro hs
        rw [Constructing, hempty] at hs
        cases hs
      · intro fd hfd
        exact h.open_nonneg fd (hkernel ▸ hfd)
  | dispatch e a granted => exact h.dispatch_step ht
  | pool l granted =>
      obtain ⟨henabled, ht⟩ := Option.ite_none_right_eq_some.1 ht
      cases l with
      | construct memory start => exact h.construct_step henabled ht
      | send a => exact h.send_step ht
      | connectEvent c ev a => exact False.elim henabled
      | queryEvent c q ev a => exact False.elim henabled
      | _ =>
          obtain ⟨w, hn, rfl⟩ := Option.map_eq_some_iff.1 ht
          obtain ⟨hconn, hfly⟩ := h.consistent.aside rfl hn
          exact h.aside (by simp) henabled hconn hfly trivial hn
  | act a =>
      obtain ⟨⟨hu, ha⟩, ht⟩ := Option.ite_none_right_eq_some.1 ht
      obtain rfl := Option.some.inj ht
      exact h.act_step hu ha
  | openFd fd =>
      obtain ⟨⟨hfresh, hfree⟩, ht⟩ := Option.ite_none_right_eq_some.1 ht
      obtain rfl := Option.some.inj ht
      refine .beside (by simp) rfl hfree h.idle (fun fd' hfd' => ?_) (fun _ _ hcb => Or.inl hcb)
        (iff_of_true trivial fun _ _ _ hcb => hcb)
      rcases Finset.mem_insert.1 hfd' with rfl | hold
      · exact hfresh.1
      · exact h.open_nonneg fd' hold
  | closeFd fd =>
      obtain ⟨hfree, ht⟩ := Option.ite_none_right_eq_some.1 ht
      obtain rfl := Option.some.inj ht
      refine .beside (by simp) rfl hfree h.idle (fun fd' hfd' => ?_) (fun _ _ hcb => Or.inl hcb)
        (iff_of_true trivial fun _ _ _ hcb => hcb)
      exact h.open_nonneg fd' (RunState.openFds_act (by simp) hfd')

/-- Every event `reactorRun` can take is delivered: a function of the pool that is stored belongs to
    a connect or a query under way. -/
theorem Wired.dispatch_total (h : s.Wired) {e : QueuedEvent} (hloop : s.run.phase = .loop)
    (htop : s.run.ioc.IsTop e) (a : PqAnswers) (granted : Bool) :
    ∃ t, s.next (.dispatch e a granted) = some t := by
  have hempty := h.idle hloop
  have htake {s' : Driven} {l : PoolLabel} (hl : (s'.pool.next l).isSome) :
      ∃ t, s'.take l granted = some t := by
    obtain ⟨w, hw⟩ := Option.isSome_iff_exists.1 hl
    exact ⟨_, by rw [take, hw]; rfl⟩
  simp only [next, RunState.next, hloop, htop, and_self, if_true, Option.bind_some]
  cases hx : s.run.ioc.runCallback e with
  | none => exact ⟨_, rfl⟩
  | some x =>
      have hcb : s.run.callback e.2.fd = some x := hx
      cases x with
      | connect c =>
          obtain ⟨hc, -⟩ := h.stored _ _ hcb
          refine htake ?_
          simp only [PoolState.next, hempty, hc, and_self, if_true]
          split <;> rfl
      | query c q =>
          obtain ⟨hq, -⟩ := h.stored _ _ hcb
          refine htake ?_
          simp only [PoolState.next, hempty, hq, and_self, if_true]
          split <;> rfl
      | other => exact ⟨_, rfl⟩

/-! ## The invariant -/

/-- The descriptors after `PQconnectStart`. -/
theorem mem_openFds_opened {memory fd fd' : ℤ} :
    fd' ∈ (s.opened (.construct memory (some fd))).ioc.kernel.openFds ↔
      fd' ∈ s.run.ioc.kernel.openFds ∨ fd ≠ -1 ∧ fd' = fd := by
  show fd' ∈ (if fd = -1 then s.run else s.run.act (.openFd fd)).ioc.kernel.openFds ↔ _
  split
  · next heq => simp [heq]
  · next hne =>
      have hmem : fd' ∈ ((s.run.act (.openFd fd)).ioc.kernel.openFds) ↔
          fd' = fd ∨ fd' ∈ s.run.ioc.kernel.openFds := Finset.mem_insert
      rw [hmem, or_comm]
      simp [hne]

@[simp] theorem callback_opened {l : PoolLabel} {fd : ℤ} :
    (s.opened l).callback fd = s.run.callback fd := by
  unfold opened
  split
  · split <;> rfl
  · rfl

theorem phase_opened {l : PoolLabel} : (s.opened l).phase = s.run.phase := by
  unfold opened
  split
  · split <;> rfl
  · rfl

theorem Step.idle (h : s.Wired) (hstep : Step s l t) (hphase : t.run.phase = .loop) :
    t.pool.stack = [] := by
  cases hstep with
  | beside hl hpool hfree hidle => exact hpool ▸ hidle hphase
  | aside hn hconn hfly hlive hsocket hidle => exact hidle hphase
  | connects hn hcalls hs =>
      rw [RunState.phase_perform, phase_opened] at hphase
      exact absurd hphase (h.not_loop_of_constructing hs)
  | sends hn hcalls hs =>
      rw [RunState.phase_perform] at hphase
      rw [h.idle hphase] at hs
      cases hs
  | runs _ _ _ _ _ _ _ _ _ _ hno => exact absurd hphase hno

theorem Step.open_nonneg (h : s.Wired) (hstep : Step s l t) (fd : ℤ)
    (hfd : fd ∈ t.run.ioc.kernel.openFds) : 0 ≤ fd := by
  cases hstep with
  | beside hl hpool hfree hidle hopen => exact hopen fd hfd
  | aside => exact h.open_nonneg fd hfd
  | connects hn hcalls hs hnew =>
      rw [RunState.openFds_addTrack hcalls, mem_openFds_opened] at hfd
      rcases hfd with hold | ⟨hne, rfl⟩
      · exact h.open_nonneg fd hold
      · exact (hnew.resolve_left hne).1
  | sends hn hcalls =>
      rw [RunState.openFds_addTrack hcalls] at hfd
      exact h.open_nonneg fd hfd
  | runs _ _ _ _ _ _ _ _ _ hopen => exact h.open_nonneg fd (hopen hfd)

/-- **Functions of the pool serve what is under way**, and nothing else. -/
theorem Step.stored (h : s.Wired) (hstep : Step s l t) (fd : ℤ) (x : PoolClosure)
    (hcb : t.run.callback fd = some x) : t.pool.Serves fd x := by
  cases hstep with
  | beside hl hpool hfree hidle hopen hstored =>
      rcases hstored fd x hcb with hold | rfl
      · exact hpool ▸ h.stored fd x hold
      · trivial
  | aside hn hconn hfly hlive hsocket =>
      exact h.consistent.serves_mono (hconn ▸ List.Subset.refl _) (hfly ▸ List.Subset.refl _)
        hsocket (h.stored fd x hcb)
  | connects hn hcalls hs hfd hconn hfly hlive hsocket hnew =>
      dsimp only at hcb
      rw [RunState.callback_addTrack hcalls, callback_opened] at hcb
      split at hcb
      · next hadd =>
          obtain rfl := Option.some.inj hcb
          refine ⟨?_, hnew.trans hadd.2.symm⟩
          rw [hconn]
          simp
      · refine h.consistent.serves_mono ?_ (hfly ▸ List.Subset.refl _) hsocket (h.stored fd x hcb)
        rw [hconn]
        exact List.subset_append_left _ _
  | @sends a c q granted w effs mask hn hcalls hs hconn hfly hlive hsocket =>
      dsimp only at hcb
      rw [RunState.callback_addTrack hcalls] at hcb
      split at hcb
      · next hadd =>
          obtain rfl := Option.some.inj hcb
          refine ⟨?_, (hsocket c).trans hadd.2.symm⟩
          rw [hfly]
          exact List.mem_cons_self
      · refine h.consistent.serves_mono (hconn ▸ List.Subset.refl _) ?_ (fun c _ => hsocket c)
          (h.stored fd x hcb)
        rw [hfly]
        exact List.subset_cons_self _ _
  | runs hl hn hfree hx hpool hran hlive hsocket hmap =>
      rw [hmap] at hcb
      split at hcb
      · cases hcb
      · next hother =>
          have hy := h.stored fd x hcb
          refine hran.serves fd x hy fun hcalls heq => hother ⟨hcalls, ?_⟩
          subst heq
          exact hy.unique (h.stored _ _ hx) hpool

theorem Step.socket_open (h : s.Wired) (hstep : Step s l t) (hconstr : s.Constructing) (c : ℕ)
    (hc : t.pool.Live c) :
    (t.pool.conns c).socket = -1 ∨ (t.pool.conns c).socket ∈ t.run.ioc.kernel.openFds := by
  cases hstep with
  | beside hl hpool hfree => exact absurd hconstr hfree
  | aside hn hconn hfly hlive hsocket =>
      dsimp only at hc ⊢
      rw [hsocket c (hlive c hc)]
      exact h.socket_open hconstr c (hlive c hc)
  | @connects memory fd granted w effs mask hn hcalls hs hfd hconn hfly hlive hsocket hnew =>
      rw [RunState.openFds_addTrack hcalls, mem_openFds_opened]
      rcases hlive c hc with hold | rfl
      · dsimp only
        rw [hsocket c hold]
        exact (h.socket_open hs c hold).imp_right Or.inl
      · by_cases hbad : fd = -1
        · exact Or.inl (hnew.trans hbad)
        · exact Or.inr (Or.inr ⟨hbad, hnew⟩)
  | sends hn hcalls hs =>
      have hstack : s.pool.stack = [.construct s.pool.built] := hconstr
      rw [hstack] at hs
      simp at hs
  | runs hl hn hfree => exact absurd hconstr hfree

theorem Step.distinct (h : s.Wired) (hstep : Step s l t) : t.pool.DistinctSockets := by
  cases hstep with
  | beside hl hpool => exact hpool ▸ h.distinct
  | aside hn hconn hfly hlive hsocket => exact h.distinct.mono hlive hsocket
  | connects hn hcalls hs hfd hconn hfly hlive hsocket hnew =>
      refine h.distinct.extend hlive hsocket fun c hc hne heq => ?_
      -- the new socket was not open before, and those of the others were
      have hmem := (h.socket_open hs c hc).resolve_left hne
      rw [heq, hnew] at hne hmem
      exact (hfd.resolve_left hne).2 hmem
  | sends hn hcalls hs hconn hfly hlive hsocket => exact h.distinct.mono hlive fun c _ => hsocket c
  | runs _ _ _ _ _ _ hlive hsocket => exact h.distinct.mono hlive fun c _ => hsocket c

/-- The pool's share of a step: a submission, another step of it, or none. -/
theorem Step.pool (hstep : Step s l t) :
    (∃ query client granted, l = .pool (.submit query client) granted ∧
      s.pool.next (.submit query client) = some t.pool) ∨
    (∀ query client granted, l ≠ .pool (.submit query client) granted) ∧
      (t.pool = s.pool ∨
        ∃ l, (∀ query client, l ≠ .submit query client) ∧ s.pool.next l = some t.pool) := by
  cases hstep with
  | beside hl hpool => exact Or.inr ⟨hl, Or.inl hpool⟩
  | @aside l granted w hn =>
      by_cases hl : ∃ query client, l = .submit query client
      · obtain ⟨query, client, rfl⟩ := hl
        exact Or.inl ⟨query, client, granted, rfl, hn⟩
      · have hno (query client : String) : l ≠ .submit query client :=
          fun heq => hl ⟨query, client, heq⟩
        refine Or.inr ⟨fun query client granted' heq => hno query client ?_, Or.inr ⟨l, hno, hn⟩⟩
        exact (DrivenLabel.pool.inj heq).1
  | connects hn => exact Or.inr ⟨by simp, Or.inr ⟨_, by simp, hn⟩⟩
  | sends hn => exact Or.inr ⟨by simp, Or.inr ⟨_, by simp, hn⟩⟩
  | runs hl hn => exact Or.inr ⟨by simp, Or.inr ⟨_, hl, hn⟩⟩

/-- **Every step keeps the invariant.** -/
theorem Wired.next (h : s.Wired) (ht : s.next l = some t) : t.Wired := by
  have hstep := h.step ht
  have hpool : t.pool = s.pool ∨ ∃ l, s.pool.next l = some t.pool := by
    rcases hstep.pool with ⟨query, client, granted, -, hn⟩ | ⟨-, hsame | ⟨l, -, hn⟩⟩
    · exact Or.inr ⟨_, hn⟩
    · exact Or.inl hsame
    · exact Or.inr ⟨l, hn⟩
  have hrest : t.pool.Consistent ∧ t.pool.DrainsMember ∧ (t.Constructing → s.Constructing) := by
    rcases hpool with hsame | ⟨l, hn⟩
    · rw [Constructing, hsame]
      exact ⟨h.consistent, h.drains, id⟩
    · exact ⟨h.consistent.next hn, h.drains.next h.consistent hn,
        h.consistent.constructing_next hn⟩
  exact {
    consistent := hrest.1
    drains := hrest.2.1
    idle := hstep.idle h
    open_nonneg := hstep.open_nonneg h
    stored := hstep.stored h
    socket_open := fun hs => hstep.socket_open h (hrest.2.2 hs)
    distinct := hstep.distinct h }

theorem wired_init (h : drivenMachine.init s) : s.Wired := by
  obtain ⟨⟨connectionInfo, poolSize, hpool⟩, hu, -, hopen, hother⟩ := h
  have hnone (c : ℕ) : ¬ s.pool.Live c := by
    rw [hpool]
    rintro (hc | hc) <;> cases hc
  refine ⟨?_, ?_, fun hphase => ?_, hopen, fun fd x hcb => ?_, fun _ c hc => absurd hc (hnone c),
    fun c _ hc => absurd hc (hnone c)⟩
  · rw [hpool]
    exact PoolState.consistent_start connectionInfo poolSize
  · rw [hpool]
    intro hdrain
    simp [PoolState.start] at hdrain
  · rw [RunState.UserCode, hphase] at hu
    exact False.elim hu
  · rw [hother fd x hcb]
    trivial

/-! ## Queries on a connection -/

/-- The function of every query in flight is stored under its connection's socket. -/
def Tracked (s : Driven) : Prop :=
  ∀ c q, (c, q) ∈ s.pool.flying → s.run.callback (s.pool.conns c).socket = some (.query c q)

/-- The function of a query in flight is not stored. -/
def Lost (s : Driven) : Prop :=
  ∃ c q, (c, q) ∈ s.pool.flying ∧ ∀ fd, s.run.callback fd ≠ some (.query c q)

/-- The query being handed to a connection is not in flight yet. -/
theorem Wired.not_flying_of_sending (h : s.Wired) {c c' : ℕ} {q q' : PendingQuery}
    (hs : .send c q ∈ s.pool.stack) (hq : (c', q') ∈ s.pool.flying) : c' ≠ c :=
  h.consistent.flying_ne_sending hs (c', q') hq

/-- **A step within the guard** leaves every query in flight tracked. -/
theorem Wired.tracked_next (h : s.Wired) (htracked : s.Tracked) (hstep : Step s l t)
    (hG : s.KeepsTrack l) : t.Tracked := by
  intro c q hq
  cases hstep with
  | beside hl hpool hfree hidle hopen hstored hkeeps =>
      rw [hpool] at hq ⊢
      exact hkeeps.1 hG _ c q (htracked c q hq)
  | aside hn hconn hfly hlive hsocket =>
      dsimp only at hq ⊢
      rw [hfly] at hq
      rw [hsocket c (h.consistent.live_of_flying hq)]
      exact htracked c q hq
  | @connects memory fd granted w effs mask hn hcalls hs hfd hconn hfly hlive hsocket hnew =>
      dsimp only at hq ⊢
      rw [hfly] at hq
      have hcl := h.consistent.live_of_flying hq
      rw [hsocket c hcl, RunState.callback_addTrack hcalls, callback_opened, if_neg]
      · exact htracked c q hq
      · -- the new socket was not open before, and those of the others were
        rintro ⟨⟨-, hopen, -⟩, heq⟩
        rw [mem_openFds_opened] at hopen
        have hnonneg : (0 : ℤ) ≤ fd := by
          rcases hopen with hold | ⟨hne, -⟩
          · exact h.open_nonneg fd hold
          · exact (hfd.resolve_left hne).1
        have hne : fd ≠ -1 := by omega
        have hmem := (h.socket_open hs c hcl).resolve_left (heq ▸ hne)
        rw [heq] at hmem
        exact (hfd.resolve_left hne).2 hmem
  | @sends a c' q' granted w effs mask hn hcalls hs hconn hfly hlive hsocket hkeeps =>
      have hcan := hkeeps.1 hG
      dsimp only at hq ⊢
      rw [hsocket c, RunState.callback_addTrack hcalls]
      rw [hfly] at hq
      rcases List.mem_cons.1 hq with heq | hq
      · obtain ⟨rfl, rfl⟩ := Prod.mk.inj heq
        exact if_pos ⟨hcan, rfl⟩
      · rw [if_neg]
        · exact htracked c q hq
        · rintro ⟨-, heq⟩
          have hnonneg := h.open_nonneg _ hcan.2.1
          have hsame := h.distinct c c' (h.consistent.live_of_flying hq)
            (h.consistent.live_of_sending hs) heq (by omega)
          exact h.not_flying_of_sending hs hq hsame
  | @runs e a granted t l x effs hl hn hfree hx hpool hran hlive hsocket hmap =>
      obtain ⟨hold, hdone⟩ := hran.flying c q hq
      have hcb := htracked c q hold
      rw [hsocket c, hmap, if_neg]
      · exact hcb
      · rintro ⟨hcalls, heq⟩
        rw [heq, hx] at hcb
        exact hdone hcalls (Option.some.inj hcb).symm

/-- **A step outside the guard** loses a query. -/
theorem Wired.lost_of (h : s.Wired) (hstep : Step s l t) (hG : ¬ s.KeepsTrack l) : t.Lost := by
  cases hstep with
  | beside hl hpool hfree hidle hopen hstored hkeeps =>
      rw [hkeeps] at hG
      push Not at hG
      obtain ⟨fd, c, q, hcb, hgone⟩ := hG
      have hserves := h.stored fd _ hcb
      refine ⟨c, q, hpool ▸ hserves.1, fun fd' hcb' => ?_⟩
      have hold := (hstored fd' _ hcb').resolve_right nofun
      obtain rfl := hserves.unique (h.stored fd' _ hold) nofun
      exact hgone hcb'
  | aside _ _ _ _ _ _ hkeeps => exact absurd hkeeps hG
  | connects => exact absurd trivial hG
  | @sends a c q granted w effs mask hn hcalls hs hconn hfly hlive hsocket hkeeps =>
      rw [hkeeps] at hG
      refine ⟨c, q, ?_, fun fd hcb => ?_⟩
      · dsimp only
        rw [hfly]
        exact List.mem_cons_self
      · dsimp only at hcb
        rw [RunState.callback_addTrack hcalls, if_neg fun hadd => hG hadd.1] at hcb
        exact h.not_flying_of_sending hs (h.stored fd _ hcb).1 rfl
  | runs => exact absurd trivial hG

/-- **A lost query stays lost.** -/
theorem Wired.lost_next (h : s.Wired) (hlost : s.Lost) (hstep : Step s l t) : t.Lost := by
  obtain ⟨c, q, hq, hnone⟩ := hlost
  cases hstep with
  | beside hl hpool hfree hidle hopen hstored =>
      refine ⟨c, q, hpool ▸ hq, fun fd hcb => ?_⟩
      exact hnone fd ((hstored fd _ hcb).resolve_right nofun)
  | aside hn hconn hfly => exact ⟨c, q, hfly ▸ hq, hnone⟩
  | connects hn hcalls hs hfd hconn hfly =>
      refine ⟨c, q, hfly ▸ hq, fun fd' hcb => ?_⟩
      dsimp only at hcb
      rw [RunState.callback_addTrack hcalls, callback_opened] at hcb
      split at hcb
      · cases hcb
      · exact hnone fd' hcb
  | @sends a c' q' granted w effs mask hn hcalls hs hconn hfly =>
      refine ⟨c, q, hfly ▸ List.mem_cons_of_mem _ hq, fun fd' hcb => ?_⟩
      dsimp only at hcb
      rw [RunState.callback_addTrack hcalls] at hcb
      split at hcb
      · cases hcb
        exact h.not_flying_of_sending hs hq rfl
      · exact hnone fd' hcb
  | @runs e a granted t l x effs hl hn hfree hx hpool hran hlive hsocket hmap =>
      have hne : .query c q ≠ x := by
        rintro rfl
        exact hnone _ hx
      refine ⟨c, q, (hran.serves _ (.query c q) ⟨hq, rfl⟩ fun _ => hne).1, fun fd hcb => ?_⟩
      rw [hmap] at hcb
      split at hcb
      · cases hcb
      · exact hnone fd hcb

/-! ## Runs -/

variable {tr : List (Driven × DrivenLabel)}

theorem run_wired (h : drivenMachine.Run tr s) : s.Wired :=
  Reachable.invariant ⟨tr, h⟩ (fun _ => wired_init) fun _ _ _ hs ht => hs.next ht

/-- A run within the guard tracks its queries. -/
theorem run_tracked (h : drivenMachine.Run tr s) (hG : Guarded KeepsTrack tr) : s.Tracked := by
  induction h with
  | start h =>
      obtain ⟨⟨connectionInfo, poolSize, hpool⟩, -⟩ := h
      intro c q hq
      rw [hpool] at hq
      cases hq
  | step hr ht ih =>
      obtain ⟨hkeeps, hrest⟩ := guarded_cons.1 hG
      have hw := run_wired hr
      exact hw.tracked_next (ih hrest) (hw.step ht) hkeeps

/-- A run outside the guard has lost one. -/
theorem run_lost (h : drivenMachine.Run tr s) (hG : ¬ Guarded KeepsTrack tr) : s.Lost := by
  induction h with
  | start h => exact absurd (fun _ hx => by cases hx) hG
  | @step tr s t l hr ht ih =>
      have hw := run_wired hr
      by_cases hrest : Guarded KeepsTrack tr
      · exact hw.lost_of (hw.step ht) fun hkeeps => hG (guarded_cons.2 ⟨hkeeps, hrest⟩)
      · exact hw.lost_next (ih hrest) (hw.step ht)

/-- **What waits is attended to**, unless the last submission found no connection. -/
theorem run_attended (h : drivenMachine.Run tr s) : lastAlone tr = false ↔ s.pool.Attended := by
  induction h with
  | start h =>
      obtain ⟨⟨connectionInfo, poolSize, hpool⟩, -⟩ := h
      rw [hpool]
      exact iff_of_true rfl (Or.inl rfl)
  | @step tr s t l hr ht ih =>
      have hw := run_wired hr
      rcases (hw.step ht).pool with ⟨query, client, granted, rfl, hn⟩ | ⟨hl, hidles⟩
      · rw [hw.consistent.attended_submit hw.drains hn]
        exact decide_eq_false_iff_not
      · have hlast : lastAlone ((s, l) :: tr) = lastAlone tr := by
          cases l with
          | pool l granted =>
              cases l with
              | submit query client => exact absurd rfl (hl _ _ _)
              | _ => rfl
          | _ => rfl
        rw [hlast, ih]
        rcases hidles with hsame | ⟨l, hl, hn⟩
        · rw [hsame]
        · exact (hw.consistent.attended_next hw.drains hl hn).symm

/-- Without functions stored, the queries in flight are lost. -/
theorem Exits.flying_iff (he : s.Exits) (h : drivenMachine.Run tr s) :
    s.pool.flying = [] ↔ Guarded KeepsTrack tr := by
  have hnone (fd : ℤ) : s.run.callback fd = none := by
    have hkeys := Finset.card_eq_zero.1 he.2.2
    exact ThreadSafeMap.get_eq_none_iff.2 (by rw [hkeys]; exact Finset.notMem_empty fd)
  constructor
  · intro hfly
    by_contra hG
    obtain ⟨c, q, hq, -⟩ := run_lost h hG
    rw [hfly] at hq
    cases hq
  · intro hG
    rw [List.eq_nil_iff_forall_not_mem]
    rintro ⟨c, q⟩ hq
    have hcb := run_tracked h hG c q hq
    rw [hnone] at hcb
    cases hcb

end Driven

open Driven

/-- **When a dead reactor has no work left.** When `reactorRun` returns 0, every query ever passed
    to `DBpooler::sendQuery` has had its callback invoked, exactly if every query libpq took could
    be tracked and stayed so, and the last query was submitted when the pool had a connection. -/
theorem exit_completed_iff {tr : List (Driven × DrivenLabel)} {s : Driven}
    (h : drivenMachine.Run tr s) (he : s.Exits) :
    s.Completed ↔ Guarded KeepsTrack tr ∧ lastAlone tr = false := by
  have hw := run_wired h
  have hempty := hw.idle he.1
  have hdone : s.Completed ↔ s.pool.pool.pendingQueries = [] ∧ s.pool.flying = [] :=
    hw.consistent.completed_iff hempty
  rw [hdone, ← he.flying_iff h, run_attended h, and_comm]
  refine and_congr_right fun hfly => ⟨Or.inl, ?_⟩
  rintro (hpending | huse | hdrain)
  · exact hpending
  · refine absurd ?_ huse
    simp [PoolState.inUse, PoolState.sending, PoolState.calling, hempty, hfly]
  · rw [hempty] at hdrain
    cases hdrain

/-- The constructor of a pool of one is about to start its connect. -/
def onePool : Driven := ⟨⟨.new 8 .start, .outside, []⟩, .start "db" 1, true⟩

def constructOne : List DrivenLabel :=
  [.pool (.construct 0 (some 5)) true, .pool .constructed true]

/-- `reactorRun` takes the only connect to its success. -/
def connectOne : List DrivenLabel :=
  [.loop .enter, .loop (.wait [⟨epollOut, 5⟩]),
    .dispatch (.helperSock, ⟨epollOut, 5⟩) connectOk true, .loop .finish]

def submitOne : DrivenLabel := .pool (.submit "q0" "a") true

/-- `reactorRun` takes the query to its result. -/
def serveOne : List DrivenLabel :=
  [.pool (.send ⟨1, 0⟩) true, .loop .enter, .loop (.wait [⟨epollIn, 5⟩]),
    .dispatch (.helperSock, ⟨epollIn, 5⟩) queryOk true, .pool .ret true, .pool .loop true,
    .loop .finish]

theorem onePool_init : drivenMachine.init onePool := by
  refine ⟨⟨"db", 1, rfl⟩, trivial, rfl, fun fd hfd => ?_, fun fd x hcb => ?_⟩
  · exact absurd hfd (Finset.notMem_empty fd)
  · have hempty : (∅ : ThreadSafeMap ℤ PoolClosure).get fd = some x := hcb
    simp at hempty

/-- The query is submitted after the connect. -/
theorem exit_completed_served : ∃ tr s, drivenMachine.Run tr s ∧ s.Exits ∧ s.Completed ∧
    history Obs.submitted? s.pool.log = [⟨"q0", "a", 0⟩] := by
  have hrun : (((drivenMachine.restrict KeepsTrack).exec onePool
      (constructOne ++ connectOne ++ .loop .leave :: submitOne :: serveOne)).map
      fun s => (decide s.Exits, s.pool.pool.pendingQueries, history Obs.submitted? s.pool.log))
      = some (true, [], [⟨"q0", "a", 0⟩]) := by decide +kernel
  obtain ⟨s, hs, hstate⟩ := Option.map_eq_some_iff.1 hrun
  simp only [Prod.mk.injEq, decide_eq_true_eq] at hstate
  obtain ⟨hexits, hpending, hsubmitted⟩ := hstate
  obtain ⟨tr, hr, hG⟩ := Machine.exists_guarded_run onePool_init hs
  have hlast := (run_attended hr).2 (Or.inl hpending)
  exact ⟨tr, s, hr, hexits, (exit_completed_iff hr hexits).2 ⟨hG, hlast⟩, hsubmitted⟩

/-- The query is submitted before the connect has succeeded: it waits beside an idle connection when
    `reactorRun` returns 0. -/
theorem dead_reactor_with_query : ∃ s, drivenMachine.Reachable s ∧ s.Exits ∧ ¬ s.Completed ∧
    s.pool.pool.pendingQueries = [⟨"q0", "a", 0⟩] ∧ s.pool.pool.availableConns = [0] := by
  have hrun : ((drivenMachine.exec onePool (constructOne ++ submitOne :: connectOne)).map
      fun s => ((decide s.Exits, decide s.Completed), s.pool.pool.pendingQueries,
        s.pool.pool.availableConns))
      = some ((true, false), [⟨"q0", "a", 0⟩], [0]) := by decide +kernel
  obtain ⟨s, hs, hstate⟩ := Option.map_eq_some_iff.1 hrun
  simp only [Prod.mk.injEq, decide_eq_true_eq, decide_eq_false_iff_not] at hstate
  obtain ⟨⟨hexits, hnot⟩, hpending, hfree⟩ := hstate
  exact ⟨s, (Reachable.start onePool_init).exec hs, hexits, hnot, hpending, hfree⟩

end FiberConn
