import FiberConn.Connecting
import FiberConn.Lifetimes.Proofs

set_option autoImplicit false

/-! # Proofs about connecting

`PollOutcome` says what an event does while the connect is under way. As long as the law has held,
the connection's `socket` field is libpq's socket, and each outcome keeps the law exactly under the
part of `Steady` that is about it. -/

namespace FiberConn

/-! ## Directions -/

/-- The mask `handleEvent` rearms with. -/
def Direction.mask : Direction → EventMask
  | .reading => readMask
  | .writing => writeMask

theorem Direction.armedBy_mask (d : Direction) : d.ArmedBy d.mask := by
  cases d <;> exact ⟨by decide, by decide⟩

/-- A mask waits for one direction at most. -/
theorem Direction.ArmedBy.unique {d d' : Direction} {mask : EventMask} (h : d.ArmedBy mask)
    (h' : d'.ArmedBy mask) : d = d' := by
  cases d <;> cases d' <;> first
    | rfl
    | exact absurd h'.2 h.1

/-! ## An event during a connect -/

namespace Dbconnection

variable {c : Dbconnection} {ev : EpollEvent} {a : PqAnswers}

inductive PollOutcome (c : Dbconnection) (ev : EpollEvent) (a : PqAnswers) :
    Dbconnection × List Effect → Prop
  | broken (herr : ev.has epollErr = true) :
      PollOutcome c ev a ({ c with isError := true }, [.removeTrack c.socket, .callback])
  | asks {d : Direction} (herr : ev.has epollErr = false) (hd : a.connectPoll.asks = some d) :
      PollOutcome c ev a (c, [.pq (.connectPoll a.connectPoll),
        .modifyTrack c.socket d.mask .helperSock])
  | idles (herr : ev.has epollErr = false) (hpoll : a.connectPoll = .active) :
      PollOutcome c ev a (c, [.pq (.connectPoll .active)])
  | fails (herr : ev.has epollErr = false) (hpoll : a.connectPoll = .failed) :
      PollOutcome c ev a ({ c with isError := true },
        [.pq (.connectPoll .failed), .removeTrack c.socket, .callback])
  | succeeds (herr : ev.has epollErr = false) (hpoll : a.connectPoll = .ok) :
      PollOutcome c ev a ({ c with connectionState := .connected },
        [.pq (.connectPoll .ok), .removeTrack c.socket, .pq (.setnonblocking a.setnonblocking),
          .callback])

theorem handleEvent_poll (h : c.connectionState = .connecting) :
    PollOutcome c ev a (c.handleEvent ev a) := by
  by_cases herr : ev.has epollErr = true
  · rw [handleEvent, if_pos herr]
    exact .broken herr
  rw [handleEvent, if_neg herr, h]
  have hok : ev.has epollErr = false := by simpa using herr
  dsimp only [handleConnecting]
  cases hpoll : a.connectPoll with
  | reading =>
      have ho := @PollOutcome.asks c ev a .reading hok (by rw [hpoll]; rfl)
      rw [hpoll] at ho
      exact ho
  | writing =>
      have ho := @PollOutcome.asks c ev a .writing hok (by rw [hpoll]; rfl)
      rw [hpoll] at ho
      exact ho
  | failed => exact .fails hok hpoll
  | ok => exact .succeeds hok hpoll
  | active => exact .idles hok hpoll

end Dbconnection

/-! ## The reactor -/

namespace RunState

variable {κ : Type} {s : RunState κ} {fd : ℤ}

/-- `modifyTrack` of a descriptor that epoll does not have, or that the kernel refuses. -/
theorem modifyTrack_refused {mask : EventMask} {priority : EventPriority} {cb : κ} {granted : Bool}
    (h : ¬ (granted = true ∧ fd ∈ s.ioc.kernel.interest.keys)) :
    (s.act (.modifyTrack fd mask priority cb granted)).ioc = s.ioc := by
  show (s.ioc.modifyTrack fd mask priority cb granted).1 = s.ioc
  unfold IOReactor.modifyTrack Kernel.modifyEpollInterest
  rw [dif_neg h]
  rfl

theorem mask_modifyTrack {mask : EventMask} {priority : EventPriority} {cb : κ}
    (h : fd ∈ s.ioc.kernel.interest.keys) :
    (s.act (.modifyTrack fd mask priority cb true)).ioc.kernel.interest.lookup fd = some mask := by
  show ((s.ioc.modifyTrack fd mask priority cb true).1.kernel.interest).lookup fd = some mask
  unfold IOReactor.modifyTrack Kernel.modifyEpollInterest
  rw [dif_pos ⟨rfl, h⟩]
  exact Finmap.lookup_insert _

end RunState

namespace ConnectRun

variable {s t : ConnectRun} {l : ConnectLabel} {fd : ℤ} {next : Option ℤ}

/-- A new socket changes nothing in the callback map. -/
@[simp] theorem callback_replaced : (s.replaced next).callback fd = s.run.callback fd := by
  cases next <;> rfl

@[simp] theorem callback_opened {start : Option (ℤ × Bool)} :
    (s.opened start).callback fd = s.run.callback fd := by
  unfold opened
  split
  · split <;> rfl
  · rfl

/-- A socket that libpq has replaced is gone from epoll, also under its old number. -/
theorem mask_replaced : (s.replaced (some fd)).ioc.kernel.interest.lookup s.socket = none := by
  show (s.run.ioc.kernel.closeConnection s.socket).1.interest.lookup s.socket = none
  rw [Finmap.lookup_eq_none, ← Finmap.mem_keys, Kernel.closeConnection_keys]
  exact Finset.notMem_erase _ _

/-! ## The invariant -/

/-- What is known while the law holds. -/
structure Known (s : ConnectRun) : Prop where
  law : s.Follows
  conn : s.Waiting → s.conn.connectionState = .connecting ∧ s.conn.isError = false ∧
    s.conn.socket = s.socket
  unfailed : s.Waiting → .failed ∉ s.polls
  unbegun : s.begun = false → s.conn.isError = false ∧ s.polls = [] ∧ s.called = none

/-- Before `connectDb` and after the callback the reactor holds nothing of the connect. -/
theorem Follows.not_stored (h : s.Follows) (hw : ¬ s.Waiting) :
    s.run.callback fd ≠ some .connect := by
  intro hcb
  exact hw (h.only fd hcb).1

/-- An event comes for a connect under way, on libpq's socket. -/
theorem Follows.of_event (h : s.Follows) {ev : EpollEvent}
    (hcb : s.run.callback ev.fd = some .connect) : s.Waiting ∧ ev.fd = s.socket :=
  h.only ev.fd hcb

/-- Untracking the socket leaves nothing of the connect in the reactor. -/
theorem Follows.untracked (h : s.Follows) {run : RunState Tracker}
    (hrun : ∀ fd, run.callback fd = s.run.callback fd) :
    (run.act (.removeTrack s.socket)).callback fd ≠ some .connect := by
  rw [RunState.callback_removeTrack, hrun]
  split
  · exact nofun
  · next hne =>
      intro hcb
      exact hne (h.only fd hcb).2

/-- A connect that has been answered keeps the law, if the answer is right. -/
theorem Follows.of_called (hrun : ∀ fd, t.run.callback fd ≠ some .connect) (isError : Bool)
    (hcalled : t.called = some isError) (hsuccess : isError = false ↔ .ok ∈ t.polls)
    (hfailure : isError = true → t.bad = true ∨ .failed ∈ t.polls) : t.Follows := by
  have hnot : ¬ t.Waiting := by
    intro hw
    rw [hw.2] at hcalled
    cases hcalled
  refine ⟨fun hw => absurd hw hnot, fun fd hcb => absurd hcb (hrun fd), fun hw => absurd hw hnot,
    ?_, ?_⟩
  · rw [hcalled, Option.some.injEq, hsuccess]
  · intro hc
    exact hfailure (Option.some.inj (hcalled.symm.trans hc))

theorem Known.of_called (h : t.Follows) (isError : Bool) (hcalled : t.called = some isError)
    (hbegun : t.begun = true) : t.Known := by
  have hnot : ¬ t.Waiting := by
    intro hw
    rw [hw.2] at hcalled
    cases hcalled
  refine ⟨h, fun hw => absurd hw hnot, fun hw => absurd hw hnot, fun hb => ?_⟩
  rw [hbegun] at hb
  cases hb

/-! ## The start -/

/-- `addTrack` on a descriptor that can be added arms it. -/
theorem mask_addTrack {κ : Type} {run : RunState κ} {cb : κ} {granted : Bool} {effs : List Effect}
    {mask : EventMask} {priority : EventPriority} (hcalls : ∀ e ∈ effs, e.IsCall)
    (hcan : run.CanAdd fd granted) :
    ((run.perform cb granted (effs ++ [.addTrack fd mask priority])).run).ioc.kernel.interest.lookup
      fd = some mask := by
  rw [RunState.perform, List.foldl_append, Performed.foldl_calls hcalls]
  show ((run.ioc.addTrack fd mask priority cb granted).1.kernel.interest).lookup fd = some mask
  unfold IOReactor.addTrack Kernel.addEpollInterest
  split
  · exact Finmap.lookup_insert _
  · next hno => exact absurd hcan hno

/-- **The start** follows libpq exactly if its socket can be tracked. -/
theorem Known.start_iff (h : s.Known) (hb : s.begun = false) {conninfo : String}
    {start : Option (ℤ × Bool)} {granted : Bool} :
    s.Steady (.start conninfo start granted) ↔ (s.start conninfo start granted).Follows := by
  have hidle : ¬ s.Waiting := by
    intro hw
    exact absurd (hb.symm.trans hw.1) Bool.false_ne_true
  obtain ⟨herr, hpolls, hcalled⟩ := h.unbegun hb
  cases start with
  | none =>
      refine iff_of_true (fun x hx => by cases hx) ?_
      refine .of_called (fun fd => h.law.not_stored hidle) true rfl ?_ fun _ => Or.inl rfl
      show true = false ↔ .ok ∈ s.polls
      simp [hpolls]
  | some x =>
      obtain ⟨fd, bad⟩ := x
      have hcalls : ∀ e ∈ [Effect.pq (.connectStart conninfo true)], e.IsCall := by
        simp [Effect.IsCall]
      have hnew : (s.opened (some (fd, bad))).callback fd ≠ some .connect := by
        rw [callback_opened]
        exact h.law.not_stored hidle
      have hstored : (s.start conninfo (some (fd, bad)) granted).run.callback fd = some .connect ↔
          (s.opened (some (fd, bad))).CanAdd fd granted :=
        RunState.callback_perform_addTrack hcalls hnew
      have hsteady : s.Steady (.start conninfo (some (fd, bad)) granted) ↔
          (s.opened (some (fd, bad))).CanAdd fd granted := by
        simp [Steady]
      rw [hsteady]
      constructor
      · intro hcan
        refine ⟨fun _ => hstored.2 hcan, fun fd' hcb => ?_, fun _ => ?_, ?_, fun hc => ?_⟩
        · have hmap : (s.start conninfo (some (fd, bad)) granted).run.callback fd' = _ :=
            RunState.callback_addTrack hcalls fd'
          rw [hmap] at hcb
          split at hcb
          · next hfd => exact ⟨⟨rfl, rfl⟩, hfd.2⟩
          · rw [callback_opened] at hcb
            exact absurd hcb (h.law.not_stored hidle)
        · exact ⟨writeMask, mask_addTrack hcalls hcan, Direction.armedBy_mask .writing⟩
        · show none = some false ↔ .ok ∈ s.polls
          simp [hpolls]
        · cases hc
      · intro hlaw
        exact hstored.1 (hlaw.tracked ⟨rfl, rfl⟩)

theorem Known.start (h : s.Known) (hb : s.begun = false) {conninfo : String}
    {start : Option (ℤ × Bool)} {granted : Bool}
    (hG : s.Steady (.start conninfo start granted)) : (s.start conninfo start granted).Known := by
  have hlaw := (h.start_iff hb).1 hG
  obtain ⟨herr, hpolls, -⟩ := h.unbegun hb
  cases start with
  | none => exact .of_called hlaw true rfl rfl
  | some x =>
      refine ⟨hlaw, fun _ => ⟨rfl, herr, rfl⟩, fun _ => ?_, nofun⟩
      show .failed ∉ s.polls
      simp [hpolls]

/-! ## An event -/

/-- What an event does to a connect under way. -/
inductive Handled (s : ConnectRun) (ev : EpollEvent) (a : PqAnswers) (next : Option ℤ)
    (granted : Bool) : ConnectRun → Prop
  | broken (herr : ev.has epollErr = true) :
      Handled s ev a next granted
        { s with
          run := s.run.act (.removeTrack s.conn.socket)
          conn := { s.conn with isError := true }
          called := some true }
  | asks {d : Direction} (herr : ev.has epollErr = false) (hd : a.connectPoll.asks = some d) :
      Handled s ev a next granted
        { s with
          run := (s.replaced next).act
            (.modifyTrack s.conn.socket d.mask .helperSock .connect granted)
          socket := next.getD s.socket
          asked := d
          polls := a.connectPoll :: s.polls }
  | idles (herr : ev.has epollErr = false) (hpoll : a.connectPoll = .active) :
      Handled s ev a next granted
        { s with
          run := s.replaced next
          socket := next.getD s.socket
          polls := .active :: s.polls }
  | fails (herr : ev.has epollErr = false) (hpoll : a.connectPoll = .failed) :
      Handled s ev a next granted
        { s with
          run := (s.replaced next).act (.removeTrack s.conn.socket)
          conn := { s.conn with isError := true }
          socket := next.getD s.socket
          polls := .failed :: s.polls
          called := some true }
  | succeeds (herr : ev.has epollErr = false) (hpoll : a.connectPoll = .ok) :
      Handled s ev a next granted
        { s with
          run := (s.replaced next).act (.removeTrack s.conn.socket)
          conn := { s.conn with connectionState := .connected }
          socket := next.getD s.socket
          polls := .ok :: s.polls
          called := some false }

theorem Known.handled (h : s.Known) (hw : s.Waiting) {ev : EpollEvent} {a : PqAnswers}
    {granted : Bool} : Handled s ev a next granted (s.handle ev a next granted) := by
  obtain ⟨hstate, herr, -⟩ := h.conn hw
  have ho : Dbconnection.PollOutcome s.conn ev a _ := Dbconnection.handleEvent_poll hstate
  unfold handle
  generalize s.conn.handleEvent ev a = r at ho ⊢
  cases ho with
  | broken hev => exact @Handled.broken s ev a next granted hev
  | asks hev hd =>
      have hasked := @Handled.asks s ev a next granted _ hev hd
      dsimp only [List.filterMap, Effect.poll?]
      rw [hd]
      exact hasked
  | idles hev hpoll => exact @Handled.idles s ev a next granted hev hpoll
  | fails hev hpoll => exact @Handled.fails s ev a next granted hev hpoll
  | succeeds hev hpoll =>
      have hs := @Handled.succeeds s ev a next granted hev hpoll
      rw [← herr] at hs
      exact hs

/-- A connect that goes on has kept its socket if it still follows libpq. -/
theorem Known.kept (h : s.Known) (ht : t.Follows) (htw : t.Waiting)
    (hsocket : t.socket = next.getD s.socket)
    (hcb : ∀ fd, t.run.callback fd = some .connect → s.run.callback fd = some .connect)
    (hmask : next ≠ none → t.mask s.socket = none) : next = none := by
  cases next with
  | none => rfl
  | some fd =>
      -- the only function stored is under the old socket, which epoll has forgotten
      have hstored := ht.tracked htw
      rw [hsocket, Option.getD_some] at hstored
      have hold := (h.law.only fd (hcb fd hstored)).2
      obtain ⟨mask, hm, -⟩ := ht.armed htw
      rw [hsocket, Option.getD_some, hold, hmask nofun] at hm
      cases hm

/-- Rearming the socket for what libpq asks for. -/
theorem Known.follows_asks (h : s.Known) (hw : s.Waiting) {d : Direction} {status : PollingStatus}
    {granted : Bool} (hgrant : granted = true ∨ s.asked = d) (hok : .ok ∉ status :: s.polls) :
    Follows
      { s with
        run := s.run.act (.modifyTrack s.conn.socket d.mask .helperSock .connect granted)
        asked := d
        polls := status :: s.polls } := by
  obtain ⟨-, -, hsocket⟩ := h.conn hw
  obtain ⟨mask, hm, harmed⟩ := h.law.armed hw
  rw [hsocket]
  have hmem : s.socket ∈ s.run.ioc.kernel.interest.keys := by
    rw [Finmap.mem_keys]
    exact Finmap.mem_of_lookup_eq_some hm
  refine ⟨fun _ => ?_, fun fd hcb => ?_, fun _ => ?_, ?_, fun hc => ?_⟩
  · have hquiet : ∀ e ∈ [Effect.modifyTrack s.socket d.mask .helperSock], e.Quiet s.socket := by
      simp [Effect.Quiet]
    exact Performed.keep_foldl (p := ⟨s.run, false⟩) hquiet (h.law.tracked hw)
  · rcases RunState.callback_act hcb with hold | ⟨_, hreg⟩
    · exact h.law.only fd hold
    · obtain ⟨hfd, -⟩ := Prod.mk.inj (Option.some.inj hreg)
      exact ⟨hw, hfd.symm⟩
  · cases granted with
    | true => exact ⟨d.mask, RunState.mask_modifyTrack hmem, d.armedBy_mask⟩
    | false =>
        obtain rfl := hgrant.resolve_left Bool.false_ne_true
        refine ⟨mask, ?_, harmed⟩
        rw [ConnectRun.mask, RunState.modifyTrack_refused (by simp)]
        exact hm
  · refine iff_of_false (fun hc => ?_) hok
    have hnone := hw.2.symm.trans hc
    cases hnone
  · have hnone := hw.2.symm.trans hc
    cases hnone

/-- And only if it keeps its socket and the kernel grants a change of direction. -/
theorem Known.steady_asks (h : s.Known) (hw : s.Waiting) {d : Direction} {status : PollingStatus}
    {granted : Bool}
    (hlaw : Follows
      { s with
        run := (s.replaced next).act
          (.modifyTrack s.conn.socket d.mask .helperSock .connect granted)
        socket := next.getD s.socket
        asked := d
        polls := status :: s.polls }) : next = none ∧ (granted = true ∨ s.asked = d) := by
  obtain ⟨-, -, hsocket⟩ := h.conn hw
  have hnext : next = none := by
    refine h.kept hlaw hw rfl (fun fd hcb => ?_) fun hne => ?_
    · rcases RunState.callback_act hcb with hold | ⟨_, hreg⟩
      · exact callback_replaced ▸ hold
      · obtain ⟨hfd, -⟩ := Prod.mk.inj (Option.some.inj hreg)
        rw [← hfd, hsocket]
        exact h.law.tracked hw
    · obtain ⟨fd, rfl⟩ := Option.ne_none_iff_exists'.1 hne
      have hlost : s.socket ∉ (s.replaced (some fd)).ioc.kernel.interest.keys := by
        rw [Finmap.mem_keys, ← Finmap.lookup_eq_none]
        exact mask_replaced
      rw [ConnectRun.mask, hsocket, RunState.modifyTrack_refused fun hin => hlost hin.2]
      exact mask_replaced
  subst hnext
  refine ⟨rfl, ?_⟩
  cases granted with
  | true => exact Or.inl rfl
  | false =>
      -- refused, so the socket is armed as it was
      obtain ⟨mask, hm, harmed⟩ := h.law.armed hw
      obtain ⟨mask', hm', harmed'⟩ := hlaw.armed hw
      rw [ConnectRun.mask, RunState.modifyTrack_refused (by simp)] at hm'
      obtain rfl : mask = mask' := Option.some.inj (hm.symm.trans hm')
      exact Or.inr (harmed.unique harmed')

/-- **An event** keeps to libpq's loop exactly if it is steady. -/
theorem Known.event_iff (h : s.Known) {ev : EpollEvent} {a : PqAnswers} {granted : Bool}
    (hcb : s.run.callback ev.fd = some .connect) :
    s.Steady (.event ev a next granted) ↔ (s.handle ev a next granted).Follows := by
  obtain ⟨hw, -⟩ := h.law.of_event hcb
  obtain ⟨-, -, hsocket⟩ := h.conn hw
  have hopen : .ok ∉ s.polls := by
    intro hok
    have hcalled := h.law.success.2 hok
    rw [hw.2] at hcalled
    cases hcalled
  have hgone (run : RunState Tracker) (hrun : ∀ fd, run.callback fd = s.run.callback fd) (fd : ℤ) :
      (run.act (.removeTrack s.conn.socket)).callback fd ≠ some .connect := by
    rw [hsocket]
    exact h.law.untracked hrun
  have ho : s.Handled ev a next granted (s.handle ev a next granted) := h.handled hw
  generalize s.handle ev a next granted = t at ho ⊢
  cases ho with
  | broken herr =>
      constructor
      · intro hG
        refine .of_called (hgone s.run fun _ => rfl) true rfl ?_ fun _ => Or.inl (hG.1 herr)
        simpa using hopen
      · intro hlaw
        refine ⟨fun _ => ?_, fun hok => ?_⟩
        · exact (hlaw.failure rfl).resolve_right (h.unfailed hw)
        · rw [herr] at hok
          cases hok
  | @asks d herr hd =>
      have hmore : a.connectPoll ≠ .ok ∧ a.connectPoll ≠ .failed := by
        constructor <;> intro hpoll <;> rw [hpoll] at hd <;> cases hd
      constructor
      · intro hG
        obtain ⟨hkeep, hgrant⟩ := hG.2 herr
        obtain rfl := hkeep hmore.1 hmore.2
        exact h.follows_asks hw (hgrant d hd) (by simpa [hmore.1.symm] using hopen)
      · intro hlaw
        obtain ⟨hnext, hgrant⟩ := h.steady_asks hw hlaw
        refine ⟨fun he => ?_, fun _ => ⟨fun _ _ => hnext, fun d' hd' => ?_⟩⟩
        · rw [herr] at he
          cases he
        · obtain rfl : d = d' := Option.some.inj (hd.symm.trans hd')
          exact hgrant
  | idles herr hpoll =>
      constructor
      · intro hG
        obtain rfl := (hG.2 herr).1 (by simp [hpoll]) (by simp [hpoll])
        refine ⟨h.law.tracked, h.law.only, h.law.armed, ?_, fun hc => ?_⟩
        · simpa [hw.2] using hopen
        · exact absurd (hw.2.symm.trans hc) nofun
      · intro hlaw
        refine ⟨fun he => ?_, fun _ => ⟨fun _ _ => ?_, ?_⟩⟩
        · rw [herr] at he
          cases he
        · refine h.kept hlaw hw rfl (fun fd hcb => callback_replaced ▸ hcb) fun hne => ?_
          obtain ⟨fd, rfl⟩ := Option.ne_none_iff_exists'.1 hne
          exact mask_replaced
        · rw [hpoll]
          exact nofun
  | fails herr hpoll =>
      refine iff_of_true ⟨fun he => ?_, fun _ => ⟨fun _ hne => absurd hpoll hne, ?_⟩⟩ ?_
      · rw [herr] at he
        cases he
      · rw [hpoll]
        exact nofun
      · refine .of_called (hgone _ fun fd => callback_replaced) true rfl ?_ fun _ =>
          Or.inr List.mem_cons_self
        simpa using hopen
  | succeeds herr hpoll =>
      refine iff_of_true ⟨fun he => ?_, fun _ => ⟨fun hne => absurd hpoll hne, ?_⟩⟩ ?_
      · rw [herr] at he
        cases he
      · rw [hpoll]
        exact nofun
      · exact .of_called (hgone _ fun fd => callback_replaced) false rfl
          (iff_of_true rfl List.mem_cons_self) nofun

theorem Known.event (h : s.Known) {ev : EpollEvent} {a : PqAnswers} {granted : Bool}
    (hcb : s.run.callback ev.fd = some .connect) (hG : s.Steady (.event ev a next granted)) :
    (s.handle ev a next granted).Known := by
  obtain ⟨hw, -⟩ := h.law.of_event hcb
  have hlaw := (h.event_iff hcb).1 hG
  have ho : s.Handled ev a next granted (s.handle ev a next granted) := h.handled hw
  generalize s.handle ev a next granted = t at ho hlaw ⊢
  cases ho with
  | broken => exact .of_called hlaw _ rfl hw.1
  | fails => exact .of_called hlaw _ rfl hw.1
  | succeeds => exact .of_called hlaw _ rfl hw.1
  | @asks d herr hd =>
      have hmore : a.connectPoll ≠ .ok ∧ a.connectPoll ≠ .failed := by
        constructor <;> intro hpoll <;> rw [hpoll] at hd <;> cases hd
      obtain rfl := (hG.2 herr).1 hmore.1 hmore.2
      refine ⟨hlaw, fun _ => h.conn hw, fun _ => ?_, fun hb => ?_⟩
      · simpa [hmore.2.symm] using h.unfailed hw
      · exact absurd (hb.symm.trans hw.1) Bool.false_ne_true
  | idles herr hpoll =>
      obtain rfl := (hG.2 herr).1 (by simp [hpoll]) (by simp [hpoll])
      refine ⟨hlaw, fun _ => h.conn hw, fun _ => ?_, fun hb => ?_⟩
      · simpa using h.unfailed hw
      · exact absurd (hb.symm.trans hw.1) Bool.false_ne_true

/-! ## The rest of the process -/

/-- What leaves the connect alone keeps the law. -/
theorem Known.spared (h : s.Known) {a : Action Tracker} (ha : s.Spares a) :
    Known { s with run := s.run.act a } := by
  obtain ⟨-, hcb, hmask⟩ := ha
  have hsame (fd : ℤ) : (s.run.act a).callback fd = some .connect ↔
      s.run.callback fd = some .connect := by
    by_cases hmem : fd ∈ s.run.ioc.eventCallback.keys ∪ (s.run.act a).ioc.eventCallback.keys
    · exact hcb fd hmem
    · rw [Finset.mem_union, not_or, ← ThreadSafeMap.get_eq_none_iff,
        ← ThreadSafeMap.get_eq_none_iff] at hmem
      rw [RunState.callback, RunState.callback, hmem.1, hmem.2]
  refine ⟨⟨fun hw => (hsame _).2 (h.law.tracked hw), fun fd hfd => ?_, fun hw => ?_, h.law.success,
    h.law.failure⟩, h.conn, h.unfailed, h.unbegun⟩
  · exact h.law.only fd ((hsame fd).1 hfd)
  · obtain ⟨mask, hm, harmed⟩ := h.law.armed hw
    exact ⟨mask, hmask.trans hm, harmed⟩

theorem Known.step (h : s.Known) (hG : s.Steady l) (ht : s.next l = some t) : t.Known := by
  cases l with
  | start conninfo start granted =>
      obtain ⟨⟨hb, -⟩, ht⟩ := Option.ite_none_right_eq_some.1 ht
      exact Option.some.inj ht ▸ h.start hb hG
  | event ev a next granted =>
      obtain ⟨⟨hcb, -⟩, ht⟩ := Option.ite_none_right_eq_some.1 ht
      exact Option.some.inj ht ▸ h.event hcb hG
  | other a =>
      obtain ⟨ha, ht⟩ := Option.ite_none_right_eq_some.1 ht
      exact Option.some.inj ht ▸ h.spared ha

/-- A step that is not steady breaks the law. -/
theorem Known.steady (h : s.Known) (ht : s.next l = some t) (hlaw : t.Follows) : s.Steady l := by
  cases l with
  | start conninfo start granted =>
      obtain ⟨⟨hb, -⟩, ht⟩ := Option.ite_none_right_eq_some.1 ht
      obtain rfl := Option.some.inj ht
      exact (h.start_iff hb).2 hlaw
  | event ev a next granted =>
      obtain ⟨⟨hcb, -⟩, ht⟩ := Option.ite_none_right_eq_some.1 ht
      obtain rfl := Option.some.inj ht
      exact (h.event_iff hcb).2 hlaw
  | other a => trivial

theorem known_init (h : connectMachine.init s) : s.Known := by
  obtain ⟨hcb, parent, memory, hconn, hb, -, -, hpolls, hcalled⟩ := h
  have hidle : ¬ s.Waiting := by
    intro hw
    exact absurd (hb.symm.trans hw.1) Bool.false_ne_true
  refine ⟨⟨fun hw => absurd hw hidle, fun fd hfd => absurd hfd (hcb fd), fun hw => absurd hw hidle,
    ?_, fun hc => ?_⟩, fun hw => absurd hw hidle, fun hw => absurd hw hidle, fun _ => ?_⟩
  · simp [hcalled, hpolls]
  · rw [hcalled] at hc
    cases hc
  · rw [hconn]
    exact ⟨rfl, hpolls, hcalled⟩

end ConnectRun

/-- **Connecting follows libpq** in every state of a run, exactly if its steps are steady: the first
    socket can be tracked, libpq never replaces it, no event reports an error on it, and the kernel
    grants each change of direction. -/
theorem connecting_follows_iff {tr : List (ConnectRun × ConnectLabel)} {s : ConnectRun}
    (h : connectMachine.Run tr s) :
    Machine.Throughout ConnectRun.Follows tr s ↔ Machine.Guarded ConnectRun.Steady tr :=
  h.law_iff_guard (fun _ hs => ConnectRun.known_init hs) (fun _ hs => hs.law)
    (fun _ _ _ hs hG ht => hs.step hG ht) fun _ _ _ hs ht hlaw => hs.steady ht hlaw

/-- A new connection beside a reactor that tracks nothing. -/
def newConnect : ConnectRun :=
  ⟨⟨.new 8 .start, .outside, []⟩, .new "" 0, false, false, 0, .writing, [], none⟩

theorem newConnect_init : connectMachine.init newConnect := by
  refine ⟨fun fd hcb => ?_, "", 0, rfl, rfl, rfl, rfl, rfl, rfl⟩
  have hempty : (∅ : ThreadSafeMap ℤ Tracker).get fd = some .connect := hcb
  simp at hempty

/-- What `PQconnectPoll` answers. -/
def pollAnswer (status : PollingStatus) : PqAnswers := ⟨status, 0, 0, 1, 0, 0, []⟩

/-- One healthy address: writing, reading, done. -/
theorem connecting_follows_healthy : ∃ tr s, connectMachine.Run tr s ∧ s.called = some false ∧
    Machine.Throughout ConnectRun.Follows tr s := by
  have hrun : ((connectMachine.restrict ConnectRun.Steady).exec newConnect
      [.start "db" (some (5, false)) true, .event ⟨epollOut, 5⟩ (pollAnswer .reading) none true,
        .event ⟨epollIn, 5⟩ (pollAnswer .ok) none true]).map (fun s => s.called) =
      some (some false) := by decide +kernel
  obtain ⟨s, hs, hcalled⟩ := Option.map_eq_some_iff.1 hrun
  obtain ⟨tr, htr, hG⟩ := Machine.exists_guarded_run newConnect_init hs
  exact ⟨tr, s, htr, hcalled, (connecting_follows_iff htr).2 hG⟩

/-- libpq goes on to its next address and a new socket. The reactor keeps the old number, on which
    nothing will come, and the new socket is not tracked. -/
theorem next_address_lost : ∃ s, connectMachine.Reachable s ∧ s.Waiting ∧ s.socket = 6 ∧
    s.run.callback 6 = none ∧ s.mask 5 = none ∧ ¬ s.Follows := by
  have hrun : (connectMachine.exec newConnect
      [.start "db" (some (5, false)) true,
        .event ⟨epollOut, 5⟩ (pollAnswer .writing) (some 6) true]).map
      (fun s => ((s.begun, s.called), s.socket, s.run.callback 6, s.mask 5)) =
      some ((true, none), 6, none, none) := by decide +kernel
  obtain ⟨s, hs, hstate⟩ := Option.map_eq_some_iff.1 hrun
  simp only [Prod.mk.injEq] at hstate
  obtain ⟨⟨hbegun, hcalled⟩, hsocket, hstored, hmask⟩ := hstate
  refine ⟨s, (Machine.Reachable.start newConnect_init).exec hs, ⟨hbegun, hcalled⟩, hsocket, hstored,
    hmask, fun hlaw => ?_⟩
  have htracked := hlaw.tracked ⟨hbegun, hcalled⟩
  rw [hsocket, hstored] at htracked
  cases htracked

end FiberConn
