import FiberConn.ReactorRun

set_option autoImplicit false

/-! # What every run of `reactorRun` guarantees

`Action.Outcome` says once what an action can do to the reactor; everything below is a case
analysis on it. `DispatchInv` ties the reactor's maps and queue to the history, and carries the
laws of the history itself:

* `LawfulLog` — each batch is used up before the next `epoll_wait`, in non-increasing order of the
  priorities registered when it was returned; the callback run is the registered one; an event
  without callback was removed by a handler of its own batch;
* `DeliversReported` — an event is run by the registration epoll reported it for, or by nobody.
  It holds as long as no handler adds a descriptor whose event is still queued. -/

namespace FiberConn

variable {κ : Type}

/-! ## What an action can do -/

/-- The possible results of an action: refused by `epoll_ctl`, a map entry written, a map entry
    removed, or only the kernel's tables changed. -/
inductive Action.Outcome (r : IOReactor κ) (a : Action κ) : IOReactor κ × ℤ → Prop
  | refused (hrem : a.removes = none) : Outcome r a (r, -1)
  | recorded {fd : ℤ} {cb : κ} {priority : EventPriority} {mask : EventMask} {k : Kernel}
      (hreg : a.registers = some (fd, cb, priority)) (hrem : a.removes = none)
      (hadd : a.adds = some fd ∨ a.adds = none ∧ fd ∈ r.kernel.interest.keys)
      (hk : k.interest = r.kernel.interest.insert fd mask) :
      Outcome r a (r.record k fd priority cb, 0)
  | removed {fd : ℤ} (ha : a = .removeTrack fd) : Outcome r a (r.removeTrack fd)
  | kernelOnly (hreg : a.registers = none) (hadd : a.adds = none) (hrem : a.removes = none)
      (hcb : (a.run r).1.eventCallback = r.eventCallback)
      (hpr : (a.run r).1.eventPriority = r.eventPriority)
      (hq : (a.run r).1.eventQueue = r.eventQueue) : Outcome r a (a.run r)

theorem Action.run_outcome (r : IOReactor κ) (a : Action κ) : a.Outcome r (a.run r) := by
  cases a with
  | asyncAccept fd cb granted =>
      rcases r.addTrack_cases fd epollIn .listenSock cb granted with he | ⟨-, k, hk, -, he⟩
      · rw [run, IOReactor.asyncAccept_eq, he]; exact .refused rfl
      · rw [run, IOReactor.asyncAccept_eq, he]; exact .recorded rfl rfl (Or.inl rfl) hk
  | addTrack fd mask priority cb granted =>
      rcases r.addTrack_cases fd mask priority cb granted with he | ⟨-, k, hk, -, he⟩
      · rw [run, he]; exact .refused rfl
      · rw [run, he]; exact .recorded rfl rfl (Or.inl rfl) hk
  | modifyTrack fd mask priority cb granted =>
      rcases r.modifyTrack_cases fd mask priority cb granted with he | ⟨hm, k, hk, -, he⟩
      · rw [run, he]; exact .refused rfl
      · rw [run, he]; exact .recorded rfl rfl (Or.inr ⟨rfl, hm⟩) hk
  | removeTrack fd => exact .removed rfl
  | closeFd fd => exact .kernelOnly rfl rfl rfl rfl rfl rfl
  | openFd fd => exact .kernelOnly rfl rfl rfl rfl rfl rfl

/-- **The class invariant survives every action**, whatever `epoll_ctl` answers. -/
theorem Action.run_tracked {r : IOReactor κ} (h : r.Tracked) (a : Action κ) :
    (a.run r).1.Tracked := by
  cases a with
  | asyncAccept fd cb granted => exact h.asyncAccept
  | addTrack fd mask priority cb granted => exact h.addTrack
  | modifyTrack fd mask priority cb granted => exact h.modifyTrack
  | removeTrack fd => exact h.removeTrack
  | closeFd fd => exact h.closeFd
  | openFd fd => exact h.openFd

/-- No action touches the event queue. -/
theorem Action.run_queue (r : IOReactor κ) (a : Action κ) :
    (a.run r).1.eventQueue = r.eventQueue := by
  generalize hr : a.run r = r'
  have ho := a.run_outcome r
  rw [hr] at ho
  cases ho with
  | refused => rfl
  | recorded => rfl
  | removed => rfl
  | kernelOnly _ _ _ _ _ hq => exact hq

/-! ## What a step can do -/

inductive RunState.Outcome (s : RunState κ) : Label κ → RunState κ → Prop
  | enter (hph : s.phase = .outside) : Outcome s .enter { s with phase := .loop }
  | wait {events : List EpollEvent} (hw : s.Waiting) (hrep : s.ioc.Reports events) :
      Outcome s (.wait events)
        { s with
          ioc := s.ioc.pushEvents events
          log := .waited events :: s.log }
  | waitFailed (hw : s.Waiting) : Outcome s .waitFailed { s with phase := .outside }
  | dispatch {e : QueuedEvent} (hph : s.phase = .loop) (htop : s.ioc.IsTop e) :
      Outcome s (.dispatch e)
        { s with
          phase := .handling e (s.ioc.runCallback e).isSome
          log := .dispatched e (s.ioc.runCallback e) :: s.log }
  | act {a : Action κ} (hu : s.UserCode) (ha : a.Enabled s.ioc) :
      Outcome s (.act a)
        { s with ioc := (a.run s.ioc).1, log := .acted a (a.run s.ioc).2 :: s.log }
  | finish {e : QueuedEvent} {found : Bool} (hph : s.phase = .handling e found) :
      Outcome s .finish { s with ioc := s.ioc.pop e, phase := .loop }
  | leave (hph : s.phase = .loop) : Outcome s .leave { s with phase := .outside }

/-- A step does what `Outcome` says. -/
theorem RunState.next_outcome {s t : RunState κ} {l : Label κ} (hn : s.next l = some t) :
    s.Outcome l t := by
  cases l with
  | enter =>
      obtain ⟨hph, ht⟩ := Option.ite_none_right_eq_some.1 hn
      exact Option.some.inj ht ▸ .enter hph
  | wait events =>
      obtain ⟨⟨hw, hrep⟩, ht⟩ := Option.ite_none_right_eq_some.1 hn
      exact Option.some.inj ht ▸ .wait hw hrep
  | waitFailed =>
      obtain ⟨hw, ht⟩ := Option.ite_none_right_eq_some.1 hn
      exact Option.some.inj ht ▸ .waitFailed hw
  | dispatch e =>
      obtain ⟨⟨hph, htop⟩, ht⟩ := Option.ite_none_right_eq_some.1 hn
      exact Option.some.inj ht ▸ .dispatch hph htop
  | act a =>
      obtain ⟨⟨hu, ha⟩, ht⟩ := Option.ite_none_right_eq_some.1 hn
      exact Option.some.inj ht ▸ .act hu ha
  | finish =>
      rw [next] at hn
      split at hn
      · next e found hph => exact Option.some.inj hn ▸ .finish hph
      · cases hn
  | leave =>
      obtain ⟨⟨hph, -⟩, ht⟩ := Option.ite_none_right_eq_some.1 hn
      exact Option.some.inj ht ▸ .leave hph

/-! ## The maps agree with the history -/

/-- The reactor's maps hold what the history says is registered. -/
structure AgreesWith (r : IOReactor κ) (log : List (Entry κ)) : Prop where
  callback : ∀ fd, r.eventCallback.get fd = (registered fd log).map Prod.fst
  priority : ∀ fd, r.eventPriority.get fd = (registered fd log).map Prod.snd

theorem AgreesWith.mem_keys {r : IOReactor κ} {log : List (Entry κ)} (h : AgreesWith r log)
    {fd : ℤ} : fd ∈ r.eventCallback.keys ↔ (registered fd log).isSome := by
  rw [ThreadSafeMap.mem_keys_iff, h.callback, Option.isSome_iff_exists]
  simp

theorem registered_acted {a : Action κ} {ret : ℤ} {fd : ℤ} {log : List (Entry κ)}
    (hrem : a.removes = none) :
    registered fd (.acted a ret :: log) = match a.registers with
      | some (fd', x) => if fd' = fd ∧ ret = 0 then some x else registered fd log
      | none => registered fd log := by
  show (if a.removes = some fd then none else _) = _
  exact if_neg (by simp [hrem])

theorem AgreesWith.act {r : IOReactor κ} {log : List (Entry κ)} (h : AgreesWith r log)
    (a : Action κ) : AgreesWith (a.run r).1 (.acted a (a.run r).2 :: log) := by
  generalize hr : a.run r = r'
  have ho := a.run_outcome r
  rw [hr] at ho
  cases ho with
  | refused hrem =>
      have hsame (fd : ℤ) : registered fd (.acted a (-1) :: log) = registered fd log := by
        rw [registered_acted hrem]
        cases a.registers <;> simp
      exact ⟨fun fd => by rw [hsame]; exact h.callback fd,
        fun fd => by rw [hsame]; exact h.priority fd⟩
  | @recorded fd cb priority mask k hreg hrem hadd hk =>
      have hnew (fd' : ℤ) : registered fd' (.acted a 0 :: log)
          = if fd' = fd then some (cb, priority) else registered fd' log := by
        rw [registered_acted hrem, hreg]
        simp only [and_true, eq_comm]
      constructor <;> intro fd' <;> rw [hnew] <;>
        simp only [IOReactor.record, ThreadSafeMap.get_insert]
      · by_cases he : fd' = fd
        · simp [he]
        · simp [he, h.callback]
      · by_cases he : fd' = fd
        · simp [he]
        · simp [he, h.priority]
  | @removed fd ha =>
      subst ha
      have hnew (fd' : ℤ) (ret : ℤ) : registered fd' (.acted (.removeTrack fd) ret :: log)
          = if fd' = fd then none else registered fd' log := by
        by_cases he : fd' = fd
        · simp [registered, Action.removes, he]
        · have hne : ¬ fd = fd' := fun h => he h.symm
          simp [registered, Action.removes, Action.registers, he, hne]
      constructor <;> intro fd' <;> rw [hnew] <;>
        simp only [IOReactor.removeTrack, ThreadSafeMap.get_remove]
      · by_cases he : fd' = fd
        · simp [he]
        · simp [he, h.callback]
      · by_cases he : fd' = fd
        · simp [he]
        · simp [he, h.priority]
  | kernelOnly hreg hadd hrem hcb hpr hq =>
      have hsame (fd : ℤ) : registered fd (.acted a (a.run r).2 :: log) = registered fd log := by
        rw [registered_acted hrem, hreg]
      rw [hr] at hcb hpr hsame
      exact ⟨fun fd => by rw [hsame, hcb]; exact h.callback fd,
        fun fd => by rw [hsame, hpr]; exact h.priority fd⟩

/-! ## The laws of the history -/

/-- Batches are used up before the next `epoll_wait`, by priority, through the registered
    callbacks; only descriptors removed by a handler of the batch find none. -/
def LawfulLog : List (Entry κ) → Prop
  | [] => True
  | .waited events :: older =>
      (∀ ev ∈ events, (registered ev.fd older).isSome) ∧
        (taken older).Perm (lastBatch older) ∧ LawfulLog older
  | .dispatched e cb :: older =>
      cb = (registered e.2.fd older).map Prod.fst ∧
        (cb = none → RemovedSince e.2.fd older) ∧
        (∀ d ∈ taken older, e.1.val ≤ d.1.val) ∧ LawfulLog older
  | .acted _ _ :: older => LawfulLog older

structure DispatchInv (s : RunState κ) : Prop where
  tracked : s.ioc.Tracked
  agrees : AgreesWith s.ioc s.log
  drained : Drained (fun e : QueuedEvent => e.1.val) (lastBatch s.log) (taken s.log) s.waiting
  /-- A waiting event still has its callback, unless a handler of this batch removed it. -/
  kept : ∀ x ∈ s.waiting, x.2.fd ∈ s.ioc.eventCallback.keys ∨ RemovedSince x.2.fd s.log
  lawful : LawfulLog s.log

theorem waiting_loop {s : RunState κ} (h : s.phase = .loop) : s.waiting = s.ioc.eventQueue := by
  simp [RunState.waiting, h]

/-- After `epoll_wait` the queue, which was empty, holds exactly the reported events. -/
theorem mem_pushed {s : RunState κ} (hw : s.Waiting) {events : List EpollEvent} {x : QueuedEvent}
    (hx : x ∈ (s.ioc.pushEvents events).eventQueue) :
    ∃ ev ∈ events, x = (s.ioc.priorityOf ev, ev) := by
  simp only [IOReactor.pushEvents, hw.2.1, List.nil_append, List.mem_map] at hx
  obtain ⟨ev, hev, rfl⟩ := hx
  exact ⟨ev, hev, rfl⟩

/-- What is queued are the reported events with the priorities registered for them. -/
theorem DispatchInv.pushed {s : RunState κ} (h : DispatchInv s) {events : List EpollEvent}
    (hw : s.Waiting) (hrep : s.ioc.Reports events) :
    (s.ioc.pushEvents events).eventQueue = lastBatch (.waited events :: s.log) := by
  have hpriority : ∀ ev ∈ events, (registered ev.fd s.log).map (fun x => (x.2, ev)) =
      some (s.ioc.priorityOf ev, ev) := by
    intro ev hev
    have hsnd : (registered ev.fd s.log).map Prod.snd = some (s.ioc.priorityOf ev) := by
      rw [← h.agrees.priority]
      exact h.tracked.priority_of_interest (hrep.2.2 ev hev)
    obtain ⟨x, hx, hp⟩ := Option.map_eq_some_iff.1 hsnd
    rw [hx, ← hp]
    rfl
  rw [IOReactor.pushEvents, hw.2.1, List.nil_append, lastBatch, List.filterMap_congr hpriority]
  exact (congrFun (List.filterMap_eq_map (f := fun ev => (s.ioc.priorityOf ev, ev))) events).symm

theorem DispatchInv.wait {s : RunState κ} (h : DispatchInv s) {events : List EpollEvent}
    (hw : s.Waiting) (hrep : s.ioc.Reports events) :
    DispatchInv { s with
      ioc := s.ioc.pushEvents events
      log := .waited events :: s.log } := by
  obtain ⟨hph, hempty, -⟩ := id hw
  have hwait : RunState.waiting { s with
      ioc := s.ioc.pushEvents events
      log := .waited events :: s.log }
      = (s.ioc.pushEvents events).eventQueue := waiting_loop hph
  refine ⟨h.tracked.pushEvents, ⟨h.agrees.callback, h.agrees.priority⟩, ?_, ?_, ?_⟩
  · rw [hwait, h.pushed hw hrep]
    exact Drained.start _
  · rw [hwait]
    intro x hx
    obtain ⟨ev, hev, rfl⟩ := mem_pushed hw hx
    exact Or.inl (h.tracked.interest_sub (hrep.2.2 ev hev))
  · refine ⟨?_, ?_, h.lawful⟩
    · intro ev hev
      exact h.agrees.mem_keys.1 (h.tracked.interest_sub (hrep.2.2 ev hev))
    · have hd := h.drained
      rw [waiting_loop hph, hempty] at hd
      exact hd.all_taken

theorem DispatchInv.dispatch {s : RunState κ} (h : DispatchInv s) {e : QueuedEvent}
    (hph : s.phase = .loop) (htop : s.ioc.IsTop e) :
    DispatchInv { s with
      phase := .handling e (s.ioc.runCallback e).isSome
      log := .dispatched e (s.ioc.runCallback e) :: s.log } := by
  have hloop := waiting_loop hph
  have hcb : s.ioc.runCallback e = (registered e.2.fd s.log).map Prod.fst :=
    h.agrees.callback e.2.fd
  -- `e` stays in the queue until its handler returns, but it is not waiting any more
  have hd := h.drained
  rw [hloop] at hd
  refine ⟨h.tracked, ⟨h.agrees.callback, h.agrees.priority⟩, hd.take htop.1 htop.2, ?_, ?_⟩
  · intro x hx
    exact h.kept x (hloop ▸ List.mem_of_mem_erase hx)
  · refine ⟨hcb, ?_, hd.bound e htop.1, h.lawful⟩
    intro hnone
    rcases h.kept e (hloop ▸ htop.1) with hk | hk
    · rw [← ThreadSafeMap.get_eq_none_iff.not_left] at hk
      exact absurd hnone hk
    · exact hk

theorem DispatchInv.act {s : RunState κ} (h : DispatchInv s) (a : Action κ) :
    DispatchInv { s with ioc := (a.run s.ioc).1, log := .acted a (a.run s.ioc).2 :: s.log } := by
  have hwait : RunState.waiting { s with
      ioc := (a.run s.ioc).1
      log := .acted a (a.run s.ioc).2 :: s.log } = s.waiting := by
    simp only [RunState.waiting, a.run_queue]
  have hagree := h.agrees.act a
  refine ⟨a.run_tracked h.tracked, hagree, ?_, ?_, h.lawful⟩
  · rw [hwait]
    exact h.drained
  · rw [hwait]
    intro x hx
    by_cases hrem : a.removes = some x.2.fd
    · exact Or.inr (Or.inl hrem)
    · refine (h.kept x hx).imp (fun hk => ?_) Or.inr
      rw [hagree.mem_keys]
      rw [h.agrees.mem_keys] at hk
      rw [registered, if_neg hrem]
      split
      · split
        · rfl
        · exact hk
      · exact hk

theorem DispatchInv.finish {s : RunState κ} (h : DispatchInv s) {e : QueuedEvent} {found : Bool}
    (hph : s.phase = .handling e found) :
    DispatchInv { s with ioc := s.ioc.pop e, phase := .loop } := by
  have hwait : RunState.waiting { s with ioc := s.ioc.pop e, phase := .loop } = s.waiting := by
    simp [RunState.waiting, hph, IOReactor.pop]
  refine ⟨h.tracked.pop, ⟨h.agrees.callback, h.agrees.priority⟩, ?_, ?_, h.lawful⟩
  · rw [hwait]; exact h.drained
  · rw [hwait]; exact h.kept

/-- Entering and leaving the loop only moves the phase between `outside` and `loop`. -/
theorem DispatchInv.rephase {s : RunState κ} (h : DispatchInv s) {phase : Phase}
    (hwait : RunState.waiting { s with phase := phase } = s.waiting) :
    DispatchInv { s with phase := phase } := by
  refine ⟨h.tracked, h.agrees, ?_, ?_, h.lawful⟩
  · rw [hwait]; exact h.drained
  · rw [hwait]; exact h.kept

theorem dispatchInv_init {maxEvents : ℕ} {s : RunState κ}
    (h : (reactorMachine κ maxEvents).init s) : DispatchInv s := by
  obtain ⟨k, hk, rfl⟩ := h
  refine ⟨IOReactor.tracked_new hk, ⟨fun fd => ?_, fun fd => ?_⟩, Drained.start [], ?_, trivial⟩
  · exact ThreadSafeMap.get_empty
  · exact ThreadSafeMap.get_empty
  · intro x hx
    exact absurd hx (by simp [RunState.waiting, IOReactor.new])

theorem dispatchInv_step {s t : RunState κ} {l : Label κ} (h : DispatchInv s)
    (ho : s.Outcome l t) : DispatchInv t := by
  cases ho with
  | enter hph => exact h.rephase (by simp [RunState.waiting, hph])
  | wait hw hrep => exact h.wait hw hrep
  | waitFailed hw => exact h.rephase (by simp [RunState.waiting, hw.1])
  | dispatch hph htop => exact h.dispatch hph htop
  | act hu ha => exact h.act _
  | finish hph => exact h.finish hph
  | leave hph => exact h.rephase (by simp [RunState.waiting, hph])

theorem reachable_dispatchInv {maxEvents : ℕ} {s : RunState κ}
    (h : (reactorMachine κ maxEvents).Reachable s) : DispatchInv s :=
  h.invariant (fun _ => dispatchInv_init) fun _ _ _ hs hn =>
    dispatchInv_step hs (RunState.next_outcome hn)

/-- **Reactor dispatch.** The class invariant survives every action of a handler for every answer
    of `epoll_ctl`, and in every state of every run of `reactorRun` the history is lawful and the
    current batch is shared out between the dispatched and the waiting events. -/
theorem reactor_dispatch (κ : Type) (maxEvents : ℕ) :
    (∀ (r : IOReactor κ) (a : Action κ), r.Tracked → (a.run r).1.Tracked) ∧
    ∀ s, (reactorMachine κ maxEvents).Reachable s →
      s.ioc.Tracked ∧ LawfulLog s.log ∧
        Drained (fun e : QueuedEvent => e.1.val) (lastBatch s.log) (taken s.log) s.waiting := by
  refine ⟨fun r a h => a.run_tracked h, fun s h => ?_⟩
  have hinv := reachable_dispatchInv h
  exact ⟨hinv.tracked, hinv.lawful, hinv.drained⟩

/-- Three open descriptors, none tracked. -/
def threeSockets : Kernel := ⟨{3, 5, 7}, ∅, by simp⟩

/-- A listening socket, a client and a helper become ready together, the client with a hang-up and
    the helper for writing; the helper's handler, run first, removes the client. -/
def threeEvents : List (Label ℕ) :=
  [.act (.asyncAccept 3 30 true), .act (.addTrack 5 (epollIn ||| epollEt) .newSock 50 true),
   .act (.addTrack 7 (epollOut ||| epollEt) .helperSock 70 true), .enter,
   .wait [⟨epollIn, 3⟩, ⟨epollIn ||| epollHup, 5⟩, ⟨epollOut, 7⟩],
   .dispatch (.helperSock, ⟨epollOut, 7⟩), .act (.removeTrack 5), .finish,
   .dispatch (.newSock, ⟨epollIn ||| epollHup, 5⟩), .finish,
   .dispatch (.listenSock, ⟨epollIn, 3⟩)]

theorem reactor_dispatch_three : ∃ s, (reactorMachine ℕ 8).Reachable s ∧
    taken s.log = [(.listenSock, ⟨epollIn, 3⟩), (.newSock, ⟨epollIn ||| epollHup, 5⟩),
      (.helperSock, ⟨epollOut, 7⟩)] ∧
    s.ioc.Tracked ∧ LawfulLog s.log ∧
    Drained (fun e : QueuedEvent => e.1.val) (lastBatch s.log) (taken s.log) s.waiting := by
  have hrun : (((reactorMachine ℕ 8).exec ⟨.new 8 threeSockets, .outside, []⟩ threeEvents).map
      fun s => taken s.log) = some [(.listenSock, ⟨epollIn, 3⟩),
        (.newSock, ⟨epollIn ||| epollHup, 5⟩), (.helperSock, ⟨epollOut, 7⟩)] := by
    decide +kernel
  obtain ⟨s, hs, htaken⟩ := Option.map_eq_some_iff.1 hrun
  have hstart : (reactorMachine ℕ 8).Reachable ⟨.new 8 threeSockets, .outside, []⟩ :=
    .start ⟨threeSockets, rfl, rfl⟩
  have hreach := hstart.exec hs
  exact ⟨s, hreach, htaken, (reactor_dispatch ℕ 8).2 s hreach⟩

/-! ## Delivery to the reported registration -/

/-- Each dispatched event belongs to a registration epoll reported it for, and is run by that
    registration or by none. -/
def DeliversReported : List (Entry κ) → Prop
  | [] => True
  | .dispatched e cb :: older =>
      ((registration e.2.fd (atWait older)).isSome ∧
        (cb.isSome → registration e.2.fd older = registration e.2.fd (atWait older))) ∧
      DeliversReported older
  | .waited _ :: older => DeliversReported older
  | .acted _ _ :: older => DeliversReported older

instance : DecidablePred (@DeliversReported κ) := fun log => by
  induction log with
  | nil => exact instDecidableTrue
  | cons x older ih =>
      cases x with
      | waited events => exact ih
      | dispatched e cb => exact inferInstanceAs (Decidable ((_ ∧ _) ∧ DeliversReported older))
      | acted a ret => exact ih

/-- Since the last `epoll_wait` a handler registered `fd` anew, and that registration stands. -/
def AddedSince (fd : ℤ) : List (Entry κ) → Prop
  | [] => False
  | .waited _ :: _ => False
  | .dispatched _ _ :: older => AddedSince fd older
  | .acted a ret :: older =>
      a.removes ≠ some fd ∧ (a.adds = some fd ∧ ret = 0 ∨ AddedSince fd older)

instance (fd : ℤ) : DecidablePred (@AddedSince κ fd) := fun log => by
  induction log with
  | nil => exact instDecidableFalse
  | cons x older ih =>
      cases x with
      | waited events => exact instDecidableFalse
      | dispatched e cb => exact ih
      | acted a ret => exact inferInstanceAs (Decidable (_ ∧ (_ ∨ AddedSince fd older)))

/-- The step does not dispatch an event to a registration made after the event was reported. -/
def DispatchesOld (s : RunState κ) : Label κ → Prop
  | .dispatch e => ¬ AddedSince e.2.fd s.log
  | _ => True

instance (s : RunState κ) (l : Label κ) : Decidable (DispatchesOld s l) := by
  cases l <;> unfold DispatchesOld <;> infer_instance

theorem registration_acted (a : Action κ) (ret : ℤ) (fd : ℤ) (log : List (Entry κ)) :
    registration fd (.acted a ret :: log) = if a.removes = some fd then none
      else if a.adds = some fd ∧ ret = 0 then some log.length else registration fd log := rfl

/-- Registrations are numbered by the history before them. -/
theorem registration_lt {fd : ℤ} {n : ℕ} {log : List (Entry κ)}
    (h : registration fd log = some n) : n < log.length := by
  induction log with
  | nil => exact absurd h (by simp [registration])
  | cons x older ih =>
      cases x with
      | waited events => exact Nat.lt_succ_of_lt (ih h)
      | dispatched e cb => exact Nat.lt_succ_of_lt (ih h)
      | acted a ret =>
          rw [registration_acted] at h
          split_ifs at h with hrem hadd
          · obtain rfl : older.length = n := by simpa using h
            simp
          · exact Nat.lt_succ_of_lt (ih h)

theorem atWait_length_le (log : List (Entry κ)) : (atWait log).length ≤ log.length := by
  induction log with
  | nil => exact le_refl _
  | cons x older ih => cases x <;> simp only [atWait, List.length_cons] <;> omega

/-- A registration made since the last `epoll_wait` is younger than everything before it. -/
theorem AddedSince.registration_ge {fd : ℤ} {log : List (Entry κ)} (h : AddedSince fd log) :
    ∃ n, registration fd log = some n ∧ (atWait log).length ≤ n := by
  -- back through the history to the last `epoll_wait`
  induction log with
  | nil => exact h.elim
  | cons x older ih =>
      cases x with
      | waited events => exact h.elim
      | dispatched e cb => exact ih h
      | acted a ret =>
          obtain ⟨hrem, hadd⟩ := h
          rw [registration_acted, if_neg hrem]
          by_cases hnew : a.adds = some fd ∧ ret = 0
          · rw [if_pos hnew]
            exact ⟨_, rfl, atWait_length_le older⟩
          · rw [if_neg hnew]
            exact ih (hadd.resolve_left hnew)

/-- Without such a registration the descriptor has the one it had at `epoll_wait`, or none. -/
theorem registration_of_not_added {fd : ℤ} {log : List (Entry κ)} (h : ¬ AddedSince fd log) :
    registration fd log = registration fd (atWait log) ∨ registration fd log = none := by
  induction log with
  | nil => exact Or.inr rfl
  | cons x older ih =>
      cases x with
      | waited events => exact Or.inl rfl
      | dispatched e cb => exact ih h
      | acted a ret =>
          rw [registration_acted]
          by_cases hrem : a.removes = some fd
          · exact Or.inr (if_pos hrem)
          · have hold : ¬ (a.adds = some fd ∧ ret = 0) ∧ ¬ AddedSince fd older := by
              rw [← not_or]
              exact fun hadd => h ⟨hrem, hadd⟩
            rw [if_neg hrem, if_neg hold.1]
            exact ih hold.2

structure DeliveryInv (s : RunState κ) : Prop where
  dispatch : DispatchInv s
  same : ∀ fd, (registration fd s.log).isSome = (registered fd s.log).isSome
  /-- epoll reported a waiting event for some registration. -/
  reported : ∀ x ∈ s.waiting, (registration x.2.fd (atWait s.log)).isSome

theorem DeliveryInv.same_act {s : RunState κ} (h : DeliveryInv s) (a : Action κ) (fd : ℤ) :
    (registration fd (.acted a (a.run s.ioc).2 :: s.log)).isSome
      = (registered fd (.acted a (a.run s.ioc).2 :: s.log)).isSome := by
  generalize hr : a.run s.ioc = r'
  have ho := a.run_outcome s.ioc
  rw [hr] at ho
  cases ho with
  | refused hrem =>
      rw [registration_acted, registered_acted hrem]
      cases a.registers <;> simp [hrem, h.same]
  | @recorded fd' cb priority mask k hreg hrem hadd hk =>
      rw [registration_acted, registered_acted hrem, hreg]
      by_cases he : fd' = fd
      · subst he
        rcases hadd with hadd | ⟨hadd, hint⟩
        · simp [hrem, hadd]
        · -- a rearmed descriptor was registered already
          have hreg' : (registered fd' s.log).isSome :=
            h.dispatch.agrees.mem_keys.1 (h.dispatch.tracked.interest_sub hint)
          simp [hrem, hadd, h.same, hreg']
      · have hadd' : a.adds ≠ some fd := by
          rcases hadd with hadd | ⟨hadd, -⟩ <;> simp [hadd, he]
        simp [hrem, hadd', he, h.same]
  | @removed fd' ha =>
      subst ha
      by_cases he : fd' = fd <;>
        simp [registration, registered, Action.removes, Action.adds, Action.registers, he, h.same]
  | kernelOnly hreg hadd hrem _ _ _ =>
      rw [registration_acted, registered_acted hrem, hreg]
      simp [hrem, hadd, h.same]

theorem DeliveryInv.wait {s : RunState κ} (h : DeliveryInv s) {events : List EpollEvent}
    (hw : s.Waiting) (hrep : s.ioc.Reports events) :
    DeliveryInv { s with
      ioc := s.ioc.pushEvents events
      log := .waited events :: s.log } := by
  refine ⟨h.dispatch.wait hw hrep, h.same, ?_⟩
  intro x hx
  have hx' : x ∈ (s.ioc.pushEvents events).eventQueue := by
    simpa only [RunState.waiting, hw.1] using hx
  obtain ⟨ev, hev, rfl⟩ := mem_pushed hw hx'
  show (registration ev.fd s.log).isSome
  rw [h.same]
  exact h.dispatch.agrees.mem_keys.1 (h.dispatch.tracked.interest_sub (hrep.2.2 ev hev))

theorem deliveryInv_init {maxEvents : ℕ} {s : RunState κ}
    (h : (reactorMachine κ maxEvents).init s) : DeliveryInv s := by
  have hd := dispatchInv_init h
  obtain ⟨k, hk, rfl⟩ := h
  exact ⟨hd, fun _ => rfl, fun x hx => absurd hx (by simp [RunState.waiting, IOReactor.new])⟩

/-- A step that neither waits, dispatches nor acts leaves history and waiting events alone. -/
theorem DeliveryInv.of_same {s t : RunState κ} (h : DeliveryInv s) (ht : DispatchInv t)
    (hlog : t.log = s.log) (hwait : t.waiting = s.waiting) : DeliveryInv t where
  dispatch := ht
  same := hlog ▸ h.same
  reported := by rw [hlog, hwait]; exact h.reported

theorem deliveryInv_step {s t : RunState κ} {l : Label κ} (h : DeliveryInv s)
    (ho : s.Outcome l t) : DeliveryInv t := by
  have ht := dispatchInv_step h.dispatch ho
  cases ho with
  | enter hph => exact h.of_same ht rfl (by simp [RunState.waiting, hph])
  | wait hw hrep => exact h.wait hw hrep
  | waitFailed hw => exact h.of_same ht rfl (by simp [RunState.waiting, hw.1])
  | dispatch hph htop =>
      refine ⟨ht, h.same, fun x hx => h.reported x ?_⟩
      rw [waiting_loop hph]
      exact List.mem_of_mem_erase hx
  | @act a hu ha =>
      refine ⟨ht, h.same_act a, fun x hx => h.reported x ?_⟩
      simpa only [RunState.waiting, a.run_queue] using hx
  | finish hph => exact h.of_same ht rfl (by simp [RunState.waiting, hph, IOReactor.pop])
  | leave hph => exact h.of_same ht rfl (by simp [RunState.waiting, hph])

/-- One dispatch runs the reported registration, or none, exactly when the descriptor was not
    registered anew in the meantime. -/
theorem DeliveryInv.dispatch_iff {s : RunState κ} (h : DeliveryInv s) {e : QueuedEvent}
    (he : e ∈ s.waiting) :
    ((registration e.2.fd (atWait s.log)).isSome ∧ ((s.ioc.runCallback e).isSome →
        registration e.2.fd s.log = registration e.2.fd (atWait s.log))) ↔
      ¬ AddedSince e.2.fd s.log := by
  -- there is a callback to run exactly when the descriptor has a registration
  have hcb : (s.ioc.runCallback e).isSome = (registration e.2.fd s.log).isSome := by
    rw [IOReactor.runCallback, h.dispatch.agrees.callback, h.same, Option.isSome_map]
  have hrep := h.reported e he
  constructor
  · rintro ⟨-, hsame⟩ hadded
    obtain ⟨n, hn, hle⟩ := hadded.registration_ge
    -- the registration at `epoll_wait` would be younger than the history it is in
    have hold : registration e.2.fd (atWait s.log) = some n := by
      rw [← hsame (by simp [hcb, hn]), hn]
    exact absurd (registration_lt hold) (Nat.not_lt.2 hle)
  · intro hadded
    refine ⟨hrep, fun hfound => ?_⟩
    rcases registration_of_not_added hadded with hold | hnone
    · exact hold
    · rw [hcb, hnone] at hfound
      exact absurd hfound (by simp)

/-- **Stale delivery, exactly.** A run delivers every event to the registration epoll reported it
    for, or drops it, if and only if no event is dispatched while its descriptor has a registration
    that a handler of the same batch made. -/
theorem delivers_reported_iff {maxEvents : ℕ} {tr : List (RunState κ × Label κ)} {s : RunState κ}
    (h : (reactorMachine κ maxEvents).Run tr s) :
    DeliversReported s.log ↔ Machine.Guarded DispatchesOld tr := by
  induction h with
  | start h =>
      obtain ⟨k, -, rfl⟩ := h
      exact iff_of_true trivial fun _ hx => absurd hx (by simp)
  | @step tr s t l hr hn ih =>
      have hs : DeliveryInv s :=
        Machine.Reachable.invariant ⟨tr, hr⟩ (fun _ => deliveryInv_init)
          fun _ _ _ hs hn => deliveryInv_step hs (RunState.next_outcome hn)
      rw [Machine.guarded_cons, ← ih]
      have ho : s.Outcome l t := RunState.next_outcome hn
      -- only a dispatch adds to what the law is about
      cases ho with
      | @dispatch e hph htop =>
          have he : e ∈ s.waiting := by rw [waiting_loop hph]; exact htop.1
          exact and_congr_left' (hs.dispatch_iff he)
      | _ => simp [DispatchesOld, DeliversReported]

/-- A helper and a client become ready together; the helper's handler runs first. -/
def twoEvents : List (Label ℕ) :=
  [.act (.addTrack 7 (epollIn ||| epollEt) .helperSock 70 true),
   .act (.addTrack 5 (epollIn ||| epollEt) .newSock 50 true), .enter,
   .wait [⟨epollIn, 7⟩, ⟨epollIn, 5⟩], .dispatch (.helperSock, ⟨epollIn, 7⟩)]

/-- The helper's handler leaves the client alone. -/
theorem delivers_reported_two : ∃ tr s, (reactorMachine ℕ 8).Run tr s ∧
    (taken s.log).map (fun e => e.2.fd) = [5, 7] ∧ DeliversReported s.log := by
  have hrun : ((((reactorMachine ℕ 8).restrict DispatchesOld).exec
      ⟨.new 8 threeSockets, .outside, []⟩
      (twoEvents ++ [.finish, .dispatch (.newSock, ⟨epollIn, 5⟩)])).map
      fun s => (taken s.log).map fun e => e.2.fd) = some [5, 7] := by decide +kernel
  obtain ⟨s, hs, htaken⟩ := Option.map_eq_some_iff.1 hrun
  have hstart : (reactorMachine ℕ 8).init ⟨.new 8 threeSockets, .outside, []⟩ :=
    ⟨threeSockets, rfl, rfl⟩
  obtain ⟨tr, hr, hG⟩ := Machine.exists_guarded_run hstart hs
  exact ⟨tr, s, hr, htaken, (delivers_reported_iff hr).2 hG⟩

/-- The helper's handler closes the client, opens a new socket that gets the number 5, and tracks
    it: the queued event of the old client is then run by the new socket's callback. -/
def staleEvents : List (Label ℕ) :=
  twoEvents ++ [.act (.removeTrack 5), .act (.closeFd 5), .act (.openFd 5),
    .act (.addTrack 5 (epollOut ||| epollEt) .helperSock 51 true), .finish,
    .dispatch (.newSock, ⟨epollIn, 5⟩)]

theorem stale_delivery : ∃ s, (reactorMachine ℕ 8).Reachable s ∧
    s.log.head? = some (.dispatched (.newSock, ⟨epollIn, 5⟩) (some 51)) ∧
    ¬ DeliversReported s.log := by
  have hrun : (((reactorMachine ℕ 8).exec ⟨.new 8 threeSockets, .outside, []⟩ staleEvents).map
      fun s => (s.log.head?, decide (DeliversReported s.log)))
      = some (some (.dispatched (.newSock, ⟨epollIn, 5⟩) (some 51)), false) := by decide +kernel
  obtain ⟨s, hs, hlog⟩ := Option.map_eq_some_iff.1 hrun
  have hstart : (reactorMachine ℕ 8).Reachable ⟨.new 8 threeSockets, .outside, []⟩ :=
    .start ⟨threeSockets, rfl, rfl⟩
  obtain ⟨hhead, hlaw⟩ := Prod.mk.inj hlog
  exact ⟨s, hstart.exec hs, hhead, of_decide_eq_false hlaw⟩

end FiberConn
