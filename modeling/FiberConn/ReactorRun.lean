import FiberConn.Lib.Drain
import FiberConn.Lib.Machine
import FiberConn.Reactor

set_option autoImplicit false

/-! # `reactorRun` against arbitrary handlers (`reactor.h`)

`reactorRun` alternates between draining `event_queue_` and one `epoll_wait`. A handler may do
anything to the reactor except run it again: track, rearm and remove descriptors, and close and
open them behind the reactor's back. The machine below therefore interleaves the loop's own steps
with arbitrary `Action`s, taken while a handler runs or before `reactorRun` is called.

`log` is history, not state of the program: it records, newest first, what happened, and the
properties are read off it. `registered log fd` and `registration log fd` say, from the actions
alone and without looking at the reactor's maps, which callback and priority are registered for a
descriptor and which `epoll_ctl(ADD)` that registration goes back to. -/

namespace FiberConn

variable {κ : Type}

/-- What a handler, or the program before `reactorRun`, can do to the reactor. -/
inductive Action (κ : Type)
  | asyncAccept (fd : ℤ) (cb : κ) (granted : Bool)
  | addTrack (fd : ℤ) (mask : EventMask) (priority : EventPriority) (cb : κ) (granted : Bool)
  | modifyTrack (fd : ℤ) (mask : EventMask) (priority : EventPriority) (cb : κ) (granted : Bool)
  | removeTrack (fd : ℤ)
  | closeFd (fd : ℤ)
  | openFd (fd : ℤ)
deriving DecidableEq

/-- The reactor after an action, and the value returned to the handler. -/
def Action.run (r : IOReactor κ) : Action κ → IOReactor κ × ℤ
  | .asyncAccept fd cb granted => r.asyncAccept fd cb granted
  | .addTrack fd mask priority cb granted => r.addTrack fd mask priority cb granted
  | .modifyTrack fd mask priority cb granted => r.modifyTrack fd mask priority cb granted
  | .removeTrack fd => r.removeTrack fd
  | .closeFd fd => (r.closeFd fd, 0)
  | .openFd fd => (r.openFd fd, 0)

/-- The kernel never hands out a descriptor that is open. -/
def Action.Enabled (r : IOReactor κ) : Action κ → Prop
  | .openFd fd => fd ∉ r.kernel.openFds
  | _ => True

/-- The descriptor an action asks `epoll_ctl` to add. -/
def Action.adds : Action κ → Option ℤ
  | .asyncAccept fd _ _ => some fd
  | .addTrack fd _ _ _ _ => some fd
  | _ => none

/-- What a successful action registers. -/
def Action.registers : Action κ → Option (ℤ × κ × EventPriority)
  | .asyncAccept fd cb _ => some (fd, cb, .listenSock)
  | .addTrack fd _ priority cb _ => some (fd, cb, priority)
  | .modifyTrack fd _ priority cb _ => some (fd, cb, priority)
  | _ => none

/-- The descriptor an action stops tracking. -/
def Action.removes : Action κ → Option ℤ
  | .removeTrack fd => some fd
  | _ => none

/-! ## The history and what it says -/

inductive Entry (κ : Type)
  /-- `epoll_wait` returned and reported these events. -/
  | waited (events : List EpollEvent)
  /-- `runCallback` was called on the queue's top and found this callback. -/
  | dispatched (e : QueuedEvent) (cb : Option κ)
  /-- A handler did `a`, which returned `ret`. -/
  | acted (a : Action κ) (ret : ℤ)
deriving DecidableEq

/-- The events dispatched since the last `epoll_wait`, newest first. -/
def taken : List (Entry κ) → List QueuedEvent
  | [] => []
  | .waited _ :: _ => []
  | .dispatched e _ :: older => e :: taken older
  | .acted _ _ :: older => taken older

/-- The history up to the last return of `epoll_wait`. -/
def atWait : List (Entry κ) → List (Entry κ)
  | [] => []
  | .waited _ :: older => older
  | _ :: older => atWait older

/-- `removeTrack fd` was called since the last `epoll_wait`. -/
def RemovedSince (fd : ℤ) : List (Entry κ) → Prop
  | [] => False
  | .waited _ :: _ => False
  | .dispatched _ _ :: older => RemovedSince fd older
  | .acted a _ :: older => a.removes = some fd ∨ RemovedSince fd older

/-- Callback and priority registered for `fd`: those of the last successful registering action,
    unless a `removeTrack` came after it. -/
def registered (fd : ℤ) : List (Entry κ) → Option (κ × EventPriority)
  | [] => none
  | .acted a ret :: older =>
      if a.removes = some fd then none
      else match a.registers with
        | some (fd', x) => if fd' = fd ∧ ret = 0 then some x else registered fd older
        | none => registered fd older
  | _ :: older => registered fd older

/-- What the last `epoll_wait` reported, each event with the priority that was registered for its
    descriptor then. -/
def lastBatch : List (Entry κ) → List QueuedEvent
  | [] => []
  | .waited events :: older =>
      events.filterMap fun ev => (registered ev.fd older).map fun x => (x.2, ev)
  | _ :: older => lastBatch older

/-- The registration `fd` has: the number of the successful `epoll_ctl(ADD)` that made it. Rearming
    a descriptor keeps its registration, removing it ends it. -/
def registration (fd : ℤ) : List (Entry κ) → Option ℕ
  | [] => none
  | .acted a ret :: older =>
      if a.removes = some fd then none
      else if a.adds = some fd ∧ ret = 0 then some older.length
      else registration fd older
  | _ :: older => registration fd older

/-! ## The loop -/

inductive Phase
  /-- `reactorRun` is not running. -/
  | outside
  /-- Between events. -/
  | loop
  /-- `runCallback(event_queue_.top())` is running on `e`; `found` tells whether there was a
      callback to call. -/
  | handling (e : QueuedEvent) (found : Bool)
deriving DecidableEq

structure RunState (κ : Type) where
  ioc : IOReactor κ
  phase : Phase
  log : List (Entry κ)

/-- The events still to be dispatched: the top stays in the queue while its handler runs. -/
def RunState.waiting (s : RunState κ) : List QueuedEvent :=
  match s.phase with
  | .handling e _ => s.ioc.eventQueue.erase e
  | _ => s.ioc.eventQueue

/-- A handler, or the program outside `reactorRun`, is running. -/
def RunState.UserCode (s : RunState κ) : Prop :=
  match s.phase with
  | .outside => True
  | .loop => False
  | .handling _ found => found = true

inductive Label (κ : Type)
  | enter
  | wait (events : List EpollEvent)
  | waitFailed
  | dispatch (e : QueuedEvent)
  | act (a : Action κ)
  | finish
  | leave

instance (r : IOReactor κ) (a : Action κ) : Decidable (a.Enabled r) := by
  cases a <;> unfold Action.Enabled <;> infer_instance

instance (s : RunState κ) : Decidable s.UserCode := by
  unfold RunState.UserCode
  cases s.phase <;> infer_instance

/-- `epoll_wait` is reached: the queue is empty and some callback is left. -/
def RunState.Waiting (s : RunState κ) : Prop :=
  s.phase = .loop ∧ s.ioc.eventQueue = [] ∧ 0 < s.ioc.eventCallback.getSize

instance (s : RunState κ) : Decidable s.Waiting := inferInstanceAs (Decidable (_ ∧ _ ∧ _))

/-- What `epoll_wait` can report: at most `max_events_` events, one for a descriptor, all for
    descriptors on the interest list. -/
def IOReactor.Reports (r : IOReactor κ) (events : List EpollEvent) : Prop :=
  events.length ≤ r.maxEvents ∧ (events.map EpollEvent.fd).Nodup ∧
    ∀ ev ∈ events, ev.fd ∈ r.kernel.interest.keys

instance (r : IOReactor κ) (events : List EpollEvent) : Decidable (r.Reports events) :=
  inferInstanceAs (Decidable (_ ∧ _ ∧ _))

/-- One step of `reactorRun` or of user code. -/
def RunState.next (s : RunState κ) : Label κ → Option (RunState κ)
  | .enter => if s.phase = .outside then some { s with phase := .loop } else none
  | .wait events =>
      if s.Waiting ∧ s.ioc.Reports events then
        some { s with ioc := s.ioc.pushEvents events, log := .waited events :: s.log }
      else none
  | .waitFailed => if s.Waiting then some { s with phase := .outside } else none
  | .dispatch e =>
      if s.phase = .loop ∧ s.ioc.IsTop e then
        let cb := s.ioc.runCallback e
        some { s with phase := .handling e cb.isSome, log := .dispatched e cb :: s.log }
      else none
  | .act a =>
      if s.UserCode ∧ a.Enabled s.ioc then
        let r := a.run s.ioc
        some { s with ioc := r.1, log := .acted a r.2 :: s.log }
      else none
  | .finish =>
      match s.phase with
      | .handling e _ => some { s with ioc := s.ioc.pop e, phase := .loop }
      | _ => none
  | .leave =>
      if s.phase = .loop ∧ s.ioc.eventQueue = [] ∧ s.ioc.eventCallback.getSize = 0 then
        some { s with phase := .outside }
      else none

/-- A program with one reactor; it starts with nothing tracked and any descriptors open. -/
def reactorMachine (κ : Type) (maxEvents : ℕ) : Machine (RunState κ) (Label κ) where
  init s := ∃ k : Kernel, k.interest.keys = ∅ ∧ s = ⟨.new maxEvents k, .outside, []⟩
  next := RunState.next

end FiberConn
