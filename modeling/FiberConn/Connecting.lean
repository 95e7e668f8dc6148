import FiberConn.Lifetimes

set_option autoImplicit false

/-! # Connecting against libpq

One `connectDb` from its call to its callback, beside libpq and a reactor that others use too. libpq
owns the socket: `PQconnectPoll` may close the one it has and open another, as it does when it goes
on to the next address or tries again with other security settings, and it decides when the attempt
is over. `Follows` is what libpq's documented polling loop asks of the code that drives it. -/

namespace FiberConn

/-- Whom a function stored in the reactor belongs to: the connect, or the rest of the process. -/
inductive Tracker
  | connect
  | other
deriving DecidableEq

inductive Direction
  | reading
  | writing
deriving DecidableEq, Repr

/-- The direction a poll asks for; without one it stays what it was. -/
def PollingStatus.asks : PollingStatus → Option Direction
  | .reading => some .reading
  | .writing => some .writing
  | _ => none

/-- A mask that waits for the direction, and not for the other one. -/
def Direction.ArmedBy : Direction → EventMask → Prop
  | .reading, mask => mask &&& epollIn ≠ 0 ∧ mask &&& epollOut = 0
  | .writing, mask => mask &&& epollOut ≠ 0 ∧ mask &&& epollIn = 0

/-- The status in a call of `PQconnectPoll`. -/
def Effect.poll? : Effect → Option PollingStatus
  | .pq (.connectPoll status) => some status
  | _ => none

/-- `socket` is `PQsocket(conn)`, `asked` the direction libpq waits for, `polls` what
    `PQconnectPoll` has returned, newest first. `bad` says that `PQconnectStart` returned `NULL` or
    a connection that was already bad, `called` what `is_error` was when the callback was invoked.
    -/
structure ConnectRun where
  run : RunState Tracker
  conn : Dbconnection
  begun : Bool
  bad : Bool
  socket : ℤ
  asked : Direction
  polls : List PollingStatus
  called : Option Bool

namespace ConnectRun

/-- A number the kernel can give to a new descriptor. -/
def Fresh (s : ConnectRun) (fd : ℤ) : Prop := 0 ≤ fd ∧ fd ∉ s.run.ioc.kernel.openFds

instance (s : ConnectRun) (fd : ℤ) : Decidable (s.Fresh fd) := inferInstanceAs (Decidable (_ ∧ _))

/-- The descriptor's mask in the epoll set. -/
def mask (s : ConnectRun) (fd : ℤ) : Option EventMask := s.run.ioc.kernel.interest.lookup fd

/-- The rest of the process leaves the connect alone: its functions stay where they are, and its
    socket stays as it is armed. -/
def Spares (s : ConnectRun) (a : Action Tracker) : Prop :=
  a.Enabled s.run.ioc ∧
    (∀ fd ∈ s.run.ioc.eventCallback.keys ∪ (s.run.act a).ioc.eventCallback.keys,
      (s.run.act a).callback fd = some .connect ↔ s.run.callback fd = some .connect) ∧
    (s.run.act a).ioc.kernel.interest.lookup s.socket = s.mask s.socket

instance (s : ConnectRun) (a : Action Tracker) : Decidable (s.Spares a) :=
  inferInstanceAs (Decidable (_ ∧ (∀ _ ∈ _, _) ∧ _))

/-- The socket `PQconnectStart` opens, if it opens one: `PQsocket` is -1 without. -/
def opened (s : ConnectRun) (start : Option (ℤ × Bool)) : RunState Tracker :=
  match start with
  | some (fd, _) => if fd = -1 then s.run else s.run.act (.openFd fd)
  | none => s.run

/-- `connectDb`; `start` is the socket of the connection that `PQconnectStart` returns and whether
    it is bad. -/
def start (s : ConnectRun) (conninfo : String) (start : Option (ℤ × Bool)) (granted : Bool) :
    ConnectRun :=
  let r := s.conn.connectDb conninfo (start.map Prod.fst)
  { s with
    run := ((s.opened start).perform .connect granted r.2).run
    conn := r.1
    begun := true
    bad := start.all Prod.snd
    socket := (start.map Prod.fst).getD (-1)
    asked := .writing
    called := if CallsBack r.2 then some r.1.isError else none }

/-- The reactor after `PQconnectPoll`, which leaves the socket `next` if it takes another one. -/
def replaced (s : ConnectRun) (next : Option ℤ) : RunState Tracker :=
  match next with
  | some fd => (s.run.act (.closeFd s.socket)).act (.openFd fd)
  | none => s.run

/-- The stored `[this, cb]` is run on an event. -/
def handle (s : ConnectRun) (ev : EpollEvent) (a : PqAnswers) (next : Option ℤ) (granted : Bool) :
    ConnectRun :=
  let r := s.conn.handleEvent ev a
  let polls := r.2.filterMap Effect.poll?
  -- libpq is at work only where `PQconnectPoll` is called
  let next := if polls = [] then none else next
  { s with
    run := ((s.replaced next).perform .connect granted r.2).run
    conn := r.1
    socket := next.getD s.socket
    asked := ((polls.filterMap PollingStatus.asks).head?).getD s.asked
    polls := polls ++ s.polls
    called := if CallsBack r.2 then some r.1.isError else s.called }

end ConnectRun

inductive ConnectLabel
  | start (conninfo : String) (start : Option (ℤ × Bool)) (granted : Bool)
  | event (ev : EpollEvent) (a : PqAnswers) (next : Option ℤ) (granted : Bool)
  | other (a : Action Tracker)

namespace ConnectRun

/-- One step. An event is delivered to the connect when its function is stored for the event's
    descriptor. A new socket may get the number of the one it replaces. -/
def next (s : ConnectRun) : ConnectLabel → Option ConnectRun
  | .start conninfo start granted =>
      if s.begun = false ∧ ∀ x ∈ start, x.1 = -1 ∨ s.Fresh x.1 then
        some (s.start conninfo start granted)
      else none
  | .event ev a next granted =>
      if s.run.callback ev.fd = some .connect ∧ ∀ fd ∈ next, fd = s.socket ∨ s.Fresh fd then
        some (s.handle ev a next granted)
      else none
  | .other a => if s.Spares a then some { s with run := s.run.act a } else none

/-- The connect is under way. -/
def Waiting (s : ConnectRun) : Prop := s.begun = true ∧ s.called = none

/-- **libpq's polling loop.** Until the callback is invoked, the current socket is the one the
    reactor tracks for the connect, and it waits for the direction libpq asked for last. The
    callback reports success exactly if libpq said `PGRES_POLLING_OK`, and failure only if libpq
    gave the connection up. -/
structure Follows (s : ConnectRun) : Prop where
  tracked : s.Waiting → s.run.callback s.socket = some .connect
  only : ∀ fd, s.run.callback fd = some .connect → s.Waiting ∧ fd = s.socket
  armed : s.Waiting → ∃ mask ∈ s.mask s.socket, s.asked.ArmedBy mask
  success : s.called = some false ↔ .ok ∈ s.polls
  failure : s.called = some true → s.bad = true ∨ .failed ∈ s.polls

/-- The first socket can be tracked. After that no event has `EPOLLERR` set, unless the connection
    was bad from the start; and a poll that asks for more keeps its socket, and the kernel grants
    its rearming where the direction changes. -/
def Steady (s : ConnectRun) : ConnectLabel → Prop
  | .start _ start granted => ∀ x ∈ start, (s.opened start).CanAdd x.1 granted
  | .event ev a next granted =>
      (ev.has epollErr = true → s.bad = true) ∧
        (ev.has epollErr = false →
          (a.connectPoll ≠ .ok → a.connectPoll ≠ .failed → next = none) ∧
            ∀ d ∈ a.connectPoll.asks, granted = true ∨ s.asked = d)
  | .other _ => True

instance (s : ConnectRun) (l : ConnectLabel) : Decidable (s.Steady l) := by
  cases l <;> unfold Steady <;> infer_instance

end ConnectRun

/-- A process with a reactor that tracks anything but the connect, and a new `Dbconnection`. -/
def connectMachine : Machine ConnectRun ConnectLabel where
  init s := (∀ fd, s.run.callback fd ≠ some .connect) ∧
    ∃ parent memory, s.conn = .new parent memory ∧ s.begun = false ∧ s.bad = false ∧
      s.asked = .writing ∧ s.polls = [] ∧ s.called = none
  next := ConnectRun.next

end FiberConn
