import FiberConn.Operations

set_option autoImplicit false

/-! # Objects and operations at the user's will

`Process` runs operations whose registrations `epoll_ctl` grants, on objects that are deleted when
they are idle. `FreeProcess` runs the same code without either: the user constructs and deletes
objects of the three classes whenever user code runs, an object's own handler apart, starts any
operation in any state, also beside another one on the same socket, and `epoll_ctl` may refuse.
Descriptors are opened and closed around it at any time, by libpq or by the rest of the process.

`log` is history. It records of each handler that ran whether its object was still there, and of
each operation, when the call that started it or a handler that served it returned, whether it was
taken care of. -/

namespace FiberConn

variable {κ : Type} {Lq Lr : Llhttp}

/-! ## Calls on a reactor that may refuse -/

/-- What a call asks of the reactor, for an operation whose function is `cb`. `granted` is what
    `epoll_ctl` makes of a request that it could meet. -/
def Effect.request (cb : κ) (granted : Bool) : Effect → Option (Action κ)
  | .addTrack fd mask priority => some (.addTrack fd mask priority cb granted)
  | .modifyTrack fd mask priority => some (.modifyTrack fd mask priority cb granted)
  | .removeTrack fd => some (.removeTrack fd)
  | .close fd => some (.closeFd fd)
  | .pq (.finish (some fd)) => some (.closeFd fd)
  | _ => none

/-- The reactor while it performs calls, and whether it has returned -1 to one of them. -/
structure Performed (κ : Type) where
  run : RunState κ
  refused : Bool

def Performed.step (cb : κ) (granted : Bool) (p : Performed κ) (e : Effect) : Performed κ :=
  match e.request cb granted with
  | some a => ⟨p.run.act a, p.refused || decide ((a.run p.run.ioc).2 = -1)⟩
  | none => p

/-- A step makes at most one request that `epoll_ctl` can refuse. -/
def RunState.perform (s : RunState κ) (cb : κ) (granted : Bool) (effs : List Effect) :
    Performed κ :=
  effs.foldl (Performed.step cb granted) ⟨s, false⟩

/-- The descriptor's entry in the callback map. -/
def RunState.callback (s : RunState κ) (fd : ℤ) : Option κ := s.ioc.eventCallback.get fd

/-- An open descriptor outside the epoll set, and the kernel grants the request. -/
def RunState.CanAdd (s : RunState κ) (fd : ℤ) (granted : Bool) : Prop :=
  granted = true ∧ fd ∈ s.ioc.kernel.openFds ∧ fd ∉ s.ioc.kernel.interest.keys

instance (s : RunState κ) (fd : ℤ) (granted : Bool) : Decidable (s.CanAdd fd granted) :=
  inferInstanceAs (Decidable (_ ∧ _ ∧ _))

/-! ## Objects and operations -/

/-- The function is a handler of object `obj`. -/
def Closure.IsHandlerOf (obj : ℕ) : Closure → Bool
  | .handler obj' _ => obj' == obj
  | .accept => false

namespace Connection

def isError : Connection Lq Lr → Bool
  | .client c => c.isError
  | .api c => c.isError
  | .db c => c.isError

/-- The descriptor the destructor passes to `removeTrack`. -/
def untracks : Connection Lq Lr → Option ℤ
  | .db c => some c.socket
  | _ => none

end Connection

/-- The descriptor an operation registers when it is started on `c`. `connectApi` registers none
    without a socket, `connectDb` none without a `PGconn`, `sendQuery` none when libpq fails it. -/
def Operation.tracks (c : Connection Lq Lr) : Operation → Option ℤ
  | .connectApi sockfd => if sockfd.getD (-1) = -1 then none else sockfd
  | .connectDb _ socket => socket
  | .sendQuery _ a => if a.sendQuery = 0 ∨ a.flush = -1 then none else some c.socket
  | _ => some c.socket

/-! ## The process -/

inductive Report
  /-- `handleEvent` of `obj` was run; `live` tells whether the object existed. -/
  | handled (obj : ℕ) (live : Bool)
  /-- A call made for `op` of `obj` returned: the method that starts it, or a handler. `settled`
      tells whether the callback of `op` was invoked in it, with `is_error` set if a registration
      was refused, or is stored in the reactor under the operation's socket. -/
  | returned (obj op : ℕ) (settled : Bool)
deriving DecidableEq

/-- `running` is the object whose handler the reactor called last. -/
structure FreeProcess (Lq Lr : Llhttp) where
  run : RunState Closure
  heap : ℕ → Option (Connection Lq Lr)
  isAlive : IsAlive
  running : Option ℕ
  inCallback : Bool
  allocated : ℕ
  started : ℕ
  log : List Report

namespace FreeProcess

/-- User code is running: outside `reactorRun`, or in a callback. -/
def UserCode (s : FreeProcess Lq Lr) : Prop :=
  s.run.UserCode ∧ (s.run.phase = .outside ∨ s.inCallback = true)

instance (s : FreeProcess Lq Lr) : Decidable s.UserCode := inferInstanceAs (Decidable (_ ∧ _))

/-- A number the kernel can give to a new descriptor. -/
def Fresh (s : FreeProcess Lq Lr) (fd : ℤ) : Prop := 0 ≤ fd ∧ fd ∉ s.run.ioc.kernel.openFds

instance (s : FreeProcess Lq Lr) (fd : ℤ) : Decidable (s.Fresh fd) :=
  inferInstanceAs (Decidable (_ ∧ _))

/-- The handler that runs, if any, is not one of `obj`. -/
def OutsideHandler (s : FreeProcess Lq Lr) (obj : ℕ) : Prop :=
  s.run.phase = .outside ∨ s.running ≠ some obj

instance (s : FreeProcess Lq Lr) (obj : ℕ) : Decidable (s.OutsideHandler obj) :=
  inferInstanceAs (Decidable (_ ∨ _))

/-- `new`. -/
def allocate (s : FreeProcess Lq Lr) (c : Connection Lq Lr) : FreeProcess Lq Lr :=
  { s with heap := Function.update s.heap s.allocated (some c), allocated := s.allocated + 1 }

/-- The constructor of `Clientconnection`, with its entry in `isAlive`. -/
def newClient (s : FreeProcess Lq Lr) (sockfd : ℤ) (connectionId : String) : FreeProcess Lq Lr :=
  let c : Clientconnection Lq := .new sockfd connectionId
  { s.allocate (.client c) with isAlive := c.register s.allocated s.isAlive }

/-- `op` of `obj` is taken care of: `effs` called back and left the object `c`, or `done` holds its
    function under `socket`. -/
def Settled (obj op : ℕ) (socket : ℤ) (c : Connection Lq Lr) (effs : List Effect)
    (done : Performed Closure) : Prop :=
  (CallsBack effs = true ∧ (done.refused = true → c.isError = true)) ∨
    done.run.callback socket = some (.handler obj op)

instance (obj op : ℕ) (socket : ℤ) (c : Connection Lq Lr) (effs : List Effect)
    (done : Performed Closure) : Decidable (Settled obj op socket c effs done) :=
  inferInstanceAs (Decidable ((_ ∧ _) ∨ _))

/-- The stored `[this, cb]` is run on an event. The operation's socket is the one the event is
    for. -/
def handle (s : FreeProcess Lq Lr) (obj op : ℕ) (ev : EpollEvent) (a : Answers) (granted : Bool) :
    FreeProcess Lq Lr :=
  match s.heap obj with
  | some c =>
      let r := c.handleEvent ev a
      let done := s.run.perform (.handler obj op) granted r.2
      { s with
        run := done.run
        heap := Function.update s.heap obj (some r.1)
        running := some obj
        inCallback := CallsBack r.2
        log := .returned obj op (Settled obj op ev.fd r.1 r.2 done) :: .handled obj true :: s.log }
  -- nothing is said about what a handler does without its object
  | none => { s with running := some obj, inCallback := false, log := .handled obj false :: s.log }

/-- The function `HttpServer::listen` stores: a new client is handed to the user. -/
def accept (s : FreeProcess Lq Lr) (ev : EpollEvent) (a : Answers) : Option (FreeProcess Lq Lr) :=
  if ev.has epollErr then some s
  else if ev.has epollIn then
    match a.accepted with
    | none => some s
    | some (fd, connectionId) =>
        if s.Fresh fd then
          let s := s.newClient fd connectionId
          some { s with run := s.run.act (.openFd fd), inCallback := true }
        else none
  else some s

/-- The rest of `runCallback`. -/
def dispatched (s : FreeProcess Lq Lr) (ev : EpollEvent) (a : Answers) (granted : Bool) :
    Option Closure → Option (FreeProcess Lq Lr)
  | some (.handler obj op) => some (s.handle obj op ev a granted)
  | some .accept => { s with running := none, inCallback := false }.accept ev a
  | none => some { s with running := none, inCallback := false }

/-- The descriptor `createConnection` or `PQconnectStart` opens. `PQsocket` is -1 when the
    connection is bad from the start. -/
def opened (s : FreeProcess Lq Lr) (op : Operation) : RunState Closure :=
  match op.opens with
  | some fd => if fd = -1 then s.run else s.run.act (.openFd fd)
  | none => s.run

/-- `op` is started on `obj`, which becomes `r.1` while making the calls `r.2`. -/
def start (s : FreeProcess Lq Lr) (obj : ℕ) (op : Operation) (granted : Bool)
    (r : Connection Lq Lr × List Effect) : FreeProcess Lq Lr :=
  let done := (s.opened op).perform (.handler obj s.started) granted r.2
  { s with
    run := done.run
    heap := Function.update s.heap obj (some r.1)
    started := s.started + 1
    log := .returned obj s.started (Settled obj s.started r.1.socket r.1 r.2 done) :: s.log }

/-- `delete`. -/
def delete (s : FreeProcess Lq Lr) (obj : ℕ) (c : Connection Lq Lr) : FreeProcess Lq Lr :=
  { s with
    run := (s.run.perform .accept true c.destroy).run
    heap := Function.update s.heap obj none
    isAlive := c.unregister s.isAlive }

end FreeProcess

/-! ## Runs -/

inductive FreeLabel (Lq Lr : Llhttp)
  /-- A step of `reactorRun` other than `runCallback`. -/
  | loop (l : Label Closure)
  /-- `runCallback`. -/
  | dispatch (e : QueuedEvent) (a : Answers) (granted : Bool)
  | listen (fd : ℤ) (granted : Bool)
  | newClient (sockfd : ℤ) (connectionId : String)
  | newApi (parent : String) (memory : ℤ)
  | newDb (parent : String) (memory : ℤ)
  /-- The user writes into an object's fields, but not its socket. -/
  | edit (obj : ℕ) (c : Connection Lq Lr)
  | start (obj : ℕ) (op : Operation) (granted : Bool)
  | delete (obj : ℕ)
  | openFd (fd : ℤ)
  | closeFd (fd : ℤ)

namespace FreeProcess

def next (s : FreeProcess Lq Lr) : FreeLabel Lq Lr → Option (FreeProcess Lq Lr)
  | .loop l => if l.IsLoop then (s.run.next l).map fun run => { s with run := run } else none
  | .dispatch e a granted =>
      (s.run.next (.dispatch e)).bind fun run =>
        { s with run := run }.dispatched e.2 a granted (s.run.ioc.runCallback e)
  | .listen fd granted =>
      if s.UserCode then some { s with run := s.run.act (.asyncAccept fd .accept granted) }
      else none
  | .newClient sockfd connectionId =>
      if s.UserCode then some (s.newClient sockfd connectionId) else none
  | .newApi parent memory =>
      if s.UserCode then some (s.allocate (.api (.new parent memory))) else none
  | .newDb parent memory =>
      if s.UserCode then some (s.allocate (.db (.new parent memory))) else none
  | .edit obj c =>
      if s.UserCode ∧ (s.heap obj).map Connection.handle = some c.handle then
        some { s with heap := Function.update s.heap obj (some c) }
      else none
  | .start obj op granted =>
      if s.UserCode ∧ op.Documented ∧ ∀ fd ∈ op.opens, fd = -1 ∨ s.Fresh fd then
        ((s.heap obj).bind fun c => c.start op).map fun r => s.start obj op granted r
      else none
  | .delete obj =>
      if s.UserCode ∧ s.OutsideHandler obj then (s.heap obj).map fun c => s.delete obj c else none
  | .openFd fd => if s.Fresh fd then some { s with run := s.run.act (.openFd fd) } else none
  | .closeFd fd => some { s with run := s.run.act (.closeFd fd) }

/-! ## Two laws -/

/-- Every callback in `event_callback_` was registered by an object that has not been deleted, and
    no handler has run for a deleted object. -/
structure NoDangling (s : FreeProcess Lq Lr) : Prop where
  stored : ∀ fd obj op, s.run.callback fd = some (.handler obj op) → (s.heap obj).isSome
  handled : ∀ obj live, .handled obj live ∈ s.log → live = true

/-- No operation has been left without a callback. -/
def NoneStranded (s : FreeProcess Lq Lr) : Prop :=
  ∀ obj op settled, .returned obj op settled ∈ s.log → settled = true

/-- When an object is deleted no handler of it is stored, except under the descriptor its destructor
    untracks. -/
def Untracked (s : FreeProcess Lq Lr) : FreeLabel Lq Lr → Prop
  | .delete obj => ∀ c ∈ s.heap obj, ∀ fd ∈ s.run.ioc.eventCallback.keys,
      (s.run.callback fd).any (Closure.IsHandlerOf obj) → c.untracks = some fd
  | _ => True

instance (s : FreeProcess Lq Lr) (l : FreeLabel Lq Lr) : Decidable (s.Untracked l) := by
  cases l <;> unfold Untracked <;> infer_instance

/-- The descriptor an operation registers is open, not registered with epoll, and the kernel grants
    the request. -/
def Registrable (s : FreeProcess Lq Lr) : FreeLabel Lq Lr → Prop
  | .start obj op granted =>
      ∀ c ∈ s.heap obj, ∀ fd ∈ op.tracks c, (s.opened op).CanAdd fd granted
  | _ => True

instance (s : FreeProcess Lq Lr) (l : FreeLabel Lq Lr) : Decidable (s.Registrable l) := by
  cases l <;> unfold Registrable <;> infer_instance

end FreeProcess

/-- A process with one reactor, nothing on the heap and any descriptors open. -/
def freeMachine (Lq Lr : Llhttp) (maxEvents : ℕ) :
    Machine (FreeProcess Lq Lr) (FreeLabel Lq Lr) where
  init s := ∃ k : Kernel, k.interest.keys = ∅ ∧
    s = ⟨⟨.new maxEvents k, .outside, []⟩, fun _ => none, ∅, none, false, 0, 0, []⟩
  next := FreeProcess.next

end FiberConn
