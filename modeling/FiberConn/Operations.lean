import FiberConn.DbConnectionType
import FiberConn.HttpServerType
import FiberConn.ReactorRun
import FiberConn.RequestConnectionType

set_option autoImplicit false

/-! # Operations on one reactor

All three connection classes and the listening server together: a process with one `IOReactor`, the
connection objects on its heap, and a user who starts operations, deletes objects and whose
callbacks do the same. Objects and operations are numbered as they come. The machine runs the
objects' own code and interprets the calls it makes; `owner`, `pending` and `log` are history, not
state of the program. -/

namespace FiberConn

/-- The functions stored in the reactor: the one of `HttpServer::listen`, and `[this, cb]` for
    object `obj` with the callback of operation `op`. -/
inductive Closure
  | accept
  | handler (obj op : ℕ)
deriving DecidableEq

/-! ## The three classes -/

inductive Connection (Lq Lr : Llhttp)
  | client (c : Clientconnection Lq)
  | api (c : APIconnection Lr)
  | db (c : Dbconnection)

/-- What the environment answers during one event. `accepted` is the descriptor of a new client,
    with the UUID its object draws. -/
structure Answers where
  recvs : List RecvResult
  sends : List SendResult
  pq : PqAnswers
  accepted : Option (ℤ × String)

/-- The operations, with the answers of the calls that start them: the descriptor `createConnection`
    or `PQconnectStart` opens, if any. -/
inductive Operation
  | read
  | write
  | connectApi (sockfd : Option ℤ)
  | sendRequest
  | connectDb (conninfo : String) (socket : Option ℤ)
  | sendQuery (query : String) (a : SendAnswers)

namespace Operation

/-- An operation that gives its object a new socket. -/
def Connects : Operation → Prop
  | .connectApi _ => True
  | .connectDb _ _ => True
  | _ => False

instance : DecidablePred Connects := fun op => by cases op <;> unfold Connects <;> infer_instance

/-- The descriptor opened at the start. -/
def opens : Operation → Option ℤ
  | .connectApi sockfd => sockfd
  | .connectDb _ socket => socket
  | _ => none

/-- `PQflush` returns 0, 1 or -1. -/
def Documented : Operation → Prop
  | .sendQuery _ a => a.flush = 0 ∨ a.flush = 1 ∨ a.flush = -1
  | _ => True

instance : DecidablePred Documented := fun op => by
  cases op <;> unfold Documented <;> infer_instance

end Operation

/-- An object's class, its socket, and for a `Dbconnection` the socket of its `PGconn`. -/
inductive Handle
  | client (socket : ℤ)
  | api (socket : ℤ)
  | db (socket : ℤ) (conn : Option ℤ)
deriving DecidableEq

def Handle.socket : Handle → ℤ
  | .client socket => socket
  | .api socket => socket
  | .db socket _ => socket

namespace Connection

variable {Lq Lr : Llhttp}

def handle : Connection Lq Lr → Handle
  | .client c => .client c.socket
  | .api c => .api c.socket
  | .db c => .db c.socket c.conn

def socket (c : Connection Lq Lr) : ℤ := c.handle.socket

/-- `handleEvent`. -/
def handleEvent (c : Connection Lq Lr) (ev : EpollEvent) (a : Answers) :
    Connection Lq Lr × List Effect :=
  match c with
  | .client c =>
      let r := c.handleEvent ev a.recvs a.sends
      (.client r.conn, r.effects)
  | .api c =>
      let r := c.handleEvent ev a.recvs a.sends
      (.api r.conn, r.effects)
  | .db c =>
      let r := c.handleEvent ev a.pq
      (.db r.1, r.2)

/-- The method that starts the operation, on an object of its class. -/
def start : Connection Lq Lr → Operation → Option (Connection Lq Lr × List Effect)
  | .client c, .read => some (.client c, c.read)
  | .client c, .write => some (.client c, c.write)
  | .api c, .connectApi sockfd =>
      let r := c.connectApi (sockfd.getD (-1))
      some (.api r.1, r.2)
  | .api c, .sendRequest =>
      let r := c.sendRequest
      some (.api r.1, r.2)
  | .db c, .connectDb conninfo socket =>
      let r := c.connectDb conninfo socket
      some (.db r.1, r.2)
  | .db c, .sendQuery query a =>
      let r := c.sendQuery query a
      some (.db r.1, r.2)
  | _, _ => none

/-- The destructor. -/
def destroy : Connection Lq Lr → List Effect
  | .client c => c.destroy
  | .api c => c.destroy
  | .db c => c.destroy

/-- The destructor's part in `isAlive`. -/
def unregister (c : Connection Lq Lr) (isAlive : IsAlive) : IsAlive :=
  match c with
  | .client c => c.unregister isAlive
  | _ => isAlive

end Connection

/-! ## The process -/

/-- Whom an open descriptor was opened for. -/
inductive Owner
  | server
  | object (obj : ℕ)
  | other
deriving DecidableEq

/-- An operation that has been started and not called back, with the socket it works on. -/
structure Pending where
  op : ℕ
  socket : Option ℤ
deriving DecidableEq

inductive OpEntry
  /-- The callback of `op` was invoked; `registered` tells whether the operation's socket was in the
      epoll set or in the callback map then. -/
  | called (op : ℕ) (registered : Bool)
  /-- `handleEvent` of `obj` was run for `op`; `outstanding` tells whether `op` was outstanding. -/
  | handled (obj op : ℕ) (outstanding : Bool)
deriving DecidableEq

/-- The entry is an invocation of the callback of `op`. -/
def OpEntry.IsCallOf (op : ℕ) : OpEntry → Bool
  | .called op' _ => op' = op
  | .handled _ _ _ => false

/-- `run` is the reactor and where in `reactorRun` the process is; `inCallback` tells whether the
    handler that is running has called user code. -/
structure Process (Lq Lr : Llhttp) where
  run : RunState Closure
  heap : ℕ → Option (Connection Lq Lr)
  isAlive : IsAlive
  inCallback : Bool
  owner : ℤ → Owner
  allocated : ℕ
  started : ℕ
  pending : ℕ → Option Pending
  log : List OpEntry

/-- The reactor after an action of a handler or of the user. -/
def RunState.act {κ : Type} (s : RunState κ) (a : Action κ) : RunState κ :=
  { s with ioc := (a.run s.ioc).1, log := .acted a (a.run s.ioc).2 :: s.log }

/-- What a call does to the reactor, made by object `obj` for operation `op`. Every request to
    `epoll_ctl` that can succeed does, and `PQfinish` closes the socket of its connection. -/
def Effect.action (obj op : ℕ) : Effect → Option (Action Closure)
  | .addTrack fd mask priority => some (.addTrack fd mask priority (.handler obj op) true)
  | .modifyTrack fd mask priority => some (.modifyTrack fd mask priority (.handler obj op) true)
  | .removeTrack fd => some (.removeTrack fd)
  | .close fd => some (.closeFd fd)
  | .pq (.finish (some fd)) => some (.closeFd fd)
  | _ => none

namespace Process

variable {Lq Lr : Llhttp}

/-- The descriptor's entry in the callback map. -/
def callback (s : Process Lq Lr) (fd : ℤ) : Option Closure := s.run.ioc.eventCallback.get fd

/-- The epoll set. -/
def interest (s : Process Lq Lr) : Finset ℤ := s.run.ioc.kernel.interest.keys

def openFds (s : Process Lq Lr) : Finset ℤ := s.run.ioc.kernel.openFds

/-- How often the callback of `op` has been invoked. -/
def calls (s : Process Lq Lr) (op : ℕ) : ℕ := s.log.countP (OpEntry.IsCallOf op)

/-- The socket of the operation outstanding on `obj` is in the epoll set or in the callback map. -/
def registered (s : Process Lq Lr) (obj : ℕ) : Bool :=
  (s.pending obj).any fun p => p.socket.any fun fd =>
    decide (fd ∈ s.interest ∨ fd ∈ s.run.ioc.eventCallback.keys)

/-- User code is running: outside `reactorRun`, or in a callback. -/
def UserCode (s : Process Lq Lr) : Prop :=
  s.run.UserCode ∧ (s.run.phase = .outside ∨ s.inCallback = true)

instance (s : Process Lq Lr) : Decidable s.UserCode := inferInstanceAs (Decidable (_ ∧ _))

/-- A number the kernel can give to a new descriptor. -/
def Fresh (s : Process Lq Lr) (fd : ℤ) : Prop := 0 ≤ fd ∧ fd ∉ s.openFds

instance (s : Process Lq Lr) (fd : ℤ) : Decidable (s.Fresh fd) :=
  inferInstanceAs (Decidable (_ ∧ _))

/-- The object's socket is open, and was opened for it. -/
def HasSocket (s : Process Lq Lr) (obj : ℕ) : Prop :=
  ∃ c ∈ s.heap obj, s.owner c.socket = .object obj ∧ c.socket ∈ s.openFds

instance (s : Process Lq Lr) (obj : ℕ) : Decidable (s.HasSocket obj) :=
  inferInstanceAs (Decidable (∃ c ∈ s.heap obj, _ ∧ _))

def act (s : Process Lq Lr) (a : Action Closure) : Process Lq Lr := { s with run := s.run.act a }

/-- A descriptor is opened. -/
def openFd (s : Process Lq Lr) (fd : ℤ) (owner : Owner) : Process Lq Lr :=
  { s.act (.openFd fd) with owner := Function.update s.owner fd owner }

/-- `new`. -/
def allocate (s : Process Lq Lr) (c : Connection Lq Lr) : Process Lq Lr :=
  { s with heap := Function.update s.heap s.allocated (some c), allocated := s.allocated + 1 }

/-- `cb(this)`: the operation is over and user code runs. -/
def call (s : Process Lq Lr) (obj op : ℕ) : Process Lq Lr :=
  { s with
    pending := Function.update s.pending obj none
    inCallback := true
    log := .called op (s.registered obj) :: s.log }

/-- One call made by `obj` for `op`. -/
def perform (obj op : ℕ) (s : Process Lq Lr) (e : Effect) : Process Lq Lr :=
  if e.IsCallback then s.call obj op
  else match e.action obj op with
    | some a => s.act a
    | none => s

/-- The stored `[this, cb]` is run on an event. -/
def handle (s : Process Lq Lr) (obj op : ℕ) (ev : EpollEvent) (a : Answers) : Process Lq Lr :=
  let s := { s with
    log := .handled obj op ((s.pending obj).any fun p : Pending => decide (p.op = op)) :: s.log }
  match s.heap obj with
  | some c =>
      let r := c.handleEvent ev a
      r.2.foldl (perform obj op) { s with heap := Function.update s.heap obj (some r.1) }
  | none => s

/-- The function `HttpServer::listen` stores: a new client is handed to the user. -/
def accept (s : Process Lq Lr) (ev : EpollEvent) (a : Answers) : Option (Process Lq Lr) :=
  if ev.has epollErr then some s
  else if ev.has epollIn then
    match a.accepted with
    | none => some s
    | some (fd, connectionId) =>
        if s.Fresh fd then
          let c : Clientconnection Lq := .new fd connectionId
          some { (s.allocate (.client c)).openFd fd (.object s.allocated) with
            isAlive := c.register s.allocated s.isAlive
            inCallback := true }
        else none
  else some s

/-- The rest of `runCallback`. -/
def dispatched (s : Process Lq Lr) (ev : EpollEvent) (a : Answers) :
    Option Closure → Option (Process Lq Lr)
  | some (.handler obj op) => some (s.handle obj op ev a)
  | some .accept => s.accept ev a
  | none => some s

/-- `op` is started on `obj`, which is `c` and becomes `r.1` while making the calls `r.2`. -/
def start (s : Process Lq Lr) (obj : ℕ) (op : Operation) (r : Connection Lq Lr × List Effect) :
    Process Lq Lr :=
  let s := match op.opens with
    | some fd => s.openFd fd (.object obj)
    | none => s
  let p : Pending := ⟨s.started, if op.Connects then op.opens else some r.1.socket⟩
  r.2.foldl (perform obj p.op)
    { s with
      heap := Function.update s.heap obj (some r.1)
      pending := Function.update s.pending obj (some p)
      started := s.started + 1 }

/-- `delete`. -/
def delete (s : Process Lq Lr) (obj : ℕ) (c : Connection Lq Lr) : Process Lq Lr :=
  let s := c.destroy.foldl (perform obj 0) s
  { s with heap := Function.update s.heap obj none, isAlive := c.unregister s.isAlive }

end Process

/-! ## Runs -/

inductive ProcessLabel (Lq Lr : Llhttp)
  /-- A step of `reactorRun` other than `runCallback`. -/
  | loop (l : Label Closure)
  /-- `runCallback`. -/
  | dispatch (e : QueuedEvent) (a : Answers)
  /-- `new HttpServer`, whose constructor opens a listening socket, and `listen`. -/
  | newServer (fd : ℤ)
  | listen (fd : ℤ)
  | newApi (parent : String) (memory : ℤ)
  | newDb (parent : String) (memory : ℤ)
  /-- The user writes into an object's fields, but not its socket. -/
  | edit (obj : ℕ) (c : Connection Lq Lr)
  | start (obj : ℕ) (op : Operation)
  | delete (obj : ℕ)
  /-- Descriptors that have nothing to do with the reactor come and go. -/
  | openOther (fd : ℤ)
  | closeOther (fd : ℤ)

/-- A step that only moves `reactorRun` along. -/
def Label.IsLoop {κ : Type} : Label κ → Bool
  | .dispatch _ => false
  | .act _ => false
  | _ => true

namespace Process

variable {Lq Lr : Llhttp}

def next (s : Process Lq Lr) : ProcessLabel Lq Lr → Option (Process Lq Lr)
  | .loop l => if l.IsLoop then (s.run.next l).map fun run => { s with run := run } else none
  | .dispatch e a =>
      (s.run.next (.dispatch e)).bind fun run =>
        { s with run := run, inCallback := false }.dispatched e.2 a (s.run.ioc.runCallback e)
  | .newServer fd => if s.UserCode ∧ s.Fresh fd then some (s.openFd fd .server) else none
  | .listen fd =>
      if s.UserCode ∧ s.owner fd = .server then some (s.act (.asyncAccept fd .accept true))
      else none
  | .newApi parent memory =>
      if s.UserCode then some (s.allocate (.api (.new parent memory))) else none
  | .newDb parent memory =>
      if s.UserCode then some (s.allocate (.db (.new parent memory))) else none
  | .edit obj c =>
      if s.UserCode ∧ (s.heap obj).map Connection.handle = some c.handle then
        some { s with heap := Function.update s.heap obj (some c) }
      else none
  | .start obj op =>
      if s.UserCode ∧ op.Documented ∧ s.pending obj = none ∧ (op.Connects ∨ s.HasSocket obj) ∧
          ∀ fd ∈ op.opens, s.Fresh fd then
        ((s.heap obj).bind fun c => c.start op).map fun r => s.start obj op r
      else none
  | .delete obj =>
      if s.UserCode ∧ s.pending obj = none then
        (s.heap obj).map fun c => s.delete obj c
      else none
  | .openOther fd => if s.UserCode ∧ s.Fresh fd then some (s.openFd fd .other) else none
  | .closeOther fd =>
      if s.UserCode ∧ s.owner fd = .other then some (s.act (.closeFd fd)) else none

/-! ## The law of operations -/

/-- **One callback for each operation.** No callback is invoked twice; when one is, the socket is
    registered neither with epoll nor with the reactor; until then it is registered with both, with
    the operation's own callback; and no handler runs but for an outstanding operation. -/
structure OneCallback (s : Process Lq Lr) : Prop where
  once : ∀ op, s.calls op ≤ 1
  unregistered : ∀ op registered, .called op registered ∈ s.log → registered = false
  tracked : ∀ obj p, s.pending obj = some p →
    ∃ fd ∈ p.socket, fd ∈ s.interest ∧ s.callback fd = some (.handler obj p.op)
  outstanding : ∀ obj op outstanding, .handled obj op outstanding ∈ s.log → outstanding = true

/-- No object is deleted while the number in its `socket` field is one under which another object's
    operation is registered. -/
def Safe (s : Process Lq Lr) : ProcessLabel Lq Lr → Prop
  | .delete obj => ∀ c ∈ s.heap obj, ∀ x ∈ s.callback c.socket, x = .accept
  | _ => True

instance (s : Process Lq Lr) (l : ProcessLabel Lq Lr) : Decidable (s.Safe l) := by
  cases l <;> unfold Safe <;> infer_instance

end Process

/-- A process with one reactor, nothing on the heap and any descriptors open. -/
def processMachine (Lq Lr : Llhttp) (maxEvents : ℕ) :
    Machine (Process Lq Lr) (ProcessLabel Lq Lr) where
  init s := ∃ k : Kernel, k.interest.keys = ∅ ∧
    s = ⟨⟨.new maxEvents k, .outside, []⟩, fun _ => none, ∅, false, fun _ => .other, 0, 0,
      fun _ => none, []⟩
  next := Process.next

end FiberConn
