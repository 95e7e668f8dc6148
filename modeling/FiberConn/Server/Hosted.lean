import FiberConn.Descriptors
import FiberConn.Lifetimes
import FiberConn.Readiness
import FiberConn.Server.Steps

set_option autoImplicit false

/-! # The server on its reactor (`example/server.cpp`)

`Server` is told which client an event is for, and which operation. Here the program runs on the
reactor: a function is stored under the descriptor of its socket, `epoll_wait` reports batches of
events, the queue orders them by priority, and `runCallback` runs what is stored when the event's
turn comes. Descriptors are numbers that the kernel gives out again once they are closed, and
`epoll_ctl` may refuse: what it answers to `read` and `write` is the `granted` of `Server`.

The connections of the pool are the rest of the program: they store functions of their own under any
descriptor, and a step of the pool happens when one of these runs, or user code that called the
pool. -/

namespace FiberConn

/-- The functions stored in the reactor: that of `HttpServer::listen`, `[this, cb]` of a client with
    the lambda of its operation, and those of the pool's connections. -/
inductive ServerClosure
  | accept
  | client (client : ℕ) (op : ClientOp)
  | other
deriving DecidableEq

/-- The mask `read` and `write` register. -/
def ClientOp.mask : ClientOp → EventMask
  | .read => readMask
  | .write => writeMask

/-! ## The calls of the lambdas -/

section Calls

variable (J : Json) {L : Llhttp}

/-- The calls on the reactor and the descriptor table in the lambda given to `read`. -/
def onReadCalls (c : Clientconnection L) : List Effect :=
  if c.isError then c.destroy
  else if c.request.url = ascii "/" then
    match J.parse c.request.body with
    | none => c.write
    | some j =>
        match J.book j, J.dump j with
        | some _, some _ => c.write
        | _, _ => []
  else
    match J.parse c.request.body with
    | none => c.destroy
    -- a query is sent when the pool calls its connection
    | some _ => []

/-- Those in the lambda of an operation. -/
def opCalls (c : Clientconnection L) : ClientOp → List Effect
  | .read => onReadCalls J c
  | .write => c.destroy

end Calls

variable {J : Json} {L : Llhttp}

/-- The client to which the lambda given with the `SELECT` writes. -/
def Server.selectedClient (s : Server J L) (conn : ℕ) : Option (ℕ × Clientconnection L) :=
  if (s.pool.conns conn).isError then none
  else
    ((s.pool.conns conn).getParent s.pool.isAlive).bind fun client =>
      (s.clients client).bind fun c =>
        (J.listing (s.pool.conns conn).results).map fun _ => (client, c)

/-- The client to which the lambda of a query writes. -/
def Server.queryClient (s : Server J L) (conn : ℕ) : QueryCallback → Option (ℕ × Clientconnection L)
  | .inserted => none
  | .selected => s.selectedClient conn

/-! ## The program -/

/-- What the environment answers during one event. -/
structure HostAnswers where
  recvs : List RecvResult
  sends : List SendResult
  accept : AcceptAnswers
  /-- The UUID that a new client draws. -/
  connectionId : String

structure Hosted (J : Json) (L : Llhttp) where
  run : RunState ServerClosure
  server : Server J L
  /-- The handler that runs, if any, is one of the pool's connections. -/
  foreign : Bool

inductive HostedLabel
  /-- `new HttpServer` and `listen`. -/
  | serve (a : SocketAnswers) (granted : Bool)
  /-- A step of `reactorRun` other than `runCallback`. -/
  | loop (l : Label ServerClosure)
  /-- `runCallback`. -/
  | dispatch (e : QueuedEvent) (a : HostAnswers) (granted : Bool)
  | pool (l : PoolLabel)
  /-- The lambda of a query does its work. -/
  | body (granted : Bool)
  /-- The pool's connections act on the reactor, and libpq opens and closes descriptors. -/
  | act (a : Action ServerClosure)

/-- The kernel's tables after a call. -/
def RunState.withKernel {κ : Type} (s : RunState κ) (k : Kernel) : RunState κ :=
  { s with ioc := { s.ioc with kernel := k } }

/-- `addTrack` does not return -1. -/
def RunState.tracks {κ : Type} (s : RunState κ) (fd : ℤ) (mask : EventMask) (granted : Bool) :
    Bool :=
  decide ((s.ioc.kernel.addEpollInterest fd mask granted).2 ≠ -1)

namespace Hosted

/-- The kernel gives a new descriptor a number that is not open. -/
def Fresh (s : Hosted J L) (opened : Option ℤ) : Prop :=
  ∀ fd ∈ opened, 0 ≤ fd ∧ fd ∉ s.run.ioc.kernel.openFds

instance (s : Hosted J L) : (opened : Option ℤ) → Decidable (s.Fresh opened)
  | none => isTrue (by simp [Fresh])
  | some fd => decidable_of_iff (0 ≤ fd ∧ fd ∉ s.run.ioc.kernel.openFds) (by simp [Fresh])

/-- The function `HttpServer::listen` stores, with the lambda given to `listen`. -/
def accept (s : Hosted J L) (ev : EpollEvent) (a : HostAnswers) (granted : Bool) :
    Option (Hosted J L) :=
  if ev.has epollErr then some s
  else if ev.has epollIn then
    let r := s.run.ioc.kernel.acceptConnection a.accept
    let run := s.run.withKernel r.1
    if r.2 = -1 then some { s with run := run }
    else
      (s.server.pool.next (.accept a.connectionId)).map fun w =>
        let c : Clientconnection L := .new r.2 a.connectionId
        { s with
          run := (run.perform (.client s.server.pool.accepted .read) granted c.read).run
          server := s.server.welcome r.2 a.connectionId (run.tracks r.2 readMask granted) w }
  else some s

/-- `handleEvent` of a client, with the lambda of its operation. -/
def handle (s : Hosted J L) (client : ℕ) (op : ClientOp) (ev : EpollEvent) (a : HostAnswers)
    (granted : Bool) : Option (Hosted J L) :=
  match s.server.clients client with
  | none => some { s with server := s.server.fail .dangling }
  | some c =>
      let r := c.handleEvent ev a.recvs a.sends
      let run := (s.run.perform (.client client op) granted r.effects).run
      if HonestSends r.effects then
        if CallsBack r.effects then
          some { s with
            run := (run.perform (.client client .write) granted (opCalls J r.conn op)).run
            server := (s.server.calledBack client r).run client r.conn
              (run.tracks r.conn.socket writeMask granted) op }
        else some { s with run := run, server := s.server.handled client r }
      else none

/-- The rest of `runCallback`. -/
def dispatched (s : Hosted J L) (ev : EpollEvent) (a : HostAnswers) (granted : Bool) :
    Option ServerClosure → Option (Hosted J L)
  | some .accept => { s with foreign := false }.accept ev a granted
  | some (.client client op) => { s with foreign := false }.handle client op ev a granted
  | some .other => some { s with foreign := true }
  | none => some { s with foreign := false }

/-- What the `write` in the lambda of a query is answered. -/
def queryTracks (s : Hosted J L) (conn : ℕ) (cb : QueryCallback) (granted : Bool) : Bool :=
  (s.server.queryClient conn cb).any fun x => s.run.tracks x.2.socket writeMask granted

/-- The lambda of a query. -/
def runQuery (s : Hosted J L) (conn : ℕ) (cb : QueryCallback) (granted : Bool) : Hosted J L :=
  { s with
    run := match s.server.queryClient conn cb with
      | some (client, c) => (s.run.perform (.client client .write) granted c.write).run
      | none => s.run
    server := s.server.runQuery conn (s.queryTracks conn cb granted) cb }

/-- Nothing is reported that was not asked for. -/
def Honest (s : Hosted J L) : Label ServerClosure → Prop
  | .wait events => ∀ ev ∈ events, ∀ mask ∈ s.run.ioc.kernel.interest.lookup ev.fd,
      ev.ReportedFor mask
  | _ => True

instance (s : Hosted J L) (l : Label ServerClosure) : Decidable (s.Honest l) :=
  match l with
  -- the instance for all masks would go through the numbers of 32 bits
  | .wait events =>
      have (ev : EpollEvent) : Decidable (∀ mask ∈ s.run.ioc.kernel.interest.lookup ev.fd,
          ev.ReportedFor mask) := Option.decidableForallMem _
      List.decidableBAll _ events
  | .enter | .waitFailed | .dispatch _ | .act _ | .finish | .leave => instDecidableTrue

/-- No event of the descriptor waits in the queue. -/
def Quiet (s : Hosted J L) (fd : ℤ) : Prop := ∀ e ∈ s.run.waiting, e.2.fd ≠ fd

instance (s : Hosted J L) (fd : ℤ) : Decidable (s.Quiet fd) :=
  inferInstanceAs (Decidable (∀ e ∈ s.run.waiting, _))

/-- What the rest of the program may do: it stores its own functions, and takes a descriptor away
    only when no event of it waits. A connection does so in its own handler, and libpq in the calls
    that are made for it. -/
def Foreign (s : Hosted J L) : Action ServerClosure → Prop
  | .openFd fd => s.Fresh (some fd)
  | .closeFd fd => s.Quiet fd
  | .removeTrack fd => s.Quiet fd
  | a => ∀ x ∈ a.registers, x.2.1 = .other

instance (s : Hosted J L) : DecidablePred s.Foreign
  | .openFd fd => inferInstanceAs (Decidable (s.Fresh (some fd)))
  | .closeFd fd | .removeTrack fd => inferInstanceAs (Decidable (s.Quiet fd))
  | .asyncAccept _ cb _ | .addTrack _ _ _ cb _ | .modifyTrack _ _ _ cb _ =>
      decidable_of_iff (cb = .other) (by simp [Foreign, Action.registers])

/-- The pool's events come in handlers of its connections. -/
def Driven (s : Hosted J L) : PoolLabel → Prop
  | .connectEvent _ _ _ => s.foreign = true
  | .queryEvent _ _ _ _ => s.foreign = true
  | _ => True

instance (s : Hosted J L) : DecidablePred s.Driven
  | .connectEvent _ _ _ | .queryEvent _ _ _ _ => instDecidableEqBool s.foreign true
  | .construct _ _ | .constructed | .accept _ | .delete _ | .submit _ _ | .send _ | .ret | .loop =>
      instDecidableTrue

def step (s : Hosted J L) : HostedLabel → Option (Hosted J L)
  | .serve a granted =>
      if s.run.phase = .outside ∧ s.server.pool.stack = [] ∧ s.Fresh a.socket then
        let r := s.run.ioc.kernel.getSocket true false a
        some { s with run := (s.run.withKernel r.1).act (.asyncAccept r.2 .accept granted) }
      else none
  | .loop l =>
      if l.IsLoop ∧ s.server.pool.stack = [] ∧ s.Honest l then
        (s.run.next l).map fun run => { s with run := run }
      else none
  | .dispatch e a granted =>
      if s.Fresh a.accept.accept then
        (s.run.next (.dispatch e)).bind fun run =>
          { s with run := run }.dispatched e.2 a granted (s.run.ioc.runCallback e)
      else none
  | .pool l =>
      if s.run.UserCode ∧ s.Driven l then
        (s.server.next (.pool l)).map fun server => { s with server := server }
      else none
  | .body granted =>
      match s.server.pool.stack with
      | .user conn q :: _ =>
          (s.server.callback q.cb).map fun cb =>
            { s with server := s.server.entered q }.runQuery conn cb granted
      | _ => none
  | .act a =>
      if s.run.UserCode ∧ s.Foreign a then some { s with run := s.run.act a } else none

/-- One step of a program that has not failed. -/
def next (s : Hosted J L) (l : HostedLabel) : Option (Hosted J L) :=
  if s.server.fault = none then s.step l else none

/-! ## What it is for the server -/

/-- What the `write` in the lambda of a client's handler is answered. -/
def eventTracks (s : Hosted J L) (client : ℕ) (op : ClientOp) (ev : EpollEvent) (a : HostAnswers)
    (granted : Bool) : Bool :=
  (s.server.clients client).any fun c =>
    let r := c.handleEvent ev a.recvs a.sends
    (s.run.perform (.client client op) granted r.effects).run.tracks r.conn.socket writeMask granted

/-- The event brings a client. -/
def Brings (s : Hosted J L) (ev : EpollEvent) (a : HostAnswers) : Prop :=
  ev.has epollErr = false ∧ ev.has epollIn = true ∧
    (s.run.ioc.kernel.acceptConnection a.accept).2 ≠ -1

instance (s : Hosted J L) (ev : EpollEvent) (a : HostAnswers) : Decidable (s.Brings ev a) :=
  inferInstanceAs (Decidable (_ ∧ _ ∧ _))

/-- The step of `Server` that a stored function is. -/
def closureLabel (s : Hosted J L) (ev : EpollEvent) (a : HostAnswers) (granted : Bool) :
    ServerClosure → Option ServerLabel
  | .accept =>
      if s.Brings ev a then
        let r := s.run.ioc.kernel.acceptConnection a.accept
        some (.accept r.2 a.connectionId ((s.run.withKernel r.1).tracks r.2 readMask granted))
      else none
  | .client client op =>
      some (.event client ev a.recvs a.sends (s.eventTracks client op ev a granted))
  | .other => none

/-- The step of `Server` that a step is. -/
def serverLabel (s : Hosted J L) : HostedLabel → Option ServerLabel
  | .pool l => some (.pool l)
  | .body granted =>
      match s.server.pool.stack with
      | .user conn q :: _ =>
          (s.server.callback q.cb).map fun cb =>
            .body ({ s with server := s.server.entered q }.queryTracks conn cb granted)
      | _ => none
  | .dispatch e a granted =>
      (s.run.next (.dispatch e)).bind fun run =>
        (s.run.ioc.runCallback e).bind ({ s with run := run }.closureLabel e.2 a granted)
  | _ => none

/-- A step of a run, as one of `Server`. -/
def project (x : Hosted J L × HostedLabel) : Option (Server J L × ServerLabel) :=
  (x.1.serverLabel x.2).map fun l => (x.1.server, l)

end Hosted

/-- `main`, where the pool is being constructed; `maxEvents` is the argument of `new IOReactor`. -/
def hostedMachine (J : Json) (L : Llhttp) (maxEvents : ℕ) : Machine (Hosted J L) HostedLabel where
  init s := ∃ k : Kernel, k.interest.keys = ∅ ∧
    s = ⟨⟨.new maxEvents k, .outside, []⟩, .start, false⟩
  next := Hosted.next

end FiberConn
