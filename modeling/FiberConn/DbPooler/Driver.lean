import FiberConn.DbPooler
import FiberConn.Lifetimes

set_option autoImplicit false

/-! # A pool driven by `reactorRun`

The pool on the reactor that drives it, in a program that uses the reactor for other things too. The
calls its connections make are performed on the reactor, an event that `reactorRun` takes from its
queue runs the function stored for its descriptor, and `reactorRun` returns 0 when nothing is stored
any more. `epoll_ctl` may refuse, and descriptors are opened and closed by the rest of the program
and by libpq.

`reactorRun` counts the descriptors it tracks. The queries that wait are in `pending_queries`, and
those on a connection are where its socket is tracked, or nowhere. -/

namespace FiberConn

open Machine

/-- The functions stored in the reactor: `[this, cb]` of connection `c` with the lambda of its
    connect, or with the completion lambda of `q`; and those of the rest of the program. -/
inductive PoolClosure
  | connect (c : ℕ)
  | query (c : ℕ) (q : PendingQuery)
  | other
deriving DecidableEq

/-- The function is that of a query. -/
def PoolClosure.IsQuery : PoolClosure → Bool
  | .query _ _ => true
  | _ => false

/-- The calls on the reactor that a step of the pool makes, with the function it stores. -/
def PoolState.calls (w : PoolState) : PoolLabel → Option (PoolClosure × List Effect)
  | .construct memory start =>
      some (.connect w.built,
        ((Dbconnection.new "" memory).connectDb (cStr w.pool.connectionInfo) start).2)
  | .send a =>
      match w.stack with
      | .send c q :: _ => some (.query c q, ((w.conns c).sendQuery (cStr q.query) a).2)
      | _ => none
  | .connectEvent c ev a => some (.connect c, ((w.conns c).handleEvent ev a).2)
  | .queryEvent c q ev a => some (.query c q, ((w.conns c).handleEvent ev a).2)
  | _ => none

/-- `foreign` says that the handler that runs, if any, belongs to the rest of the program. -/
structure Driven where
  run : RunState PoolClosure
  pool : PoolState
  foreign : Bool

namespace Driven

/-- User code runs: in a callback of the pool, or anywhere outside the pool and the reactor. -/
def UserCode (s : Driven) : Prop :=
  s.run.UserCode ∧ s.pool.UserCode ∧
    (s.pool.stack ≠ [] ∨ s.run.phase = .outside ∨ s.foreign = true)

instance (s : Driven) : Decidable s.UserCode := inferInstanceAs (Decidable (_ ∧ _ ∧ _))

/-- A number the kernel can give to a new descriptor. -/
def Fresh (s : Driven) (fd : ℤ) : Prop := 0 ≤ fd ∧ fd ∉ s.run.ioc.kernel.openFds

instance (s : Driven) (fd : ℤ) : Decidable (s.Fresh fd) := inferInstanceAs (Decidable (_ ∧ _))

/-- The constructor of the pool is running. -/
def Constructing (s : Driven) : Prop := s.pool.stack = [.construct s.pool.built]

instance (s : Driven) : Decidable s.Constructing := inferInstanceAs (Decidable (_ = _))

/-- The socket that `PQconnectStart` opens: `PQsocket` is -1 when the connection is bad. -/
def opened (s : Driven) : PoolLabel → RunState PoolClosure
  | .construct _ (some fd) => if fd = -1 then s.run else s.run.act (.openFd fd)
  | _ => s.run

/-- A step of the pool, with the calls it makes. -/
def take (s : Driven) (l : PoolLabel) (granted : Bool) : Option Driven :=
  (s.pool.next l).map fun w =>
    { s with
      pool := w
      run := match s.pool.calls l with
        | some (cb, effs) => ((s.opened l).perform cb granted effs).run
        | none => s.run }

/-- The rest of `runCallback`. -/
def dispatched (s : Driven) (ev : EpollEvent) (a : PqAnswers) (granted : Bool) :
    Option PoolClosure → Option Driven
  | some (.connect c) => { s with foreign := false }.take (.connectEvent c ev a) granted
  | some (.query c q) => { s with foreign := false }.take (.queryEvent c q ev a) granted
  | some .other => some { s with foreign := true }
  | none => some { s with foreign := false }

end Driven

inductive DrivenLabel
  /-- A step of `reactorRun` other than `runCallback`. -/
  | loop (l : Label PoolClosure)
  /-- `runCallback`. -/
  | dispatch (e : QueuedEvent) (a : PqAnswers) (granted : Bool)
  /-- A step of the pool that is not an event. -/
  | pool (l : PoolLabel) (granted : Bool)
  /-- The rest of the program acts on the reactor. -/
  | act (a : Action PoolClosure)
  | openFd (fd : ℤ)
  | closeFd (fd : ℤ)

/-- What the user or the pool's own code decides. -/
def PoolLabel.Enabled (s : Driven) : PoolLabel → Prop
  | .submit _ _ => s.UserCode
  | .construct _ start => ∀ fd ∈ start, fd = -1 ∨ s.Fresh fd
  | .connectEvent _ _ _ => False
  | .queryEvent _ _ _ _ => False
  | _ => True

instance (s : Driven) (l : PoolLabel) : Decidable (l.Enabled s) :=
  match l with
  | .submit _ _ => inferInstanceAs (Decidable s.UserCode)
  | .construct _ start => inferInstanceAs (Decidable (∀ fd ∈ start, fd = -1 ∨ s.Fresh fd))
  | .connectEvent _ _ _ | .queryEvent _ _ _ _ => inferInstanceAs (Decidable False)
  | .constructed | .accept _ | .delete _ | .send _ | .ret | .loop =>
      inferInstanceAs (Decidable True)

/-- What the rest of the program asks of the reactor, with functions of its own; descriptors are
    opened and closed apart. -/
def Action.IsRequest : Action PoolClosure → Prop
  | .openFd _ => False
  | .closeFd _ => False
  | a => ∀ x ∈ a.registers, x.2.1 = .other

instance (a : Action PoolClosure) : Decidable a.IsRequest := by
  cases a <;> unfold Action.IsRequest <;> infer_instance

namespace Driven

def next (s : Driven) : DrivenLabel → Option Driven
  | .loop l =>
      if l.IsLoop ∧ s.pool.stack = [] then (s.run.next l).map fun run => { s with run := run }
      else none
  | .dispatch e a granted =>
      (s.run.next (.dispatch e)).bind fun run =>
        { s with run := run }.dispatched e.2 a granted (s.run.ioc.runCallback e)
  | .pool l granted => if l.Enabled s then s.take l granted else none
  | .act a =>
      if s.UserCode ∧ a.IsRequest then some { s with run := s.run.act a } else none
  | .openFd fd =>
      if s.Fresh fd ∧ ¬ s.Constructing then some { s with run := s.run.act (.openFd fd) } else none
  | .closeFd fd =>
      if ¬ s.Constructing then some { s with run := s.run.act (.closeFd fd) } else none

/-- `reactorRun` is about to return 0: no event is queued and no function is stored. -/
def Exits (s : Driven) : Prop :=
  s.run.phase = .loop ∧ s.run.ioc.eventQueue = [] ∧ s.run.ioc.eventCallback.getSize = 0

instance (s : Driven) : Decidable s.Exits := inferInstanceAs (Decidable (_ ∧ _ ∧ _))

/-- The callback of every query passed to `DBpooler::sendQuery` has been invoked. -/
def Completed (s : Driven) : Prop :=
  ∀ q ∈ history Obs.submitted? s.pool.log, q ∈ history Obs.called? s.pool.log

instance (s : Driven) : Decidable s.Completed := inferInstanceAs (Decidable (∀ _ ∈ _, _))

/-- A query that libpq takes can be tracked: its connection's socket is open, not registered with
    epoll, and the kernel grants the request. The rest of the program leaves the functions of the
    queries where they are. -/
def KeepsTrack (s : Driven) : DrivenLabel → Prop
  | .pool (.send a) granted => a.sendQuery ≠ 0 → a.flush ≠ -1 →
      ∀ f ∈ s.pool.stack.head?, ∀ x ∈ f.sending?,
        s.run.CanAdd (s.pool.conns x.1).socket granted
  | .act a => ∀ fd ∈ s.run.ioc.eventCallback.keys,
      (s.run.callback fd).any PoolClosure.IsQuery → (s.run.act a).callback fd = s.run.callback fd
  | _ => True

instance (s : Driven) (l : DrivenLabel) : Decidable (s.KeepsTrack l) :=
  match l with
  | .pool (.send a) granted => inferInstanceAs (Decidable (a.sendQuery ≠ 0 → a.flush ≠ -1 →
      ∀ f ∈ s.pool.stack.head?, ∀ x ∈ f.sending?,
        s.run.CanAdd (s.pool.conns x.1).socket granted))
  | .act a => inferInstanceAs (Decidable (∀ fd ∈ s.run.ioc.eventCallback.keys,
      (s.run.callback fd).any PoolClosure.IsQuery →
        (s.run.act a).callback fd = s.run.callback fd))
  | .pool (.construct _ _) _ | .pool .constructed _ | .pool (.accept _) _ | .pool (.delete _) _
  | .pool (.submit _ _) _ | .pool .ret _ | .pool .loop _ | .pool (.connectEvent _ _ _) _
  | .pool (.queryEvent _ _ _ _) _ | .loop _ | .dispatch _ _ _ | .openFd _ | .closeFd _ =>
      inferInstanceAs (Decidable True)

end Driven

/-- The last query was submitted while the pool had no connection. -/
def lastAlone : List (Driven × DrivenLabel) → Bool
  | [] => false
  | (s, .pool (.submit _ _) _) :: _ => decide (s.pool.pool.connectedConns = [])
  | _ :: tr => lastAlone tr

/-- A program that constructs a pool, before `reactorRun` or in a handler, on a reactor that knows
    nothing of the pool yet. -/
def drivenMachine : Machine Driven DrivenLabel where
  init s := (∃ connectionInfo poolSize, s.pool = .start connectionInfo poolSize) ∧
    s.run.UserCode ∧ s.foreign = true ∧ (∀ fd ∈ s.run.ioc.kernel.openFds, 0 ≤ fd) ∧
    ∀ fd x, s.run.callback fd = some x → x = .other
  next := Driven.next

end FiberConn
