import FiberConn.DbPooler.Steps
import FiberConn.Lib.Termination

set_option autoImplicit false

/-! # One call into the pool

A user calls `DBpooler::sendQuery`, or a connection calls the completion lambda of its query. The
lambda's loop calls `sendQuery`, which calls `Dbconnection::sendQuery`, which calls the next lambda
in the middle of this when it fails, and the users' callbacks submit more. A `CallState` is such a
call while it is executed, with an account of what it has done so far. Neither the pool it starts
in nor the answers of libpq are restricted; user code does finitely many things in all its
callbacks together. -/

namespace FiberConn

open Machine

/-- A call from outside the pool. -/
inductive PoolCall
  | sendQuery (query client : String)
  /-- The completion lambda of `q`, called with connection `c`. -/
  | complete (c : ℕ) (q : PendingQuery)

/-- What a step costs user code. Constructing a pool and delivering an event are no steps of a
    call. -/
def PoolLabel.toll : PoolLabel → Option ℕ
  | .submit _ _ => some 1
  | .accept _ => some 1
  | .delete _ => some 1
  | .send _ => some 0
  | .ret => some 0
  | .loop => some 0
  | _ => none

structure CallState where
  world : PoolState
  /-- How many things user code is still going to do. -/
  left : ℕ
  /-- The queries passed to `DBpooler::sendQuery` by user code, those passed to
      `Dbconnection::sendQuery`, and those it failed at once. -/
  submitted : List PendingQuery
  dispatched : List PendingQuery
  failed : List PendingQuery
  /-- The queries whose callback was run, with the `is_error` it found. -/
  called : List (PendingQuery × Bool)

namespace PoolState

/-- The query about to be passed to `Dbconnection::sendQuery`. -/
def upcoming (w : PoolState) : List PendingQuery :=
  ((w.stack.head?.bind Frame.sending?).map Prod.snd).toList

def submittedBy (w : PoolState) : PoolLabel → List PendingQuery
  | .submit query client => [⟨query, client, w.nextCb⟩]
  | _ => []

def dispatchedBy (w : PoolState) : PoolLabel → List PendingQuery
  | .send _ => w.upcoming
  | _ => []

/-- `PQsendQuery` returns 0, or `PQflush` -1. -/
def failedBy (w : PoolState) : PoolLabel → List PendingQuery
  | .send a => if a.sendQuery = 0 ∨ a.flush = -1 then w.upcoming else []
  | _ => []

/-- The callback that a step to `w` has run. -/
def calledBy (w : PoolState) : PoolLabel → List (PendingQuery × Bool)
  | .send _ =>
      match w.log with
      | .called c q :: _ => [(q, (w.conns c).isError)]
      | _ => []
  | _ => []

/-- The call begins; user code is going to do at most `n` things in it. -/
def enter (w : PoolState) (n : ℕ) : PoolCall → CallState
  | .sendQuery query client =>
      let q : PendingQuery := ⟨query, client, w.nextCb⟩
      { world := { w with nextCb := w.nextCb + 1, log := .submitted q :: w.log }.sendQuery q
        left := n
        submitted := [q]
        dispatched := []
        failed := []
        called := [] }
  | .complete c q =>
      { world := w.complete c q []
        left := n
        submitted := []
        dispatched := []
        failed := []
        called := [(q, (w.conns c).isError)] }

end PoolState

namespace CallState

def next (s : CallState) (l : PoolLabel) : Option CallState :=
  match l.toll with
  | none => none
  | some n =>
      if n ≤ s.left then
        (s.world.next l).map fun w =>
          { world := w
            left := s.left - n
            submitted := s.submitted ++ s.world.submittedBy l
            dispatched := s.dispatched ++ s.world.dispatchedBy l
            failed := s.failed ++ s.world.failedBy l
            called := s.called ++ w.calledBy l }
      else none

/-- The call that began in `w` has returned. What was in the queue and what was submitted has been
    dispatched in this order as far as it is not in the queue; the callbacks run are the one that
    was to be run from the start and those of the failed queries, with `is_error` set; and nothing
    waits beside a free connection. -/
structure Returned (w : PoolState) (call : PoolCall) (s : CallState) : Prop where
  stack : s.world.stack = []
  order : w.pool.pendingQueries ++ s.submitted = s.dispatched ++ s.world.pool.pendingQueries
  called : s.called = (w.enter 0 call).called ++ s.failed.map fun q => (q, true)
  idle : s.world.pool.idleCount = s.world.pool.availableConns.length
  drained : s.world.pool.idleCount = 0 ∨ s.world.pool.pendingQueries = []
  defined : s.world.undefined = w.undefined

end CallState

/-- Calls from outside into any pool. -/
def callMachine : Machine CallState PoolLabel where
  init s := ∃ (w : PoolState) (n : ℕ) (call : PoolCall), w.stack = [] ∧ s = w.enter n call
  next := CallState.next

end FiberConn
