import FiberConn.DbConnectionType
import FiberConn.Lib.Machine

set_option autoImplicit false

/-! # `DBpooler` (`db_pooler.h`)

The connection pool, with everything that can call it back. `sendQuery`, the completion lambda and
the drain loop call each other, and user callbacks call `sendQuery` in the middle of this; the
machine below therefore keeps the C++ call stack explicitly. One step runs from one point where
somebody else decides (the user, libpq, the reactor) to the next.

A pooled connection is named by the number of its allocation, a query by the serial number of the
`std::function` that was submitted with it. `command` is libpq's own bookkeeping: the query whose
command it has in progress on a connection. `log` is history, newest first. -/

namespace FiberConn

structure PendingQuery where
  query : String
  client : String
  cb : ℕ
deriving DecidableEq, Repr

structure DBpooler where
  poolSize : ℤ
  connectedCount : ℤ
  idleCount : ℤ
  connectionInfo : String
  connectedConns : List ℕ
  availableConns : List ℕ
  isReady : Bool
  pendingQueries : List PendingQuery
deriving DecidableEq

/-- The constructor, up to its loop. -/
def DBpooler.new (connectionInfo : String) (poolSize : ℤ) : DBpooler :=
  ⟨poolSize, 0, 0, connectionInfo, [], [], false, []⟩

/-- The lambda given to `connectDb`. -/
def DBpooler.onConnect (p : DBpooler) (c : ℕ) (isError : Bool) : DBpooler :=
  if isError = false then
    { p with
      connectedConns := p.connectedConns ++ [c]
      availableConns := p.availableConns ++ [c]
      connectedCount := p.connectedCount + 1
      idleCount := p.idleCount + 1
      isReady := if p.connectedCount + 1 = p.poolSize then true else p.isReady }
  else p

/-! ## The call stack and the history -/

inductive Frame
  /-- The constructor's loop, before iteration `i`. -/
  | construct (i : ℕ)
  /-- `sendQuery` has called `dbconn->sendQuery` on connection `c`. -/
  | send (c : ℕ) (q : PendingQuery)
  /-- The completion lambda has called the user's callback `cb(dbconn)`. -/
  | user (c : ℕ) (q : PendingQuery)
  /-- The completion lambda is in its `while` loop. -/
  | drain
deriving DecidableEq

/-- The query a frame is handing to a connection. -/
def Frame.sending? : Frame → Option (ℕ × PendingQuery)
  | .send c q => some (c, q)
  | _ => none

/-- The query a frame runs the callback of. -/
def Frame.calling? : Frame → Option (ℕ × PendingQuery)
  | .user c q => some (c, q)
  | _ => none

inductive Obs
  | accepted (client : ℕ) (connectionId : String)
  | deleted (client : ℕ)
  | submitted (q : PendingQuery)
  /-- `q` entered `pending_queries`. -/
  | queued (q : PendingQuery)
  /-- `dbconn->sendQuery` was called for `q`. -/
  | handed (c : ℕ) (q : PendingQuery)
  /-- The callback of `q` was called with connection `c`. -/
  | called (c : ℕ) (q : PendingQuery)
  /-- What `connectDb` did. -/
  | started (c : ℕ) (effs : List Effect)
  /-- What `Dbconnection::sendQuery` did for `q`, and the command libpq had in progress before. -/
  | sent (c : ℕ) (q : PendingQuery) (command : Option ℕ) (effs : List Effect)
  /-- What `Dbconnection::handleEvent` did, likewise. -/
  | handled (c : ℕ) (command : Option ℕ) (ev : EpollEvent) (effs : List Effect)

/-- What a selector picks from the history, oldest first. -/
def history {α : Type} (select : Obs → Option α) : List Obs → List α
  | [] => []
  | o :: older =>
      match select o with
      | some x => history select older ++ [x]
      | none => history select older

namespace Obs

/-- The queries passed to `DBpooler::sendQuery` by the user. -/
def submitted? : Obs → Option PendingQuery
  | .submitted q => some q
  | _ => none

/-- The queries that entered `pending_queries`. -/
def queued? : Obs → Option PendingQuery
  | .queued q => some q
  | _ => none

/-- The queries handed to `Dbconnection::sendQuery`. -/
def handed? : Obs → Option PendingQuery
  | .handed _ q => some q
  | _ => none

/-- The queries whose callback was called. -/
def called? : Obs → Option PendingQuery
  | .called _ q => some q
  | _ => none

/-- The clients accepted, each with its `connectionId`. -/
def accepted? : Obs → Option (ℕ × String)
  | .accepted client connectionId => some (client, connectionId)
  | _ => none

/-- The clients deleted. -/
def deleted? : Obs → Option ℕ
  | .deleted client => some client
  | _ => none

end Obs

/-! ## libpq's commands

`PQsendQuery` starts a command unless it returns 0 or another one is in progress, and the `NULL` of
`PQgetResult` ends it. A call is about the command in progress; a `PQsendQuery` is about the query
it is called for. -/

/-- The command a call is about, when `PQsendQuery` is called for the query `serial`. -/
def concerns (serial command : Option ℕ) : Effect → Option ℕ
  | .pq (.sendQuery _ _) => serial
  | _ => command

/-- The command in progress after a call. -/
def commandAfter (serial command : Option ℕ) : Effect → Option ℕ
  | .pq (.sendQuery _ ret) => if ret = 0 then command else command.or serial
  | .pq (.getResult none) => none
  | _ => command

/-- Each call with the command it is about. -/
def tagged (serial : Option ℕ) : Option ℕ → List Effect → List (Option ℕ × Effect)
  | _, [] => []
  | command, e :: effs =>
      (concerns serial command e, e) :: tagged serial (commandAfter serial command e) effs

/-- The calls of one history entry. -/
def Obs.calls : Obs → List (Option ℕ × Effect)
  | .sent _ q command effs => tagged (some q.cb) command effs
  | .handled _ command _ effs => tagged none command effs
  | _ => []

/-- What `PQgetResult` returned for the query `n`. -/
def resultOf (n : ℕ) : Option ℕ × Effect → Option PGresult
  | (tag, .pq (.getResult (some res))) => if tag = some n then some res else none
  | _ => none

/-- The results libpq returned for the query `n`, oldest first. -/
def resultsOf (n : ℕ) (log : List Obs) : List PGresult :=
  log.reverse.flatMap fun o => o.calls.filterMap (resultOf n)

/-- A history entry in which the query `n` failed: `PQsendQuery` was refused, `PQflush` or
    `PQconsumeInput` failed, a result has a failure status, or the socket had an error. -/
def Obs.FailureOf (n : ℕ) (o : Obs) : Prop :=
  (∃ e, (some n, e) ∈ o.calls ∧ e.Fails) ∨
    match o with
    | .handled _ command ev _ => command = some n ∧ ev.has epollErr = true
    | _ => False

/-- The query `n` itself failed. -/
def Failed (n : ℕ) (log : List Obs) : Prop := ∃ o ∈ log, o.FailureOf n

/-- `Dbconnection::sendQuery` itself failed for the query `n`. -/
def SendFailed (n : ℕ) (log : List Obs) : Prop :=
  ∃ c q command effs, Obs.sent c q command effs ∈ log ∧ q.cb = n ∧ ∃ e ∈ effs, e.Fails

/-- The connect of connection `c` succeeded: `PQconnectPoll` said so. -/
def ConnectSucceeded (c : ℕ) (log : List Obs) : Prop :=
  ∃ command ev effs, Obs.handled c command ev effs ∈ log ∧ .pq (.connectPoll .ok) ∈ effs

structure PoolState where
  pool : DBpooler
  /-- The connection objects, and how many have been allocated. -/
  conns : ℕ → Dbconnection
  built : ℕ
  command : ℕ → Option ℕ
  /-- Connects and queries whose callback a connection still holds. -/
  connecting : List ℕ
  flying : List (ℕ × PendingQuery)
  stack : List Frame
  /-- The registry of clients, and the `connectionId` of each live `Clientconnection`. -/
  isAlive : IsAlive
  live : ℕ → Option String
  accepted : ℕ
  nextCb : ℕ
  /-- `front()` was called on an empty `available_conns`. -/
  undefined : Bool
  log : List Obs

namespace PoolState

/-- The queries being handed to a connection, and those whose callback is running. -/
def sending (w : PoolState) : List (ℕ × PendingQuery) := w.stack.filterMap Frame.sending?

def calling (w : PoolState) : List (ℕ × PendingQuery) := w.stack.filterMap Frame.calling?

/-- The connections in use, each with its query. -/
def inUse (w : PoolState) : List (ℕ × PendingQuery) := w.sending ++ w.flying ++ w.calling

/-- User code runs: a callback of the pool, or anything outside the pool. -/
def UserCode (w : PoolState) : Prop :=
  match w.stack with
  | [] => True
  | .user _ _ :: _ => True
  | _ => False

instance (w : PoolState) : Decidable w.UserCode := by
  unfold UserCode
  split <;> infer_instance

/-- One iteration of the constructor's loop: `new Dbconnection`, `connectDb`. `memory` is what the
    object's memory held. -/
def construct (w : PoolState) (memory : ℤ) (start : Option ℤ) : PoolState :=
  let c := w.built
  let r := (Dbconnection.new "" memory).connectDb (cStr w.pool.connectionInfo) start
  let w := { w with
    conns := Function.update w.conns c r.1, built := c + 1, log := .started c r.2 :: w.log }
  if CallsBack r.2 then { w with pool := w.pool.onConnect c r.1.isError }
  else { w with connecting := w.connecting ++ [c] }

/-- `DBpooler::sendQuery`, up to the call of `dbconn->sendQuery`. -/
def sendQuery (w : PoolState) (q : PendingQuery) : PoolState :=
  if 0 < w.pool.idleCount then
    match w.pool.availableConns with
    | [] => { w with undefined := true }
    | c :: rest =>
        { w with
          pool := { w.pool with availableConns := rest, idleCount := w.pool.idleCount - 1 }
          conns := Function.update w.conns c { w.conns c with parent := q.client }
          stack := .send c q :: w.stack
          log := .handed c q :: w.log }
  else
    { w with
      pool := { w.pool with pendingQueries := w.pool.pendingQueries ++ [q] }
      log := .queued q :: w.log }

/-- A connection calls the completion lambda of `q`, which calls the user's callback. -/
def complete (w : PoolState) (c : ℕ) (q : PendingQuery) (rest : List Frame) : PoolState :=
  { w with stack := .user c q :: rest, log := .called c q :: w.log }

/-- The user's callback returns into the completion lambda, which goes on to its loop. -/
def giveBack (w : PoolState) (c : ℕ) (rest : List Frame) : PoolState :=
  { w with
    conns := Function.update w.conns c (w.conns c).resetConnection
    pool := { w.pool with
      idleCount := w.pool.idleCount + 1, availableConns := w.pool.availableConns ++ [c] }
    stack := .drain :: rest }

/-- `Dbconnection::sendQuery` has run for `q` and done `r`. -/
def runSend (w : PoolState) (c : ℕ) (q : PendingQuery) (r : Dbconnection × List Effect) :
    PoolState :=
  { w with
    conns := Function.update w.conns c r.1
    command := Function.update w.command c (r.2.foldl (commandAfter (some q.cb)) (w.command c))
    log := .sent c q (w.command c) r.2 :: w.log }

/-- `Dbconnection::handleEvent` has run and done `r`. -/
def runEvent (w : PoolState) (c : ℕ) (ev : EpollEvent) (r : Dbconnection × List Effect) :
    PoolState :=
  { w with
    conns := Function.update w.conns c r.1
    command := Function.update w.command c (r.2.foldl (commandAfter none) (w.command c))
    log := .handled c (w.command c) ev r.2 :: w.log }

end PoolState

/-- Who decides what at each step: memory contents and libpq's answers, the program's clients and
    submissions, and which event the reactor delivers next. -/
inductive PoolLabel
  | construct (memory : ℤ) (start : Option ℤ)
  | constructed
  | accept (connectionId : String)
  | delete (client : ℕ)
  | submit (query client : String)
  | send (a : SendAnswers)
  | ret
  | loop
  | connectEvent (c : ℕ) (ev : EpollEvent) (a : PqAnswers)
  | queryEvent (c : ℕ) (q : PendingQuery) (ev : EpollEvent) (a : PqAnswers)

namespace PoolState

/-- One step. Clients may come and go at any time; events are delivered one at a time, when no
    handler runs; `PQflush` returns 0, 1 or -1. -/
def next (w : PoolState) : PoolLabel → Option PoolState
  | .construct memory start =>
      match w.stack with
      | .construct i :: rest =>
          if (i : ℤ) < w.pool.poolSize then
            some { w.construct memory start with stack := .construct (i + 1) :: rest }
          else none
      | _ => none
  | .constructed =>
      match w.stack with
      | .construct i :: rest =>
          if (i : ℤ) < w.pool.poolSize then none else some { w with stack := rest }
      | _ => none
  | .accept connectionId =>
      some { w with
        isAlive := w.isAlive.insert connectionId w.accepted
        live := Function.update w.live w.accepted (some connectionId)
        accepted := w.accepted + 1
        log := .accepted w.accepted connectionId :: w.log }
  | .delete client =>
      match w.live client with
      | some connectionId =>
          some { w with
            isAlive := w.isAlive.erase connectionId
            live := Function.update w.live client none
            log := .deleted client :: w.log }
      | none => none
  | .submit query client =>
      if w.UserCode then
        let q : PendingQuery := ⟨query, client, w.nextCb⟩
        some ({ w with nextCb := w.nextCb + 1, log := .submitted q :: w.log }.sendQuery q)
      else none
  | .send a =>
      match w.stack with
      | .send c q :: rest =>
          if a.flush = 0 ∨ a.flush = 1 ∨ a.flush = -1 then
            let r := (w.conns c).sendQuery (cStr q.query) a
            if CallsBack r.2 then some ((w.runSend c q r).complete c q rest)
            else some { w.runSend c q r with stack := rest, flying := (c, q) :: w.flying }
          else none
      | _ => none
  | .ret =>
      match w.stack with
      | .user c _ :: rest => some (w.giveBack c rest)
      | _ => none
  | .loop =>
      match w.stack with
      | .drain :: rest =>
          match w.pool.pendingQueries with
          | q :: qs =>
              if 0 < w.pool.idleCount then
                some ({ w with pool := { w.pool with pendingQueries := qs } }.sendQuery q)
              else some { w with stack := rest }
          | [] => some { w with stack := rest }
      | _ => none
  | .connectEvent c ev a =>
      if w.stack = [] ∧ c ∈ w.connecting then
        let r := (w.conns c).handleEvent ev a
        if CallsBack r.2 then
          some { w.runEvent c ev r with
            pool := w.pool.onConnect c r.1.isError, connecting := w.connecting.erase c }
        else some (w.runEvent c ev r)
      else none
  | .queryEvent c q ev a =>
      if w.stack = [] ∧ (c, q) ∈ w.flying then
        let r := (w.conns c).handleEvent ev a
        if CallsBack r.2 then
          some ({ w.runEvent c ev r with flying := w.flying.erase (c, q) }.complete c q [])
        else some (w.runEvent c ev r)
      else none

end PoolState

/-- A program in which `new DBpooler(ioc, connectionInfo, poolSize)` is being constructed. -/
def PoolState.start (connectionInfo : String) (poolSize : ℤ) : PoolState where
  pool := .new connectionInfo poolSize
  conns _ := .new "" 0
  built := 0
  command _ := none
  connecting := []
  flying := []
  stack := [.construct 0]
  isAlive := ∅
  live _ := none
  accepted := 0
  nextCb := 0
  undefined := false
  log := []

/-- The pool with everything around it, for every `connectionInfo` and `poolSize`. -/
def poolMachine : Machine PoolState PoolLabel where
  init w := ∃ connectionInfo poolSize, w = .start connectionInfo poolSize
  next := PoolState.next

end FiberConn
