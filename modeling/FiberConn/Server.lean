import FiberConn.DbPooler
import FiberConn.RequestStream.Proofs
import FiberConn.Sending

set_option autoImplicit false

/-! # The server (`example/server.cpp`)

The program the library was written for: a pool of ten connections and a listening socket on one
reactor. A client is read once. What it asked for is answered at once or after an `INSERT` and a
`SELECT`, and when the response is out the client is deleted. The lambdas of `main` run on the pool
and on the clients' own objects; the events the reactor delivers and the answers of the system
calls are the labels.

`outstanding` is the operation for which the reactor holds a client's handler, and `callback` the
`std::function` of a query until it has been called. `read` and `write` do not look at what
`addTrack` returns: if `epoll_ctl` refuses (`granted` is false), no handler is held. `sent` and
`log` are history. -/

namespace FiberConn

/-- What `main` uses of `nlohmann::json`; an exception is `none`. -/
structure Json where
  Value : Type
  /-- `parse(body, nullptr, false)`; a discarded value is `none` too. -/
  parse : Bytes → Option Value
  /-- `value(key, default_value)`. -/
  valueInt : Value → String → ℤ → Option ℤ
  valueString : Value → String → String → Option String
  dump : Value → Option Bytes
  /-- `json j;`. -/
  null : Value
  /-- `push_back({{"id", id}, {"title", title}})`. -/
  pushBack : Value → String → String → Value

/-! ## Texts -/

def conninfo : String :=
  "host=127.0.0.1 port=5432 dbname=mydatabase user=postgres password=mypassword"

def insertQuery (id : ℤ) (title : String) : String :=
  "INSERT INTO books (id, title) VALUES (" ++ toString id ++ ", '" ++ title ++ "');"

def selectQuery : String := "SELECT * from books;"

/-- The response with this body. -/
def httpResponse (body : Bytes) : Bytes :=
  ascii "HTTP/1.1 200 OK\r\n" ++ ascii "Content-Type: text/plain\r\n" ++
    ascii ("Content-Length: " ++ toString body.length ++ "\r\n") ++
    ascii "Connection: close\r\n" ++ ascii "\r\n" ++ body

/-! ## JSON -/

namespace Json

variable (J : Json)

/-- The `id` and the `title` of a request. -/
def book (j : J.Value) : Option (ℤ × String) :=
  (J.valueInt j "id" 0).bind fun id => (J.valueString j "title" "").map fun title => (id, title)

/-- `result.table[i][0]` and `result.table[i][1]`, if they are there. -/
def cells (result : QueryResult) (i : ℕ) : Option (String × String) :=
  result.table[i]?.bind fun row =>
    row[0]?.bind fun id => row[1]?.map fun title => (id, title)

/-- The loop over the rows of one result. -/
def addRows (j : J.Value) (result : QueryResult) : Option J.Value :=
  (List.range result.rows).foldlM
    (fun j i => (cells result i).map fun x => J.pushBack j x.1 x.2) j

/-- The loop over the results. -/
def table (results : List QueryResult) : Option J.Value := results.foldlM J.addRows J.null

/-- The request can be answered without the database, with this body. -/
def AtOnce (r : HttpRequest) (body : Bytes) : Prop :=
  r.url = ascii "/" ∧
    match J.parse r.body with
    | none => body = []
    | some j => J.dump j = some body

/-- The request is for this book to be inserted. -/
def Inserts (r : HttpRequest) (book : ℤ × String) : Prop :=
  r.url ≠ ascii "/" ∧ ∃ j, J.parse r.body = some j ∧ J.book j = some book

/-- Nothing throws while the request is looked at. -/
def Readable (r : HttpRequest) : Prop :=
  ∀ j ∈ J.parse r.body, (J.book j).isSome ∧ (r.url = ascii "/" → (J.dump j).isSome)

instance (r : HttpRequest) : Decidable (J.Readable r) :=
  inferInstanceAs (Decidable (∀ j ∈ J.parse r.body, _))

/-- The body that shows the results, if no row is too short and nothing throws. -/
def listing (results : List QueryResult) : Option Bytes := (J.table results).bind J.dump

end Json

/-! ## The program -/

inductive ClientOp
  | read
  | write
deriving DecidableEq

/-- What epoll reports for a client: what the operation asked for, errors and hang-ups. -/
def ClientOp.Reports : ClientOp → EpollEvent → Prop
  | .read, ev => ev.has epollOut = false
  | .write, ev => ev.has epollIn = false

instance ClientOp.decidableReports (op : ClientOp) (ev : EpollEvent) :
    Decidable (op.Reports ev) := by
  cases op <;> unfold ClientOp.Reports <;> infer_instance

/-- The lambdas given to `pooler->sendQuery`: the one for the `INSERT` and the one for the
    `SELECT`. -/
inductive QueryCallback
  | inserted
  | selected
deriving DecidableEq

/-- What ends the program, or leaves its behaviour undefined. -/
inductive Fault
  /-- Nobody catches what `nlohmann::json` throws. -/
  | exception
  /-- A row has fewer than two columns. -/
  | outOfRange
  /-- A deleted client is used. -/
  | dangling
  /-- An operation is started on a client that has one. -/
  | overlap
deriving DecidableEq

inductive ServerObs
  /-- The response with this body was put into the client's `sendBuffer`. -/
  | answered (client : ℕ) (request : HttpRequest) (body : Bytes)
  /-- The callback given to `write` was called. -/
  | written (client : ℕ) (isError : Bool)
deriving DecidableEq

structure Server (J : Json) (L : Llhttp) where
  pool : PoolState
  clients : ℕ → Option (Clientconnection L)
  outstanding : ℕ → Option ClientOp
  callback : ℕ → Option QueryCallback
  fault : Option Fault
  /-- What `send` has taken from each client's buffer. -/
  sent : ℕ → Bytes
  log : List ServerObs

namespace Server

variable {J : Json} {L : Llhttp}

def fail (s : Server J L) (f : Fault) : Server J L := { s with fault := some f }

def note (s : Server J L) (o : ServerObs) : Server J L := { s with log := o :: s.log }

/-- `delete client`. -/
def delete (s : Server J L) (client : ℕ) : Server J L :=
  match s.pool.next (.delete client) with
  | some pool => { s with pool := pool, clients := Function.update s.clients client none }
  | none => s.fail .dangling

/-- `pooler->sendQuery`, up to where the pool is when it calls a connection. -/
def sendQuery (s : Server J L) (query connectionId : String) (cb : QueryCallback) : Server J L :=
  let q : PendingQuery := ⟨query, connectionId, s.pool.nextCb⟩
  { s with
    pool := { s.pool with
      nextCb := s.pool.nextCb + 1, log := .submitted q :: s.pool.log }.sendQuery q
    callback := Function.update s.callback q.cb (some cb) }

/-- The response goes into `sendBuffer`, and `client->write` is called. -/
def respond (s : Server J L) (client : ℕ) (c : Clientconnection L) (body : Bytes)
    (granted : Bool) : Server J L :=
  if s.outstanding client = none then
    { s with
      clients := Function.update s.clients client
        (some { c with sendBuffer := c.sendBuffer ++ httpResponse body })
      outstanding := Function.update s.outstanding client (heldIf granted .write)
      log := .answered client c.request body :: s.log }
  else s.fail .overlap

/-- The lambda given to `client->read`. -/
def onRead (s : Server J L) (client : ℕ) (c : Clientconnection L) (granted : Bool) :
    Server J L :=
  if c.isError then s.delete client
  else if c.request.url = ascii "/" then
    match J.parse c.request.body with
    | none => s.respond client c [] granted
    | some j =>
        -- `id` and `title` are read and not used
        match J.book j, J.dump j with
        | some _, some body => s.respond client c body granted
        | _, _ => s.fail .exception
  else
    match J.parse c.request.body with
    | none => s.delete client
    | some j =>
        match J.book j with
        | some book => s.sendQuery (insertQuery book.1 book.2) c.connectionId .inserted
        | none => s.fail .exception

/-- The lambda given to `client->write`. -/
def onWritten (s : Server J L) (client : ℕ) (c : Clientconnection L) : Server J L :=
  (s.note (.written client c.isError)).delete client

/-- The lambda of an operation. -/
def run (s : Server J L) (client : ℕ) (c : Clientconnection L) (granted : Bool) :
    ClientOp → Server J L
  | .read => s.onRead client c granted
  | .write => s.onWritten client c

/-- The beginning of both query lambdas: without an error and with a parent they go on to `f`. -/
def withParent (s : Server J L) (conn : ℕ)
    (f : ℕ → Clientconnection L → Server J L) : Server J L :=
  if (s.pool.conns conn).isError then s
  else
    match (s.pool.conns conn).getParent s.pool.isAlive with
    | none => s
    | some client =>
        match s.clients client with
        | some c => f client c
        | none => s.fail .dangling

/-- The lambda given to `sendQuery` with the `INSERT`. -/
def onInserted (s : Server J L) (conn : ℕ) : Server J L :=
  s.withParent conn fun _ c => s.sendQuery selectQuery c.connectionId .selected

/-- The lambda given to `sendQuery` with the `SELECT`. -/
def onSelected (s : Server J L) (conn : ℕ) (granted : Bool) : Server J L :=
  s.withParent conn fun client c =>
    match J.table (s.pool.conns conn).results with
    | none => s.fail .outOfRange
    | some j =>
        match J.dump j with
        | some body => s.respond client c body granted
        | none => s.fail .exception

/-- The lambda of a query. -/
def runQuery (s : Server J L) (conn : ℕ) (granted : Bool) : QueryCallback → Server J L
  | .inserted => s.onInserted conn
  | .selected => s.onSelected conn granted

/-- `handleEvent` of the client has run and done `r`. -/
def handled (s : Server J L) (client : ℕ) (r : Receipt (Clientconnection L)) : Server J L :=
  { s with
    clients := Function.update s.clients client (some r.conn)
    sent := Function.update s.sent client (s.sent client ++ written (sendCalls r.effects)) }

/-- The callback on top of the stack has done its work and returns. -/
def Returning (s : Server J L) : Prop :=
  match s.pool.stack with
  | .user _ q :: _ => s.callback q.cb = none
  | _ => False

instance (s : Server J L) : Decidable s.Returning := by
  unfold Returning
  split <;> infer_instance

/-- The steps of the pool that `main` decides about: clients, queries, and when a callback
    returns. -/
def Permits (s : Server J L) : PoolLabel → Prop
  | .accept _ => False
  | .delete _ => False
  | .submit _ _ => False
  | .ret => s.Returning
  | _ => True

instance (s : Server J L) (l : PoolLabel) : Decidable (s.Permits l) :=
  match l with
  | .accept _ | .delete _ | .submit _ _ => instDecidableFalse
  | .ret => inferInstanceAs (Decidable s.Returning)
  | .construct _ _ | .constructed | .send _ | .loop | .connectEvent _ _ _
  | .queryEvent _ _ _ _ => instDecidableTrue

end Server

/-- `granted` is the answer of `epoll_ctl` to the `read` or `write` that a step calls, if any. -/
inductive ServerLabel
  | pool (l : PoolLabel)
  | accept (sockfd : ℤ) (connectionId : String) (granted : Bool)
  | event (client : ℕ) (ev : EpollEvent) (recvs : List RecvResult) (sends : List SendResult)
      (granted : Bool)
  /-- The callback on top of the stack does its work. -/
  | body (granted : Bool)

namespace Server

variable {J : Json} {L : Llhttp}

/-- One step of a program that has not failed. Events are delivered when no handler runs. -/
def step (s : Server J L) : ServerLabel → Option (Server J L)
  | .pool l =>
      if s.Permits l then (s.pool.next l).map fun pool => { s with pool := pool } else none
  | .accept sockfd connectionId granted =>
      if s.pool.stack = [] then
        (s.pool.next (.accept connectionId)).map fun pool =>
          { s with
            pool := pool
            clients := Function.update s.clients s.pool.accepted (some (.new sockfd connectionId))
            outstanding := Function.update s.outstanding s.pool.accepted (heldIf granted .read) }
      else none
  | .event client ev recvs sends granted =>
      match s.outstanding client with
      | none => none
      | some op =>
          if s.pool.stack = [] ∧ op.Reports ev then
            match s.clients client with
            | none => some (s.fail .dangling)
            | some c =>
                let r := c.handleEvent ev recvs sends
                if HonestSends r.effects then
                  if CallsBack r.effects then
                    some ({ s.handled client r with
                      outstanding := Function.update s.outstanding client none }.run client
                        r.conn granted op)
                  else some (s.handled client r)
                else none
          else none
  | .body granted =>
      match s.pool.stack with
      | .user conn q :: _ =>
          (s.callback q.cb).map fun cb =>
            { s with callback := Function.update s.callback q.cb none }.runQuery conn granted cb
      | _ => none

def next (s : Server J L) (l : ServerLabel) : Option (Server J L) :=
  if s.fault = none then s.step l else none

/-- `main`, where the pool is being constructed. -/
def start : Server J L where
  pool := .start conninfo 10
  clients _ := none
  outstanding _ := none
  callback _ := none
  fault := none
  sent _ := []
  log := []

end Server

def serverMachine (J : Json) (L : Llhttp) : Machine (Server J L) ServerLabel where
  init s := s = .start
  next := Server.next

end FiberConn
