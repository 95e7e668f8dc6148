import FiberConn.Effects

set_option autoImplicit false

/-! # `Dbconnection` (`db_connection_type.h`)

One PostgreSQL connection. The object's methods are translated with libpq's answers as arguments;
`PQgetResult` is answered from a list, whose end is the `NULL` that ends every command. `PQclear`,
`PQerrorMessage` and the console output have no influence on the object and are left out. -/

namespace FiberConn

inductive DbConnectionState
  | idle
  | notConnected
  | connecting
  | connected
  | sendingQuery
  | readingResponse
deriving DecidableEq, Repr

structure QueryResult where
  rows : ℕ
  cols : ℕ
  table : List (List String)
deriving DecidableEq, Repr

/-- `conn` is the `PGconn *`: `none` for `NULL`, else what `PQsocket` gives for it. -/
structure Dbconnection where
  socket : ℤ
  connectionState : DbConnectionState
  parent : String
  isError : Bool
  conn : Option ℤ
  results : List QueryResult
deriving DecidableEq

/-- libpq's answers during one `sendQuery`. -/
structure SendAnswers where
  sendQuery : ℤ
  flush : ℤ
deriving DecidableEq

/-- libpq's answers during one `handleEvent`, each used only on the paths that make the call.
    `flushOut` and `flushIn` are the `PQflush` calls of the `EPOLLOUT` and the `EPOLLIN` branch;
    `results` is what `PQgetResult` returns before its `NULL`. -/
structure PqAnswers where
  connectPoll : PollingStatus
  setnonblocking : ℤ
  flushOut : ℤ
  consumeInput : ℤ
  flushIn : ℤ
  isBusy : ℤ
  results : List PGresult

/-- `strcpy` into a `char` array and back: the text up to the first NUL. -/
def cStr (s : String) : String := String.ofList (s.toList.takeWhile (· != Char.ofNat 0))

namespace Dbconnection

/-- The constructor. `socket` is not initialised: it starts as whatever the memory held. -/
def new (parent : String) (memory : ℤ) : Dbconnection where
  socket := memory
  connectionState := .notConnected
  parent := if parent = "" then "#" else parent
  isError := false
  conn := none
  results := []

/-- `connectDb`; `start` is the answer of `PQconnectStart`, with the connection's socket. -/
def connectDb (c : Dbconnection) (conninfo : String) (start : Option ℤ) :
    Dbconnection × List Effect :=
  match start with
  | none =>
      ({ c with conn := none, isError := true }, [.pq (.connectStart conninfo false), .callback])
  | some fd =>
      ({ c with conn := some fd, socket := fd, connectionState := .connecting },
        [.pq (.connectStart conninfo true), .addTrack fd writeMask .helperSock])

/-- `sendQuery`. -/
def sendQuery (c : Dbconnection) (query : String) (a : SendAnswers) : Dbconnection × List Effect :=
  if a.sendQuery = 0 then
    ({ c with isError := true }, [.pq (.sendQuery query a.sendQuery), .callback])
  else if a.flush = -1 then
    ({ c with isError := true, connectionState := .idle },
      [.pq (.sendQuery query a.sendQuery), .pq (.flush a.flush), .callback])
  else if a.flush = 0 then
    ({ c with connectionState := .readingResponse },
      [.pq (.sendQuery query a.sendQuery), .pq (.flush a.flush),
        .addTrack c.socket readMask .helperSock])
  else if a.flush = 1 then
    ({ c with connectionState := .sendingQuery },
      [.pq (.sendQuery query a.sendQuery), .pq (.flush a.flush),
        .addTrack c.socket bothMask .helperSock])
  -- no value of `PQflush` that libpq documents: the socket is not tracked
  else
    ({ c with connectionState := .sendingQuery },
      [.pq (.sendQuery query a.sendQuery), .pq (.flush a.flush)])

/-- The `CONNECTING` branch of `handleEvent`. -/
def handleConnecting (c : Dbconnection) (a : PqAnswers) : Dbconnection × List Effect :=
  match a.connectPoll with
  | .reading =>
      (c, [.pq (.connectPoll .reading), .modifyTrack c.socket readMask .helperSock])
  | .writing =>
      (c, [.pq (.connectPoll .writing), .modifyTrack c.socket writeMask .helperSock])
  | .failed =>
      ({ c with isError := true },
        [.pq (.connectPoll .failed), .removeTrack c.socket, .callback])
  | .ok =>
      ({ c with connectionState := .connected },
        [.pq (.connectPoll .ok), .removeTrack c.socket, .pq (.setnonblocking a.setnonblocking),
          .callback])
  | .active => (c, [.pq (.connectPoll .active)])

/-- The `SENDING_QUERY` branch of `handleEvent`; `flushStatus` starts as 1. -/
def handleSending (c : Dbconnection) (ev : EpollEvent) (a : PqAnswers) :
    Dbconnection × List Effect :=
  let flushed : List Effect := if ev.has epollOut then [.pq (.flush a.flushOut)] else []
  if ev.has epollOut ∧ a.flushOut = -1 then
    ({ c with isError := true }, flushed ++ [.removeTrack c.socket, .callback])
  else
    let read : List Effect :=
      if ev.has epollIn then [.pq (.consumeInput a.consumeInput), .pq (.flush a.flushIn)] else []
    if ev.has epollIn ∧ (a.flushIn = -1 ∨ a.consumeInput = 0) then
      ({ c with isError := true }, flushed ++ read ++ [.removeTrack c.socket, .callback])
    else
      let flushStatus :=
        if ev.has epollIn then a.flushIn else if ev.has epollOut then a.flushOut else 1
      if flushStatus = 0 then
        ({ c with connectionState := .readingResponse },
          flushed ++ read ++ [.modifyTrack c.socket readMask .helperSock])
      else (c, flushed ++ read)

/-- The status the collecting loop goes on after. -/
def okStatus (res : PGresult) : Prop :=
  res.resultStatus = .tuplesOk ∨ res.resultStatus = .commandOk

instance (res : PGresult) : Decidable (okStatus res) := inferInstanceAs (Decidable (_ ∨ _))

/-- The local copy of one result: `nrows` tuples of `ncols` values. -/
def copyResult (res : PGresult) : QueryResult where
  rows := res.ntuples
  cols := res.nfields
  table := (List.range res.ntuples).map fun i =>
    (List.range res.nfields).map fun j => res.getvalue i j

/-- The inner `while` after a failed result: everything up to `NULL` is read and dropped. -/
def discard : List PGresult → List Effect
  | [] => [.pq (.getResult none)]
  | res :: rest => .pq (.getResult (some res)) :: discard rest

/-- The collecting `while`. -/
def collect (c : Dbconnection) : List PGresult → Dbconnection × List Effect
  | [] => (c, [.pq (.getResult none)])
  | res :: rest =>
      if okStatus res then
        let r := collect { c with results := c.results ++ [copyResult res] } rest
        (r.1, .pq (.getResult (some res)) :: r.2)
      -- the results before the failed one stay
      else ({ c with isError := true }, .pq (.getResult (some res)) :: discard rest)

/-- The `READING_RESPONSE` branch of `handleEvent`. -/
def handleReading (c : Dbconnection) (a : PqAnswers) : Dbconnection × List Effect :=
  if a.consumeInput = 0 then
    ({ c with isError := true, connectionState := .idle },
      [.pq (.consumeInput a.consumeInput), .removeTrack c.socket, .callback])
  else if a.isBusy = 1 then
    (c, [.pq (.consumeInput a.consumeInput), .pq (.isBusy a.isBusy)])
  else if a.isBusy = 0 then
    let r := collect { c with connectionState := .idle } a.results
    (r.1, [.pq (.consumeInput a.consumeInput), .pq (.isBusy a.isBusy)] ++
      .removeTrack c.socket :: (r.2 ++ [.callback]))
  else (c, [.pq (.consumeInput a.consumeInput), .pq (.isBusy a.isBusy)])

/-- `handleEvent`. -/
def handleEvent (c : Dbconnection) (ev : EpollEvent) (a : PqAnswers) :
    Dbconnection × List Effect :=
  if ev.has epollErr then ({ c with isError := true }, [.removeTrack c.socket, .callback])
  else match c.connectionState with
    | .connecting => c.handleConnecting a
    | .sendingQuery => c.handleSending ev a
    | .readingResponse => c.handleReading a
    | _ => (c, [])

/-- `getParent`. -/
def getParent (c : Dbconnection) (isAlive : IsAlive) : Option ℕ := isAlive.lookup c.parent

/-- `resetConnection`. -/
def resetConnection (c : Dbconnection) : Dbconnection :=
  { c with parent := "#", results := [], isError := false }

/-- The destructor. -/
def destroy (c : Dbconnection) : List Effect := [.removeTrack c.socket, .pq (.finish c.conn)]

/-! ## Words for what happens to a connection -/

/-- A query is under way. -/
def Active (c : Dbconnection) : Prop :=
  c.connectionState = .sendingQuery ∨ c.connectionState = .readingResponse

/-- A connect that this event completes. -/
def Connects (ev : EpollEvent) (a : PqAnswers) : Prop :=
  ev.has epollErr = false ∧ a.connectPoll = .ok

instance (ev : EpollEvent) (a : PqAnswers) : Decidable (Connects ev a) :=
  inferInstanceAs (Decidable (_ ∧ _))

end Dbconnection

/-- A call that tells its caller that the query it serves has failed. -/
def Effect.Fails : Effect → Prop
  | .pq (.sendQuery _ ret) => ret = 0
  | .pq (.flush ret) => ret = -1
  | .pq (.consumeInput ret) => ret = 0
  | .pq (.getResult (some res)) => ¬ Dbconnection.okStatus res
  | _ => False

/-- A call that neither starts a command nor reads a result nor polls a connect. -/
def Effect.Plain : Effect → Prop
  | .pq (.sendQuery _ _) => False
  | .pq (.getResult _) => False
  | .pq (.connectPoll _) => False
  | _ => True

end FiberConn
