import FiberConn.DbConnectionType
import FiberConn.Lib.Machine
import FiberConn.Lib.UnitStream

set_option autoImplicit false

/-! # Collecting results from libpq

One connection and the receiving side of libpq behind it. The server's response to a command is a
list of results and then the end of the command, each of a size in bytes. Bytes come in when
`PQconsumeInput` reads them, cut in any way. `PQisBusy` answers 1 as long as the next of these units
is not completely buffered, and `PQgetResult` then blocks until it is. `log` records of each call of
`PQgetResult` whether it blocked. -/

namespace FiberConn

/-- `input` is what libpq still has to return for the command in progress: results, and last the
    `NULL` that ends it. Without a command there is nothing. `waiting` says that the connection
    holds the callback of a query. -/
structure Reading where
  conn : Dbconnection
  input : UnitStream (Option PGresult)
  waiting : Bool
  log : List Bool

/-- The units of a response. -/
def responseUnits (results : List (ℕ × PGresult)) (ending : ℕ) : List (ℕ × Option PGresult) :=
  results.map (fun x => (x.1, some x.2)) ++ [(ending, none)]

/-- libpq while it serves the calls of one handler: `late` are the bytes that its blocking calls
    read beyond the unit they wait for. -/
structure Served where
  input : UnitStream (Option PGresult)
  late : List ℕ
  log : List Bool

/-- libpq serves one call; `read` is what `PQconsumeInput` reads. -/
def Served.step (read : ℕ) (x : Served) : Effect → Served
  | .pq (.consumeInput ret) => { x with input := if ret = 0 then x.input else x.input.feed read }
  | .pq (.getResult _) => ⟨x.input.take (x.late.headD 0), x.late.tail, x.input.busy :: x.log⟩
  | _ => x

namespace Reading

/-- The answers libpq gives to a handler: `PQconsumeInput` comes before `PQisBusy` and
    `PQgetResult`. -/
def answers (s : Reading) (flushOut flushIn consumeInput : ℤ) (read : ℕ) : PqAnswers where
  connectPoll := .active
  setnonblocking := 0
  flushOut := flushOut
  consumeInput := consumeInput
  flushIn := flushIn
  isBusy := if (s.input.feed read).busy then 1 else 0
  results := s.input.units.filterMap Prod.snd

/-- `Dbconnection::sendQuery`; the response is what the server will send if libpq takes the query.
    -/
def send (s : Reading) (query : String) (a : SendAnswers) (results : List (ℕ × PGresult))
    (ending : ℕ) : Reading :=
  let r := s.conn.sendQuery query a
  { s with
    conn := r.1
    input := if a.sendQuery = 0 then s.input else ⟨responseUnits results ending, 0⟩
    waiting := !CallsBack r.2 }

/-- `Dbconnection::handleEvent`. -/
def handle (s : Reading) (ev : EpollEvent) (flushOut flushIn consumeInput : ℤ) (read : ℕ)
    (late : List ℕ) : Reading :=
  let r := s.conn.handleEvent ev (s.answers flushOut flushIn consumeInput read)
  let x := r.2.foldl (Served.step read) ⟨s.input, late, s.log⟩
  ⟨r.1, x.input, !CallsBack r.2, x.log⟩

end Reading

inductive ReadingLabel
  | send (query : String) (a : SendAnswers) (results : List (ℕ × PGresult)) (ending : ℕ)
  | event (ev : EpollEvent) (flushOut flushIn consumeInput : ℤ) (read : ℕ) (late : List ℕ)
  | reset

namespace Reading

/-- One step. libpq takes no query while a command is in progress, and no more bytes come than the
    response has. -/
def next (s : Reading) : ReadingLabel → Option Reading
  | .send query a results ending =>
      if s.waiting = false ∧ (a.sendQuery ≠ 0 → s.input.units = []) ∧
          (a.flush = 0 ∨ a.flush = 1 ∨ a.flush = -1) then
        some (s.send query a results ending)
      else none
  | .event ev flushOut flushIn consumeInput read late =>
      if s.waiting = true ∧ s.input.buffered + read ≤ s.input.size then
        some (s.handle ev flushOut flushIn consumeInput read late)
      else none
  | .reset => if s.waiting = false then some { s with conn := s.conn.resetConnection } else none

/-- `PQgetResult` has never been called where `PQisBusy` would have returned 1. -/
def NeverBlocks (s : Reading) : Prop := ∀ b ∈ s.log, b = false

/-- The event makes the handler collect: libpq has read what there was, and the next unit is
    complete. -/
def Collects (s : Reading) (ev : EpollEvent) (consumeInput : ℤ) (read : ℕ) : Prop :=
  ev.has epollErr = false ∧ s.conn.connectionState = .readingResponse ∧ consumeInput ≠ 0 ∧
    (s.input.feed read).busy = false

instance (s : Reading) (ev : EpollEvent) (consumeInput : ℤ) (read : ℕ) :
    Decidable (s.Collects ev consumeInput read) := inferInstanceAs (Decidable (_ ∧ _ ∧ _ ∧ _))

/-- When an event finds the next unit complete, the whole rest of the response is buffered. -/
def Whole (s : Reading) : ReadingLabel → Prop
  | .event ev _ _ consumeInput read _ =>
      s.Collects ev consumeInput read → s.input.size ≤ s.input.buffered + read
  | _ => True

instance (s : Reading) (l : ReadingLabel) : Decidable (s.Whole l) := by
  cases l <;> unfold Whole <;> infer_instance

end Reading

/-- A connection whose connect has succeeded. -/
def readingMachine : Machine Reading ReadingLabel where
  init s := s.conn.connectionState = .connected ∧ s.input = ⟨[], 0⟩ ∧ s.waiting = false ∧ s.log = []
  next := Reading.next

end FiberConn
