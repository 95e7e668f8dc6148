import FiberConn.DbConnectionType
import FiberConn.Lib.Machine

set_option autoImplicit false

/-! # Waiting for a response

One query on one `Dbconnection`, seen with the bytes of its response: those still on their way,
those unread in the socket, and those `PQconsumeInput` has moved into libpq's buffer. The socket is
watched edge-triggered, so what matters is whether epoll has something left to report. The object
runs its own `sendQuery` and `handleEvent`; the machine only interprets the calls they make. -/

namespace FiberConn

/-- A connection serving one query, with its socket, libpq's buffer and its epoll entry. -/
structure QuerySocket where
  conn : Dbconnection
  /-- Bytes of the response that have not reached the socket. -/
  toArrive : ℕ
  unread : ℕ
  /-- Bytes in libpq's buffer, and how many make the first complete result. -/
  buffered : ℕ
  first : ℕ
  tracked : Bool
  mask : EventMask
  /-- Bytes arrived since the last report, or `EPOLL_CTL_ADD`/`MOD` found unread ones. -/
  edge : Bool
  /-- The event that `epoll_wait` has returned and the reactor has not dispatched yet. -/
  queued : Option EpollEvent
  sent : Bool
  called : Bool
deriving DecidableEq

namespace QuerySocket

/-- What a call of the object does; `moved` is how much `PQconsumeInput` reads. It reads something
    if there is anything, and `PQisBusy` is 0 exactly when the first result is complete. -/
def perform (moved : ℕ) (s : QuerySocket) : Effect → Option QuerySocket
  | .pq (.consumeInput ret) =>
      if ret = 0 then some s
      else if moved ≤ s.unread ∧ (0 < s.unread → 0 < moved) then
        some { s with unread := s.unread - moved, buffered := s.buffered + moved }
      else none
  | .pq (.isBusy ret) => if ret = (if s.first ≤ s.buffered then 0 else 1) then some s else none
  | .addTrack _ mask _ =>
      some { s with tracked := true, mask := mask, edge := decide (0 < s.unread) }
  | .modifyTrack _ mask _ => some { s with mask := mask, edge := decide (0 < s.unread) }
  | .removeTrack _ => some { s with tracked := false, edge := false }
  | .callback => some { s with called := true }
  | _ => some s

/-- What epoll can report: `EPOLLIN` exactly on an edge with something to read, nothing outside the
    mask, and not nothing. -/
def CanReport (s : QuerySocket) (ev : EpollEvent) : Prop :=
  s.tracked = true ∧ s.queued = none ∧ ev.has epollIn = (s.edge && decide (0 < s.unread)) ∧
    ev.events &&& ~~~s.mask = 0 ∧ ev.events ≠ 0

instance (s : QuerySocket) (ev : EpollEvent) : Decidable (s.CanReport ev) :=
  inferInstanceAs (Decidable (_ ∧ _ ∧ _ ∧ _ ∧ _))

end QuerySocket

inductive QueryLabel
  /-- Bytes of the response reach the socket. -/
  | arrive (bytes : ℕ)
  /-- `sendQuery` is called. -/
  | send (query : String) (a : SendAnswers)
  /-- `epoll_wait` returns an event for the socket. -/
  | report (ev : EpollEvent)
  /-- The reactor dispatches it: `handleEvent` runs. -/
  | dispatch (a : PqAnswers) (moved : ℕ)

namespace QuerySocket

def next (s : QuerySocket) : QueryLabel → Option QuerySocket
  | .arrive bytes =>
      if 0 < bytes ∧ bytes ≤ s.toArrive then
        some { s with toArrive := s.toArrive - bytes, unread := s.unread + bytes, edge := true }
      else none
  | .send query a =>
      if s.sent = false ∧ (a.flush = 0 ∨ a.flush = 1 ∨ a.flush = -1) then
        let r := s.conn.sendQuery query a
        r.2.foldlM (perform 0) { s with conn := r.1, sent := true }
      else none
  | .report ev => if s.CanReport ev then some { s with queued := some ev, edge := false } else none
  | .dispatch a moved =>
      match s.queued with
      | some ev =>
          let r := s.conn.handleEvent ev a
          r.2.foldlM (perform moved) { s with conn := r.1, queued := none }
      | none => none

/-- Before the query: any connection object, a response of `total` bytes to come. -/
def start (conn : Dbconnection) (total first : ℕ) : QuerySocket :=
  ⟨conn, total, 0, 0, first, false, 0, false, none, false, false⟩

/-- The reactor has an event for the socket in its queue, or epoll has one to report. -/
def EventToCome (s : QuerySocket) : Prop :=
  s.queued.isSome ∨ s.tracked = true ∧ s.edge = true ∧ 0 < s.unread

instance (s : QuerySocket) : Decidable s.EventToCome := inferInstanceAs (Decidable (_ ∨ _))

/-- No lost wake-up: once the whole response has reached the socket of a connection that is reading
    it, the callback has been invoked or an event is still to come. -/
def Awake (s : QuerySocket) : Prop :=
  s.sent = true → s.conn.connectionState = .readingResponse → s.toArrive = 0 →
    s.called = true ∨ s.EventToCome

instance (s : QuerySocket) : Decidable s.Awake := inferInstanceAs (Decidable (_ → _))

/-! ## When a dispatch keeps the connection awake -/

/-- This event ends the sending phase: no call fails and the last `PQflush` has sent everything. -/
def Switches (ev : EpollEvent) (a : PqAnswers) : Prop :=
  (ev.has epollOut = true → a.flushOut ≠ -1) ∧
    (ev.has epollIn = true → a.consumeInput ≠ 0) ∧
    (if ev.has epollIn = true then a.flushIn
      else if ev.has epollOut = true then a.flushOut else 1) = 0

instance (ev : EpollEvent) (a : PqAnswers) : Decidable (Switches ev a) :=
  inferInstanceAs (Decidable (_ ∧ _ ∧ _))

/-- Once the whole response is in the socket, a dispatch while reading completes the first result or
    leaves bytes that arrived after the report, and a dispatch that ends the sending phase leaves
    unread bytes. -/
def Progresses (s : QuerySocket) : QueryLabel → Prop
  | .dispatch a moved =>
      match s.queued with
      | none => True
      | some ev =>
          ev.has epollErr = false → s.toArrive = 0 →
            (s.conn.connectionState = .readingResponse → a.consumeInput ≠ 0 →
              s.first ≤ s.buffered + moved ∨ s.edge = true ∧ moved < s.unread) ∧
            (s.conn.connectionState = .sendingQuery → Switches ev a →
              0 < if ev.has epollIn = true then s.unread - moved else s.unread)
  | _ => True

instance (s : QuerySocket) (l : QueryLabel) : Decidable (s.Progresses l) := by
  unfold Progresses
  split
  · split <;> infer_instance
  · infer_instance

end QuerySocket

/-- A query on any connection object, with a response of any size and any first result. -/
def queryMachine : Machine QuerySocket QueryLabel where
  init s := ∃ conn total first, 0 < first ∧ first ≤ total ∧ s = .start conn total first
  next := QuerySocket.next

end FiberConn
