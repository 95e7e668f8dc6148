import FiberConn.HttpServerType
import FiberConn.Lib.Machine
import FiberConn.Lib.PartialWrite
import FiberConn.RequestConnectionType

set_option autoImplicit false

/-! # Sending

`Clientconnection::write` and the `API_SENDING` state of `APIconnection` push `sendBuffer` out with
the same loop around `send`. A `Sender` is what the two have in common; its machine is one object of
the class whose user appends to `sendBuffer` and calls its methods in any order, and whose handler
gets any events and any answers. The ledger is history: every byte appended, every byte the kernel
accepted, and what was in the buffer whenever a send completed.

The list of answers of an event may be cut anywhere: a run whose last event has fewer answers stops
where the loop of the longer one passes by, so what holds in every reachable state holds between any
two calls of `send`. -/

namespace FiberConn

/-! ## The calls of `send` -/

/-- How many bytes a `send` has taken. -/
def SendResult.count : SendResult → ℕ
  | .sent n => n
  | .fail _ => 0

/-- The call as a write call, if it is one of `send`. -/
def Effect.sendCall : Effect → Option (WriteCall UInt8)
  | .send bytes result => some (bytes, result.count)
  | _ => none

/-- The calls of `send` in a trace. -/
def sendCalls (effs : List Effect) : List (WriteCall UInt8) := effs.filterMap Effect.sendCall

/-- `send` never takes more than it is offered. -/
def HonestSends (effs : List Effect) : Prop := ∀ call ∈ sendCalls effs, call.2 ≤ call.1.length

instance (effs : List Effect) : Decidable (HonestSends effs) :=
  inferInstanceAs (Decidable (∀ call ∈ sendCalls effs, call.2 ≤ call.1.length))

/-! ## An object that sends -/

structure Sender (σ : Type) where
  Fresh : σ → Prop
  sendBuffer : σ → Bytes
  sentBytes : σ → ℕ
  /-- The user appends to `sendBuffer`. -/
  append : σ → Bytes → σ
  /-- The methods that start operations. -/
  Call : Type
  call : σ → Call → σ
  handleEvent : σ → EpollEvent → List RecvResult → List SendResult → Receipt σ
  /-- The event has completed a send without error. -/
  Completes : σ → EpollEvent → Receipt σ → Prop

/-- The object with its history. -/
structure SendState (σ : Type) where
  conn : σ
  ledger : Ledger UInt8

inductive SendLabel (Call : Type)
  | append (bytes : Bytes)
  | call (k : Call)
  | event (ev : EpollEvent) (recvs : List RecvResult) (sends : List SendResult)

namespace Sender

variable {σ : Type} (S : Sender σ)

/-- The history after an event: what `send` has taken and, if the buffer is empty now, what it held
    before. -/
def record (l : Ledger UInt8) (c : σ) (r : Receipt σ) : Ledger UInt8 :=
  (l.accept (written (sendCalls r.effects))).complete
    (if S.sendBuffer r.conn = [] then S.sendBuffer c else [])

def next (s : SendState σ) : SendLabel S.Call → Option (SendState σ)
  | .append bytes => some ⟨S.append s.conn bytes, s.ledger.append bytes⟩
  | .call k => some { s with conn := S.call s.conn k }
  | .event ev recvs sends =>
      let r := S.handleEvent s.conn ev recvs sends
      if HonestSends r.effects then some ⟨r.conn, S.record s.ledger s.conn r⟩ else none

def machine : Machine (SendState σ) (SendLabel S.Call) where
  init s := S.Fresh s.conn ∧ s.ledger = .empty
  next := S.next

/-- What has not been accepted of `sendBuffer`. -/
def unsent (c : σ) : Bytes := (S.sendBuffer c).drop (S.sentBytes c)

/-- Everything appended has been accepted, and the buffer is ready for the next send. -/
structure Settled (s : SendState σ) : Prop where
  accepted : s.ledger.accepted = s.ledger.appended
  sendBuffer : S.sendBuffer s.conn = []
  sentBytes : S.sentBytes s.conn = 0

/-- **Byte-exact sending.** Buffer and position agree with the history, what the kernel has accepted
    is a prefix of what was appended, every call of `send` offers exactly the bytes not accepted
    yet, and a send that completes has settled everything. -/
structure Exact (s : SendState σ) : Prop where
  balanced : s.ledger.Balanced (S.sendBuffer s.conn) (S.sentBytes s.conn)
  isPrefix : s.ledger.accepted <+: s.ledger.appended
  offers : ∀ ev recvs sends t, S.next s (.event ev recvs sends) = some t →
    ∃ rest, Follows (S.unsent s.conn)
      (sendCalls (S.handleEvent s.conn ev recvs sends).effects) rest
  completes : ∀ ev recvs sends t, S.next s (.event ev recvs sends) = some t →
    S.Completes s.conn ev (S.handleEvent s.conn ev recvs sends) → S.Settled t

end Sender

/-! ## The two classes -/

/-- `read` and `write` change nothing in the object: they only register its handler. -/
inductive ClientCall
  | read
  | write

def Clientconnection.sender (L : Llhttp) : Sender (Clientconnection L) where
  Fresh c := ∃ fd id, c = .new fd id
  sendBuffer := sendBuffer
  sentBytes := sentBytes
  append c bytes := { c with sendBuffer := c.sendBuffer ++ bytes }
  Call := ClientCall
  call c _ := c
  handleEvent := handleEvent
  -- a socket registered by `write` never reports `EPOLLIN`
  Completes _ ev r := ev.has epollIn = false ∧ CallsBack r.effects = true ∧ r.conn.isError = false

inductive ApiCall
  | connectApi (sockfd : ℤ)
  | sendRequest

def APIconnection.sender (L : Llhttp) : Sender (APIconnection L) where
  Fresh c := ∃ parent memory, c = .new parent memory
  sendBuffer := sendBuffer
  sentBytes := sentBytes
  append c bytes := { c with sendBuffer := c.sendBuffer ++ bytes }
  Call := ApiCall
  call c
    | .connectApi sockfd => (c.connectApi sockfd).1
    | .sendRequest => c.sendRequest.1
  handleEvent := handleEvent
  Completes c _ r := c.state ≠ .receiving ∧ r.conn.state = .receiving

end FiberConn
