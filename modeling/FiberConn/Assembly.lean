import FiberConn.MessageReader
import FiberConn.RequestConnectionType

set_option autoImplicit false

/-! # Assembling a message

What the receive loop of either class makes of one message whose bytes arrive in any number of
chunks and events. `requestOf` and `responseOf` say what the user should find: they are read off the
parser's tokens, so they know nothing of buffers, fragments or events. -/

namespace FiberConn

variable {σ : Type}

/-! ## What a message says -/

/-- The value of the last field of that name. -/
def lastValue (name : Bytes) (fields : List (Bytes × Bytes)) : Option Bytes :=
  (fields.reverse.find? fun field => field.1 = name).map Prod.snd

/-- The map of a list of fields: for each name its last value (`fieldMap_lookup`). -/
def fieldMap (fields : List (Bytes × Bytes)) : HeaderMap :=
  fields.foldl (fun m field => m.insert field.1 field.2) ∅

def requestOf (ts : List Token) : HttpRequest where
  method := bytesOf .method ts
  url := bytesOf .url ts
  version := bytesOf .version ts
  key := []
  value := []
  headers := fieldMap (headerPairs [] [] ts)
  body := bytesOf .body ts

def responseOf (ts : List Token) : HttpResponse where
  version := bytesOf .version ts
  status := bytesOf .status ts
  key := []
  value := []
  headers := fieldMap (headerPairs [] [] ts)
  body := bytesOf .body ts

/-- A byte of a header's name or value. -/
def Token.InHeader : Token → Prop
  | .byte .headerField _ => True
  | .byte .headerValue _ => True
  | _ => False

/-- The value of every header is reported complete after its last byte. -/
def HeadersClosed : List Token → Prop
  | [] => True
  | token :: ts =>
      (token.InHeader → .notice .headerValueComplete ∈ ts) ∧ HeadersClosed ts

instance : DecidablePred Token.InHeader := fun token => by
  cases token with
  | notice n => exact isFalse id
  | byte kind b => cases kind <;> unfold Token.InHeader <;> infer_instance

instance decidableHeadersClosed : (ts : List Token) → Decidable (HeadersClosed ts)
  | [] => isTrue trivial
  | _ :: ts =>
      have := decidableHeadersClosed ts
      inferInstanceAs (Decidable (_ ∧ _))

/-! ## Fragments -/

/-- A callback as llhttp makes it: a data callback gets any part of its span. -/
inductive LlCall
  | notice (n : Notice)
  | data (kind : SpanKind) (bytes : Bytes)

/-- What a callback tells. -/
def LlCall.tokens : LlCall → List Token
  | .notice n => [.notice n]
  | .data kind bytes => bytes.map (.byte kind)

def Settings.call (S : Settings σ) (c : σ) : LlCall → σ
  | .notice n => S.notice c n
  | .data kind bytes => S.span c kind bytes

/-! ## Arrival -/

/-- An event, with the answers of `recv` that the handler can get until it would block. -/
abbrev Arrival := EpollEvent × List RecvResult

/-- An event on which the `API_RECEIVING` branch reads. -/
def EpollEvent.NoError (ev : EpollEvent) : Prop := ev.has epollErr = false

instance (ev : EpollEvent) : Decidable ev.NoError := inferInstanceAs (Decidable (_ = _))

/-- The handler is run on one event after the other. -/
def receipts (handle : σ → EpollEvent → List RecvResult → Receipt σ) :
    σ → List Arrival → List (Receipt σ)
  | _, [] => []
  | c, a :: arrivals => handle c a.1 a.2 :: receipts handle (handle c a.1 a.2).conn arrivals

/-- The events deliver `msg` chunk by chunk, and its last byte in the last event. -/
structure Delivered (msg : Bytes) (arrivals : List Arrival) : Prop where
  chunks : ∀ a ∈ arrivals, ∀ x ∈ a.2, x.IsData
  bytes : received (arrivals.flatMap Prod.snd) = msg
  last : ∀ a ∈ arrivals.getLast?, a.2 ≠ []

/-- The callback is invoked exactly once, in the last event, and the object satisfies `P` then. -/
structure CalledAtEnd (P : σ → Prop) (rs : List (Receipt σ)) : Prop where
  silent : ∀ r ∈ rs.dropLast, CallsBack r.effects = false
  called : ∃ r ∈ rs.getLast?, r.effects.countP Effect.IsCallback = 1 ∧ P r.conn

variable {L : Llhttp}

/-- A connection on which nothing has been received. -/
structure Clientconnection.Pristine (c : Clientconnection L) : Prop where
  isError : c.isError = false
  isRequestComplete : c.isRequestComplete = false
  request : c.request = .empty
  parser : c.parser = L.init

structure APIconnection.Pristine (c : APIconnection L) : Prop where
  isError : c.isError = false
  isRequestComplete : c.isRequestComplete = false
  response : c.response = .empty
  parser : c.parser = L.init

/-- `llhttp_execute` on a chunk, when it makes these callbacks and ends in state `t`. -/
def Clientconnection.executeCalls (c : Clientconnection L) (chunk : Chunk) (calls : List LlCall)
    (t : L.State) : Clientconnection L :=
  { calls.foldl settings.call { c with recvBuffer := c.recvBuffer.write chunk } with parser := t }

def APIconnection.executeCalls (c : APIconnection L) (chunk : Chunk) (calls : List LlCall)
    (t : L.State) : APIconnection L :=
  { calls.foldl settings.call { c with recvBuffer := c.recvBuffer.write chunk } with parser := t }

end FiberConn
