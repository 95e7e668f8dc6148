import FiberConn.HttpServerType

set_option autoImplicit false

/-! # A stream of requests on one connection

What a peer sends, and what the user of a `Clientconnection` gets to see of it. `Llhttp.requests`
says which byte strings are requests that may follow each other on a connection, and what each of
them says: it is read off the parser's tokens and knows nothing of the connection object, its buffer
or the calls of `recv`. `Clientconnection.serve` is the object at work, with a user that calls
`read` again after each callback. -/

namespace FiberConn

/-- What a request says. The header fields are the map an `HttpRequest` can hold, where a repeated
    field has its last value. -/
structure Content where
  method : Bytes
  url : Bytes
  version : Bytes
  headers : HeaderMap
  body : Bytes
deriving DecidableEq

def HttpRequest.content (r : HttpRequest) : Content :=
  ⟨r.method, r.url, r.version, r.headers, r.body⟩

/-! ## Messages -/

/-- All bytes of one kind. -/
def bytesOf (kind : SpanKind) : List Token → Bytes
  | [] => []
  | .notice _ :: ts => bytesOf kind ts
  | .byte k b :: ts => if k = kind then b :: bytesOf kind ts else bytesOf kind ts

/-- The header fields in order; `key` and `value` are what has been seen of the current one. -/
def headerPairs (key value : Bytes) : List Token → List (Bytes × Bytes)
  | [] => []
  | .notice .headerValueComplete :: ts => (key, value) :: headerPairs [] [] ts
  | .notice _ :: ts => headerPairs key value ts
  | .byte .headerField b :: ts => headerPairs (key ++ [b]) value ts
  | .byte .headerValue b :: ts => headerPairs key (value ++ [b]) ts
  | .byte _ _ :: ts => headerPairs key value ts

/-- What the tokens of one message say. -/
def decode (ts : List Token) : Content where
  method := bytesOf .method ts
  url := bytesOf .url ts
  version := bytesOf .version ts
  headers := (headerPairs [] [] ts).foldl (fun m field => m.insert field.1 field.2) ∅
  body := bytesOf .body ts

namespace Llhttp

variable (L : Llhttp)

/-- `bs` is exactly one message, read from state `s`: no byte of it starts another message or is an
    error, and its last byte is the one that completes it. -/
def message (s : L.State) : Bytes → Option (List Token × L.State)
  | [] => none
  | b :: bs =>
      let r := L.react s b
      if L.restarts s b ∨ L.isError r.next then none
      else if .notice .messageComplete ∈ r.tokens b then
        if bs = [] then some (r.tokens b, r.next) else none
      else (message r.next bs).map fun m => (r.tokens b ++ m.1, m.2)

/-- The messages that follow a completed one: each starts with a byte the parser restarts on. -/
def following (s : L.State) : List Bytes → Option (List Content)
  | [] => some []
  | msg :: msgs =>
      if ∃ b ∈ msg.head?, L.restarts s b then
        (L.message (L.restart s) msg).bind fun m => (following m.2 msgs).map (decode m.1 :: ·)
      else none

/-- The requests of a connection, one byte string each, with what they say. -/
def requests : List Bytes → Option (List Content)
  | [] => some []
  | msg :: msgs =>
      (L.message L.init msg).bind fun m => (L.following m.2 msgs).map (decode m.1 :: ·)

/-- No message begins with a NUL byte (`HPE_INVALID_METHOD`). -/
def RejectsNul : Prop :=
  ∀ s b, L.restarts s b = true → L.isError (L.react (L.restart s) 0).next = true

end Llhttp

/-! ## The kernel's side -/

/-- The bytes a call of `recv` delivers. -/
def RecvResult.bytes : RecvResult → Bytes
  | .data chunk => chunk.bytes
  | _ => []

/-- On a live connection `recv` delivers something or would block. -/
def RecvResult.Live : RecvResult → Prop
  | .data _ => True
  | .fail .eagain => True
  | .fail .ewouldblock => True
  | _ => False

/-- `EPOLLIN` without `EPOLLERR`. -/
def EpollEvent.Readable (ev : EpollEvent) : Prop := ev.has epollErr = false ∧ ev.has epollIn = true

instance (ev : EpollEvent) : Decidable ev.Readable := inferInstanceAs (Decidable (_ ∧ _))

/-- Everything a list of `recv` calls delivers. -/
def received (recvs : List RecvResult) : Bytes := recvs.flatMap RecvResult.bytes

variable {L : Llhttp}

/-- The connection gets these events, `recv` answers from the list, and the user calls `read` again
    after each callback: what it sees at each callback. -/
def Clientconnection.serve (c : Clientconnection L) :
    List EpollEvent → List RecvResult → List (Bool × Content)
  | [], _ => []
  | ev :: evs, recvs =>
      let r := c.handleEvent ev recvs []
      if CallsBack r.effects then
        (r.conn.isError, r.conn.request.content) :: r.conn.serve evs r.unread
      else r.conn.serve evs r.unread

end FiberConn
