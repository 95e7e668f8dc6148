import FiberConn.Assembly

set_option autoImplicit false

/-! # The responses on one connection

What a server answers to the requests of one `APIconnection`, and what the user gets to see of it.
`Llhttp.responses` says which byte strings are responses that may follow each other: each ends with
its own last byte (`Content-Length`, chunked coding) or, the last one only, with the connection.
llhttp completes the second kind only in `llhttp_finish`, which is called nowhere. -/

namespace FiberConn

/-! ## Responses -/

/-- How the end of a response is marked. -/
inductive Framing
  | delimited
  | closing
deriving DecidableEq

structure Response where
  bytes : Bytes
  framing : Framing
deriving DecidableEq

/-- What a response says. -/
structure Reply where
  version : Bytes
  status : Bytes
  headers : HeaderMap
  body : Bytes
deriving DecidableEq

def HttpResponse.reply (r : HttpResponse) : Reply := ⟨r.version, r.status, r.headers, r.body⟩

namespace Llhttp

variable (L : Llhttp) (needsEof : L.State → Bool)

/-- `bs` is a message whose end none of its bytes marks; `needsEof` is `llhttp_message_needs_eof`.
    -/
def openMessage (s : L.State) : Bytes → Option (List Token × L.State)
  | [] => if needsEof s then some ([], s) else none
  | b :: bs =>
      let r := L.react s b
      if L.restarts s b ∨ L.isError r.next ∨ .notice .messageComplete ∈ r.tokens b then none
      else (openMessage r.next bs).map fun m => (r.tokens b ++ m.1, m.2)

def response (s : L.State) (r : Response) : Option (List Token × L.State) :=
  match r.framing with
  | .delimited => L.message s r.bytes
  | .closing => L.openMessage needsEof s r.bytes

/-- The responses after a completed one: each starts with a byte the parser restarts on. -/
def nextResponses (s : L.State) : List Response → Option (List Reply)
  | [] => some []
  | r :: rs =>
      if (∃ b ∈ r.bytes.head?, L.restarts s b) ∧ (r.framing = .closing → rs = []) then
        (L.response needsEof (L.restart s) r).bind fun m =>
          (nextResponses m.2 rs).map ((responseOf m.1).reply :: ·)
      else none

/-- The responses of a connection, with what they say. -/
def responses : List Response → Option (List Reply)
  | [] => some []
  | r :: rs =>
      if r.framing = .closing → rs = [] then
        (L.response needsEof L.init r).bind fun m =>
          (L.nextResponses needsEof m.2 rs).map ((responseOf m.1).reply :: ·)
      else none

end Llhttp

/-! ## The user's side -/

variable {L : Llhttp}

/-- A request and the events in which its response arrives. -/
structure Exchange where
  request : Bytes
  nonempty : request ≠ []
  arrivals : List Arrival

/-- The bytes of the response in any chunks and events, then possibly the end of the stream, which
    a response that ends with the connection needs. -/
structure Arrives (r : Response) (arrivals : List Arrival) : Prop where
  events : ∀ a ∈ arrivals, a.1.NoError
  answers : ∃ recvs tail, arrivals.flatMap Prod.snd = recvs ++ tail ∧
    (∀ x ∈ recvs, x.IsData) ∧ received recvs = r.bytes ∧
    (tail = [] ∧ r.framing = .delimited ∨ tail = [.eof])

namespace APIconnection

/-- The user appends the request and calls `sendRequest`; the socket takes all of it. -/
def submit (c : APIconnection L) (request : Bytes) : APIconnection L :=
  ({ c with sendBuffer := c.sendBuffer ++ request }.sendRequest.1.handleEvent
    ⟨epollOut, c.socket⟩ [] [.sent request.length]).conn

/-- The handler is run on the events: what the user sees at each callback, and the object left. -/
def await (c : APIconnection L) : List Arrival → List (Bool × Reply) × APIconnection L
  | [] => ([], c)
  | a :: arrivals =>
      let r := c.handleEvent a.1 a.2 []
      let later := await r.conn arrivals
      if CallsBack r.effects then ((r.conn.isError, r.conn.response.reply) :: later.1, later.2)
      else later

/-- One exchange after the other: what the user sees of each. -/
def converse (c : APIconnection L) : List Exchange → List (List (Bool × Reply))
  | [] => []
  | e :: es =>
      let r := (c.submit e.request).await e.arrivals
      r.1 :: converse r.2 es

end APIconnection

end FiberConn
