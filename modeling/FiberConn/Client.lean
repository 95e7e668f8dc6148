import FiberConn.RequestStream.Proofs
import FiberConn.Sending
import FiberConn.Wire

set_option autoImplicit false

/-! # The client (`example/client.cpp`)

One `APIconnection` on a reactor: it connects, sends a request, prints the response and is deleted.
`outstanding` is the operation for which the reactor holds the handler: none if `epoll_ctl` has
refused it (`granted` is false), which `connectApi` and `sendRequest` do not notice. `printed` is
what `printHttpResponse` has been given, each time with `is_error`, and `sent` and `received` are
the bytes `send` and `recv` have taken; these three and `refused` are history. -/

namespace FiberConn

/-- What the client asks for. -/
def clientRequest : Bytes :=
  ascii "GET / HTTP/1.1\r\n" ++ ascii "Accept: */*\r\n" ++ ascii "Connection: close\r\n" ++
    ascii "\r\n"

inductive ApiOp
  | connectApi
  | sendRequest
deriving DecidableEq

structure Client (L : Llhttp) where
  conn : Option (APIconnection L)
  outstanding : Option ApiOp
  printed : List (Bool × HttpResponse)
  sent : Bytes
  received : Bytes
  /-- `epoll_ctl` has refused the handler of an operation. -/
  refused : Bool
  /-- A deleted connection was used. -/
  dangling : Bool

/-- `granted` is the answer of `epoll_ctl` if the step calls `sendRequest`. -/
structure ClientLabel where
  ev : EpollEvent
  recvs : List RecvResult
  sends : List SendResult
  granted : Bool

namespace Client

variable {L : Llhttp}

/-- `delete apiconn`. -/
def delete (s : Client L) : Client L :=
  match s.conn with
  | some _ => { s with conn := none }
  | none => { s with dangling := true }

/-- The lambda given to `connectApi`. -/
def onConnected (s : Client L) (c : APIconnection L) (granted : Bool) : Client L :=
  if c.isError = false then
    let c := { c with sendBuffer := c.sendBuffer ++ clientRequest }
    { s with
      conn := some c.sendRequest.1
      outstanding := heldIf granted .sendRequest
      refused := s.refused || !granted }
  else s.delete

/-- The lambda given to `sendRequest`. -/
def onResponse (s : Client L) (c : APIconnection L) : Client L :=
  { s with printed := (c.isError, c.response) :: s.printed }.delete

/-- The lambda of an operation. -/
def run (s : Client L) (c : APIconnection L) (granted : Bool) : ApiOp → Client L
  | .connectApi => s.onConnected c granted
  | .sendRequest => s.onResponse c

/-- `handleEvent` has run and done `r`. -/
def handled (s : Client L) (r : Receipt (APIconnection L)) : Client L :=
  { s with
    conn := some r.conn
    sent := s.sent ++ written (sendCalls r.effects)
    received := s.received ++ bytesRead r.effects }

def next (s : Client L) (l : ClientLabel) : Option (Client L) :=
  match s.outstanding with
  | none => none
  | some op =>
      match s.conn with
      | none => some { s with dangling := true }
      | some c =>
          let r := c.handleEvent l.ev l.recvs l.sends
          if HonestSends r.effects then
            if CallsBack r.effects then
              some ({ s.handled r with outstanding := none }.run r.conn l.granted op)
            else some (s.handled r)
          else none

/-- `main`, up to `reactorRun`; `sockfd` is what `createConnection` returns. -/
def start (memory sockfd : ℤ) (granted : Bool) : Client L :=
  let r := (APIconnection.new "" memory : APIconnection L).connectApi sockfd
  let s : Client L := ⟨some r.1, none, [], [], [], false, false⟩
  if CallsBack r.2 then s.run r.1 granted .connectApi
  else { s with outstanding := heldIf granted .connectApi, refused := !granted }

end Client

def clientMachine (L : Llhttp) : Machine (Client L) ClientLabel where
  init s := ∃ memory sockfd granted, s = .start memory sockfd granted
  next := Client.next

end FiberConn
