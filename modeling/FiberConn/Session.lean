import FiberConn.Client
import FiberConn.Server

set_option autoImplicit false

/-! # The client and the server

The two programs of `example/`, connected by TCP: a stream in each direction, of which the other
side has received a prefix. The server has any number of other clients and its database. `peer` is
the client's connection on the server, and `heard` what the server has read from it. -/

namespace FiberConn

/-- What a step reads from the client `p`. -/
def Server.reads {J : Json} {L : Llhttp} (s : Server J L) (p : ℕ) : ServerLabel → Bytes
  | .event client ev recvs sends _ =>
      if client = p then
        ((s.clients p).map fun c => bytesRead (c.handleEvent ev recvs sends).effects).getD []
      else []
  | _ => []

structure Session (J : Json) (Lq Lr : Llhttp) where
  client : Client Lr
  server : Server J Lq
  peer : Option ℕ
  heard : Bytes

inductive SessionLabel
  | client (l : ClientLabel)
  | server (l : ServerLabel)
  /-- The server accepts the client's connection. -/
  | meet (sockfd : ℤ) (connectionId : String) (granted : Bool)

namespace Session

variable {J : Json} {Lq Lr : Llhttp}

/-- What the server has sent to the client. -/
def reply (s : Session J Lq Lr) : Bytes := (s.peer.map s.server.sent).getD []

/-- What a step of the server reads from the client. -/
def hears (s : Session J Lq Lr) (l : ServerLabel) : Bytes :=
  (s.peer.map fun p => s.server.reads p l).getD []

def next (s : Session J Lq Lr) : SessionLabel → Option (Session J Lq Lr)
  | .client l =>
      (s.client.next l).bind fun client =>
        if client.received <+: s.reply then some { s with client := client } else none
  | .server l =>
      (s.server.next l).bind fun server =>
        if s.heard ++ s.hears l <+: s.client.sent then
          some { s with server := server, heard := s.heard ++ s.hears l }
        else none
  | .meet sockfd connectionId granted =>
      if s.peer = none then
        (s.server.next (.accept sockfd connectionId granted)).map fun server =>
          { s with server := server, peer := some s.server.pool.accepted }
      else none

end Session

def sessionMachine (J : Json) (Lq Lr : Llhttp) :
    Machine (Session J Lq Lr) SessionLabel where
  init s := ∃ memory sockfd granted, s = ⟨.start memory sockfd granted, .start, none, []⟩
  next := Session.next

end FiberConn
