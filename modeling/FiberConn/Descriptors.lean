import FiberConn.Lib.Ownership
import FiberConn.Operations

set_option autoImplicit false

/-! # Descriptors and the objects that own them

The descriptor table of a process while servers are set up, clients are accepted, `APIconnection`s
are connected and objects are used and deleted, with every answer of the system calls. The
functions of `socket_utilities.h` obtain descriptors, an object's destructor closes one. libpq and
the rest of the program open and close descriptors of their own.

`Accounted` is the law: the open descriptors are exactly the listening sockets, the others' and the
sockets of the live objects, each of one object. -/

namespace FiberConn

variable {Lq Lr : Llhttp}

/-! ## Objects -/

/-- An object that closes a descriptor when it is deleted; `called` tells whether `connectApi` has
    been called on it. -/
inductive HttpConnection (Lq Lr : Llhttp)
  | client (c : Clientconnection Lq)
  | api (c : APIconnection Lr) (called : Bool)

/-- The operations that work on the object's socket. -/
inductive HttpOperation
  | read
  | write
  | sendRequest
deriving DecidableEq

namespace HttpConnection

def socket : HttpConnection Lq Lr → ℤ
  | .client c => c.socket
  | .api c _ => c.socket

/-- The descriptor the object has been given. Before `connectApi` the member `socket` of an
    `APIconnection` is not initialised, and after a failed one it is -1. -/
def owned : HttpConnection Lq Lr → Option ℤ
  | .client c => some c.socket
  | .api c called => if called = true ∧ c.socket ≠ -1 then some c.socket else none

/-- The number in an uninitialised `socket`. -/
def stray : HttpConnection Lq Lr → Option ℤ
  | .api c false => some c.socket
  | _ => none

/-- `handleEvent`. -/
def handleEvent (x : HttpConnection Lq Lr) (ev : EpollEvent) (recvs : List RecvResult)
    (sends : List SendResult) : HttpConnection Lq Lr × List Effect :=
  match x with
  | .client c =>
      let r := c.handleEvent ev recvs sends
      (.client r.conn, r.effects)
  | .api c called =>
      let r := c.handleEvent ev recvs sends
      (.api r.conn called, r.effects)

/-- The methods of its class. -/
def start : HttpConnection Lq Lr → HttpOperation → Option (HttpConnection Lq Lr × List Effect)
  | .client c, .read => some (.client c, c.read)
  | .client c, .write => some (.client c, c.write)
  | .api c called, .sendRequest => some (.api c.sendRequest.1 called, c.sendRequest.2)
  | _, _ => none

/-- The destructor. -/
def destroy : HttpConnection Lq Lr → List Effect
  | .client c => c.destroy
  | .api c _ => c.destroy

/-- User code has changed fields of the object, but not `socket`. -/
def SameSocket : HttpConnection Lq Lr → HttpConnection Lq Lr → Prop
  | .client c, .client c' => c'.socket = c.socket
  | .api c called, .api c' called' => c'.socket = c.socket ∧ called' = called
  | _, _ => False

instance : ∀ x y : HttpConnection Lq Lr, Decidable (x.SameSocket y)
  | .client _, .client _ => inferInstanceAs (Decidable (_ = _))
  | .api _ _, .api _ _ => inferInstanceAs (Decidable (_ ∧ _))
  | .client _, .api _ _ => isFalse id
  | .api _ _, .client _ => isFalse id

end HttpConnection

/-- What a call does to the descriptor table and the epoll set. -/
def Kernel.perform (granted : Bool) (k : Kernel) : Effect → Kernel
  | .addTrack fd mask _ => (k.addEpollInterest fd mask granted).1
  | .modifyTrack fd mask _ => (k.modifyEpollInterest fd mask granted).1
  | .removeTrack fd => (k.removeEpollInterest fd).1
  | .close fd => (k.closeConnection fd).1
  | .pq (.finish (some fd)) => (k.closeConnection fd).1
  | _ => k

/-! ## Failures after a descriptor was obtained -/

/-- No call of `getSocket` fails after `socket`. -/
def SocketAnswers.Clean (willReuse willBlock : Bool) (a : SocketAnswers) : Prop :=
  (willReuse = true → a.setsockopt ≠ -1) ∧ (willBlock = false → a.fcntl ≠ -1)

/-- None fails after `accept`, and the peer's address is of a family the program knows. -/
def AcceptAnswers.Clean (a : AcceptAnswers) : Prop := a.fcntl ≠ -1 ∧ a.family ≠ .other

def ConnectResult.Failed : ConnectResult → Prop
  | .failed _ => True
  | _ => False

instance : DecidablePred ConnectResult.Failed
  | .failed _ => isTrue trivial
  | .connected => isFalse id
  | .inProgress => isFalse id
  | .again => isFalse id

/-- The descriptor `createConnection` obtains. -/
def ConnectAnswers.opened (a : ConnectAnswers) : Option ℤ :=
  if a.endpoint = true then a.socket.socket else none

def ConnectAnswers.Clean (a : ConnectAnswers) : Prop :=
  a.socket.Clean false false ∧ ¬ a.connect.Failed

instance (willReuse willBlock : Bool) (a : SocketAnswers) :
    Decidable (a.Clean willReuse willBlock) := inferInstanceAs (Decidable (_ ∧ _))

instance (a : AcceptAnswers) : Decidable a.Clean := inferInstanceAs (Decidable (_ ∧ _))

instance (a : ConnectAnswers) : Decidable a.Clean := inferInstanceAs (Decidable (_ ∧ _))

/-! ## The process -/

/-- `heap` has the live objects by their addresses, `servers` are the sockets of the `HttpServer`s
    and `others` the descriptors of libpq and of the rest of the program. -/
structure Descriptors (Lq Lr : Llhttp) where
  kernel : Kernel
  heap : ℕ → Option (HttpConnection Lq Lr)
  servers : Finset ℤ
  others : Finset ℤ

inductive DescriptorLabel (Lq Lr : Llhttp)
  /-- `new HttpServer`. -/
  | serve (a : SocketAnswers)
  /-- An `EPOLLIN` of a listening socket. -/
  | incoming (server : ℤ) (a : AcceptAnswers) (obj : ℕ) (connectionId : String)
  /-- `new APIconnection`. -/
  | newApi (obj : ℕ) (parent : String) (memory : ℤ)
  | connectApi (obj : ℕ) (a : ConnectAnswers) (granted : Bool)
  | event (obj : ℕ) (ev : EpollEvent) (recvs : List RecvResult) (sends : List SendResult)
      (granted : Bool)
  | start (obj : ℕ) (op : HttpOperation) (granted : Bool)
  | edit (obj : ℕ) (x : HttpConnection Lq Lr)
  | delete (obj : ℕ)
  | openOther (fd : ℤ)
  | closeOther (fd : ℤ)

namespace Descriptors

/-- The kernel gives a new descriptor a number that is not open. -/
def Fresh (s : Descriptors Lq Lr) (opened : Option ℤ) : Prop :=
  ∀ fd ∈ opened, 0 ≤ fd ∧ fd ∉ s.kernel.openFds

instance (s : Descriptors Lq Lr) : (opened : Option ℤ) → Decidable (s.Fresh opened)
  | none => isTrue (by simp [Fresh])
  | some fd => decidable_of_iff (0 ≤ fd ∧ fd ∉ s.kernel.openFds) (by simp [Fresh])

/-- `new`. -/
def allocate (s : Descriptors Lq Lr) (obj : ℕ) (x : HttpConnection Lq Lr) : Descriptors Lq Lr :=
  { s with heap := Function.update s.heap obj (some x) }

/-- The constructor of `HttpServer`. -/
def serve (s : Descriptors Lq Lr) (a : SocketAnswers) : Descriptors Lq Lr :=
  let r := s.kernel.getSocket true false a
  { s with kernel := r.1, servers := if r.2 = -1 then s.servers else insert r.2 s.servers }

/-- The accept callback of `HttpServer::listen`. -/
def accept (s : Descriptors Lq Lr) (a : AcceptAnswers) (obj : ℕ) (connectionId : String) :
    Descriptors Lq Lr :=
  let r := s.kernel.acceptConnection a
  if r.2 = -1 then { s with kernel := r.1 }
  else { s with kernel := r.1 }.allocate obj (.client (.new r.2 connectionId))

/-- An object makes calls that leave it as `r.1`. -/
def perform (s : Descriptors Lq Lr) (obj : ℕ) (r : HttpConnection Lq Lr × List Effect)
    (granted : Bool) : Descriptors Lq Lr :=
  { s with
    kernel := r.2.foldl (Kernel.perform granted) s.kernel
    heap := Function.update s.heap obj (some r.1) }

/-- `APIconnection::connectApi`. -/
def connectApi (s : Descriptors Lq Lr) (obj : ℕ) (c : APIconnection Lr) (a : ConnectAnswers)
    (granted : Bool) : Descriptors Lq Lr :=
  let r := s.kernel.createConnection a
  let call := c.connectApi r.2
  { s with kernel := r.1 }.perform obj (.api call.1 true, call.2) granted

/-- `delete`. -/
def delete (s : Descriptors Lq Lr) (obj : ℕ) (x : HttpConnection Lq Lr) : Descriptors Lq Lr :=
  { s with
    kernel := x.destroy.foldl (Kernel.perform true) s.kernel
    heap := Function.update s.heap obj none }

/-- One step. A new object gets an address that no live object has, and `connectApi` is called at
    most once on each object. -/
def next (s : Descriptors Lq Lr) : DescriptorLabel Lq Lr → Option (Descriptors Lq Lr)
  | .serve a => if s.Fresh a.socket then some (s.serve a) else none
  | .incoming server a obj connectionId =>
      if server ∈ s.servers ∧ s.Fresh a.accept ∧ s.heap obj = none then
        some (s.accept a obj connectionId)
      else none
  | .newApi obj parent memory =>
      if s.heap obj = none then some (s.allocate obj (.api (.new parent memory) false)) else none
  | .connectApi obj a granted =>
      match s.heap obj with
      | some (.api c false) =>
          if s.Fresh a.opened then some (s.connectApi obj c a granted) else none
      | _ => none
  | .event obj ev recvs sends granted =>
      (s.heap obj).map fun x => s.perform obj (x.handleEvent ev recvs sends) granted
  | .start obj op granted =>
      (s.heap obj).bind fun x => (x.start op).map fun r => s.perform obj r granted
  | .edit obj x' =>
      (s.heap obj).bind fun x =>
        if x.SameSocket x' then some (s.perform obj (x', []) true) else none
  | .delete obj => (s.heap obj).map (s.delete obj)
  | .openOther fd =>
      if s.Fresh (some fd) then
        some { s with kernel := s.kernel.openFd fd, others := insert fd s.others }
      else none
  | .closeOther fd =>
      if fd ∈ s.others then
        some { s with kernel := (s.kernel.closeConnection fd).1, others := s.others.erase fd }
      else none

/-! ## The law -/

/-- Who owns an open descriptor, or thinks so. -/
def Owns (s : Descriptors Lq Lr) : Owner → ℤ → Prop
  | .server, fd => fd ∈ s.servers
  | .other, fd => fd ∈ s.others
  | .object obj, fd => ∃ x ∈ s.heap obj, x.owned = some fd

/-- Every open descriptor is a listening socket, one of the others' or the socket of one live
    object, and of nobody else; no object's socket has been closed. -/
def Accounted (s : Descriptors Lq Lr) : Prop := SolelyOwned (s.kernel.openFds : Set ℤ) s.Owns

/-- Nothing fails after a descriptor was obtained, and if an `APIconnection` that was never
    connected is deleted, its uninitialised `socket` is not the number of an open descriptor. -/
def Tidy (s : Descriptors Lq Lr) : DescriptorLabel Lq Lr → Prop
  | .serve a => a.socket.isSome → a.Clean true false
  | .incoming _ a _ _ => a.accept.isSome → a.Clean
  | .connectApi _ a _ => a.opened.isSome → a.Clean
  | .delete obj => ∀ x ∈ s.heap obj, ∀ fd ∈ x.stray, fd ∉ s.kernel.openFds
  | _ => True

instance (s : Descriptors Lq Lr) : (l : DescriptorLabel Lq Lr) → Decidable (s.Tidy l)
  | .serve _ => inferInstanceAs (Decidable (_ → _))
  | .incoming _ _ _ _ => inferInstanceAs (Decidable (_ → _))
  | .connectApi _ _ _ => inferInstanceAs (Decidable (_ → _))
  | .delete obj => inferInstanceAs (Decidable (∀ x ∈ s.heap obj, ∀ fd ∈ x.stray, _))
  | .newApi _ _ _ => isTrue trivial
  | .event _ _ _ _ _ => isTrue trivial
  | .start _ _ _ => isTrue trivial
  | .edit _ _ => isTrue trivial
  | .openOther _ => isTrue trivial
  | .closeOther _ => isTrue trivial

end Descriptors

/-- A process that has descriptors, but no server and no object yet. -/
def descriptorMachine (Lq Lr : Llhttp) : Machine (Descriptors Lq Lr) (DescriptorLabel Lq Lr) where
  init s := s.kernel.openFds = s.others ∧ (∀ fd ∈ s.others, 0 ≤ fd) ∧ s.servers = ∅ ∧
    ∀ obj, s.heap obj = none
  next := Descriptors.next

end FiberConn
