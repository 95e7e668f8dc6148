import Mathlib.Data.Finmap

set_option autoImplicit false

/-! # Descriptors and epoll (`socket_utilities.h`)

What the reactor uses of the kernel: the process's open descriptors and the interest list of one
epoll instance. `epoll_ctl` follows its documented effect. A request whose preconditions hold may
still be refused (`ENOMEM`, `ENOSPC`, `EPERM`): that choice is the argument `granted`. A request
whose preconditions fail (`EEXIST`, `ENOENT`, `EBADF`) is always refused and changes nothing. -/

namespace FiberConn

/-- `uint32_t` event masks. -/
abbrev EventMask := BitVec 32

def epollIn : EventMask := 0x001
def epollOut : EventMask := 0x004
def epollErr : EventMask := 0x008
def epollHup : EventMask := 0x010
def epollEt : EventMask := 0x80000000

/-- `EPOLLIN | EPOLLET | EPOLLERR | EPOLLHUP`. -/
def readMask : EventMask := epollIn ||| epollEt ||| epollErr ||| epollHup

/-- `EPOLLOUT | EPOLLET | EPOLLERR | EPOLLHUP`. -/
def writeMask : EventMask := epollOut ||| epollEt ||| epollErr ||| epollHup

/-- `EPOLLIN | EPOLLOUT | EPOLLET | EPOLLERR | EPOLLHUP`. -/
def bothMask : EventMask := epollIn ||| epollOut ||| epollEt ||| epollErr ||| epollHup

/-- `struct epoll_event`: the reported mask and `data.fd`. -/
structure EpollEvent where
  events : EventMask
  fd : ℤ
deriving DecidableEq, Repr

/-- `ev.events & mask`, as a condition. -/
def EpollEvent.has (ev : EpollEvent) (mask : EventMask) : Bool := ev.events &&& mask != 0

/-- The open descriptors and the epoll interest list, which only holds open descriptors: closing a
    descriptor takes it off the list. -/
structure Kernel where
  openFds : Finset ℤ
  interest : Finmap (fun _ : ℤ => EventMask)
  interest_open : interest.keys ⊆ openFds

namespace Kernel

/-- No descriptor of interest yet. -/
def start : Kernel := ⟨∅, ∅, by simp⟩

/-- The kernel hands out descriptor `fd` (`accept`, `socket`): a number that is not open. -/
def openFd (k : Kernel) (fd : ℤ) : Kernel :=
  { k with
    openFds := insert fd k.openFds
    interest_open := k.interest_open.trans (Finset.subset_insert _ _) }

/-- `epoll_ctl(EPOLL_CTL_ADD)`: `EEXIST` on a registered and `EBADF` on a closed descriptor. -/
def addEpollInterest (k : Kernel) (fd : ℤ) (mask : EventMask) (granted : Bool) : Kernel × ℤ :=
  if h : granted = true ∧ fd ∈ k.openFds ∧ fd ∉ k.interest.keys then
    ({ k with
       interest := k.interest.insert fd mask
       interest_open := by
         intro a ha
         rw [Finmap.mem_keys, Finmap.mem_insert] at ha
         rcases ha with rfl | ha
         · exact h.2.1
         · exact k.interest_open (Finmap.mem_keys.2 ha) }, 0)
  else (k, -1)

/-- `epoll_ctl(EPOLL_CTL_MOD)`: `ENOENT` on a descriptor that is not registered. -/
def modifyEpollInterest (k : Kernel) (fd : ℤ) (mask : EventMask) (granted : Bool) : Kernel × ℤ :=
  if h : granted = true ∧ fd ∈ k.interest.keys then
    ({ k with
       interest := k.interest.insert fd mask
       interest_open := by
         intro a ha
         rw [Finmap.mem_keys, Finmap.mem_insert] at ha
         rcases ha with rfl | ha
         · exact k.interest_open h.2
         · exact k.interest_open (Finmap.mem_keys.2 ha) }, 0)
  else (k, -1)

/-- `epoll_ctl(EPOLL_CTL_DEL)`: `ENOENT` on a descriptor that is not registered. -/
def removeEpollInterest (k : Kernel) (fd : ℤ) : Kernel × ℤ :=
  if fd ∈ k.interest.keys then
    ({ k with
       interest := k.interest.erase fd
       interest_open := by
         rw [Finmap.keys_erase]
         exact (Finset.erase_subset _ _).trans k.interest_open }, 0)
  else (k, -1)

/-- `close`: the descriptor leaves the table and, with it, the interest list. Linux releases it
    whatever `close` returns, and no caller looks at that. -/
def closeConnection (k : Kernel) (fd : ℤ) : Kernel × ℤ :=
  if fd ∈ k.openFds then
    ({ openFds := k.openFds.erase fd
       interest := k.interest.erase fd
       interest_open := by
         rw [Finmap.keys_erase]
         exact Finset.erase_subset_erase _ k.interest_open }, 0)
  else (k, -1)

end Kernel

/-! ## New sockets

The descriptors these functions obtain are given by the answers of `socket` and `accept`, with
`none` for -1. -/

/-- The answers during one `getSocket`. -/
structure SocketAnswers where
  socket : Option ℤ
  setsockopt : ℤ
  fcntl : ℤ

inductive AddressFamily
  | inet
  | inet6
  | other
deriving DecidableEq

/-- The answers during one `acceptConnection`, and the family of the peer's address. -/
structure AcceptAnswers where
  accept : Option ℤ
  fcntl : ℤ
  family : AddressFamily

/-- What `connect` says: 0, or -1 with `EINPROGRESS`, `EAGAIN` or another `errno`. -/
inductive ConnectResult
  | connected
  | inProgress
  | again
  | failed (code : ℕ)
deriving DecidableEq

/-- The answers during one `createConnection`; `endpoint` says that `getEndpoint` finds one. -/
structure ConnectAnswers where
  endpoint : Bool
  socket : SocketAnswers
  connect : ConnectResult

namespace Kernel

def getSocket (k : Kernel) (willReuse willBlock : Bool) (a : SocketAnswers) : Kernel × ℤ :=
  match a.socket with
  | none => (k, -1)
  | some sockfd =>
      let k := k.openFd sockfd
      if willReuse = true ∧ a.setsockopt = -1 then (k, -1)
      else if willBlock = false ∧ a.fcntl = -1 then (k, -1)
      else (k, sockfd)

def acceptConnection (k : Kernel) (a : AcceptAnswers) : Kernel × ℤ :=
  match a.accept with
  | none => (k, -1)
  | some newfd =>
      let k := k.openFd newfd
      if a.fcntl = -1 then (k, -1)
      else
        match a.family with
        | .inet => (k, newfd)
        | .inet6 => (k, newfd)
        -- closed, and returned all the same
        | .other => ((k.closeConnection newfd).1, newfd)

def createConnection (k : Kernel) (a : ConnectAnswers) : Kernel × ℤ :=
  if a.endpoint = false then (k, -1)
  else
    let r := k.getSocket false false a.socket
    if r.2 = -1 then (r.1, -1)
    else
      match a.connect with
      | .connected => r
      | .inProgress => r
      | .again => r
      | .failed _ => (r.1, -1)

/-! ## What each call does to the interest list -/

variable {k : Kernel} {fd a : ℤ} {mask : EventMask}

theorem addEpollInterest_ret (k : Kernel) (fd : ℤ) (mask : EventMask) (granted : Bool) :
    (k.addEpollInterest fd mask granted).2 = -1 ∧ (k.addEpollInterest fd mask granted).1 = k ∨
    (k.addEpollInterest fd mask granted).2 = 0 ∧ fd ∉ k.interest.keys ∧
      (k.addEpollInterest fd mask granted).1.interest = k.interest.insert fd mask ∧
      (k.addEpollInterest fd mask granted).1.openFds = k.openFds := by
  unfold addEpollInterest
  split
  · next h => exact Or.inr ⟨rfl, h.2.2, rfl, rfl⟩
  · exact Or.inl ⟨rfl, rfl⟩

/-- A granted request on an open, unregistered descriptor succeeds. -/
theorem addEpollInterest_granted (ho : fd ∈ k.openFds) (hn : fd ∉ k.interest.keys) :
    (k.addEpollInterest fd mask true).2 = 0 := by
  unfold addEpollInterest
  rw [dif_pos ⟨rfl, ho, hn⟩]

theorem modifyEpollInterest_ret (k : Kernel) (fd : ℤ) (mask : EventMask) (granted : Bool) :
    (k.modifyEpollInterest fd mask granted).2 = -1 ∧
      (k.modifyEpollInterest fd mask granted).1 = k ∨
    (k.modifyEpollInterest fd mask granted).2 = 0 ∧ fd ∈ k.interest.keys ∧
      (k.modifyEpollInterest fd mask granted).1.interest = k.interest.insert fd mask ∧
      (k.modifyEpollInterest fd mask granted).1.openFds = k.openFds := by
  unfold modifyEpollInterest
  split
  · next h => exact Or.inr ⟨rfl, h.2, rfl, rfl⟩
  · exact Or.inl ⟨rfl, rfl⟩

@[simp] theorem removeEpollInterest_keys :
    (k.removeEpollInterest fd).1.interest.keys = k.interest.keys.erase fd := by
  unfold removeEpollInterest
  split
  · exact Finmap.keys_erase _ _
  · next h => exact (Finset.erase_eq_of_notMem h).symm

@[simp] theorem closeConnection_keys :
    (k.closeConnection fd).1.interest.keys = k.interest.keys.erase fd := by
  unfold closeConnection
  split
  · exact Finmap.keys_erase _ _
  · next h =>
      have hfd : fd ∉ k.interest.keys := fun hi => h (k.interest_open hi)
      exact (Finset.erase_eq_of_notMem hfd).symm

/-! ## What each call does to the descriptor table -/

@[simp] theorem openFds_openFd : (k.openFd fd).openFds = insert fd k.openFds := rfl

@[simp] theorem openFds_addEpollInterest {granted : Bool} :
    (k.addEpollInterest fd mask granted).1.openFds = k.openFds := by
  unfold addEpollInterest
  split <;> rfl

@[simp] theorem openFds_modifyEpollInterest {granted : Bool} :
    (k.modifyEpollInterest fd mask granted).1.openFds = k.openFds := by
  unfold modifyEpollInterest
  split <;> rfl

@[simp] theorem openFds_removeEpollInterest :
    (k.removeEpollInterest fd).1.openFds = k.openFds := by
  unfold removeEpollInterest
  split <;> rfl

@[simp] theorem openFds_closeConnection :
    (k.closeConnection fd).1.openFds = k.openFds.erase fd := by
  unfold closeConnection
  split
  · rfl
  · next h => exact (Finset.erase_eq_of_notMem h).symm

theorem mem_keys_insert {m : Finmap (fun _ : ℤ => EventMask)} :
    a ∈ (m.insert fd mask).keys ↔ a = fd ∨ a ∈ m.keys := by
  simp only [Finmap.mem_keys, Finmap.mem_insert]

end Kernel

end FiberConn
