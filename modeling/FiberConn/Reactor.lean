import FiberConn.SocketUtilities
import FiberConn.ThreadSafeMap

set_option autoImplicit false

/-! # `IOReactor` (`reactor.h`)

The reactor keeps, for every tracked descriptor, a callback and a priority, beside the kernel's
epoll interest list. `κ` is the type of stored callbacks (`std::function<void(struct epoll_event)>`
in the source); nothing here looks inside one.

The invariant of the whole class is `IOReactor.Tracked`: the interest list only holds descriptors
that have a callback, and exactly the descriptors with a callback have a priority. -/

namespace FiberConn

/-- `enum EventPriority`. -/
inductive EventPriority
  | listenSock
  | newSock
  | helperSock
deriving DecidableEq, Repr

/-- The enumerators' values, which `PQComparator` compares. -/
def EventPriority.val : EventPriority → ℕ
  | .listenSock => 0
  | .newSock => 1
  | .helperSock => 2

/-- What `event_queue_` holds. -/
abbrev QueuedEvent := EventPriority × EpollEvent

/-- The fields of `IOReactor`. `kernel` is what `epollfd_` refers to. `eventQueue` lists the
    elements of the `std::priority_queue`; their order in the list is irrelevant. -/
structure IOReactor (κ : Type) where
  maxEvents : ℕ
  kernel : Kernel
  eventQueue : List QueuedEvent
  eventCallback : ThreadSafeMap ℤ κ
  eventPriority : ThreadSafeMap ℤ EventPriority

namespace IOReactor

variable {κ : Type}

/-- The constructor: nothing tracked, nothing queued. -/
def new (maxEvents : ℕ) (kernel : Kernel) : IOReactor κ := ⟨maxEvents, kernel, [], ∅, ∅⟩

/-- The two `insert`s that follow a successful `epoll_ctl`. -/
def record (r : IOReactor κ) (kernel : Kernel) (fd : ℤ) (priority : EventPriority) (cb : κ) :
    IOReactor κ :=
  { r with
    kernel := kernel
    eventCallback := r.eventCallback.insert fd cb
    eventPriority := r.eventPriority.insert fd priority }

/-- `asyncAccept`. -/
def asyncAccept (r : IOReactor κ) (listenSock : ℤ) (cb : κ) (granted : Bool) : IOReactor κ × ℤ :=
  let k := r.kernel.addEpollInterest listenSock epollIn granted
  if k.2 = -1 then (r, -1) else (r.record k.1 listenSock .listenSock cb, 0)

/-- `addTrack`. -/
def addTrack (r : IOReactor κ) (sockfd : ℤ) (mask : EventMask) (priority : EventPriority) (cb : κ)
    (granted : Bool) : IOReactor κ × ℤ :=
  let k := r.kernel.addEpollInterest sockfd mask granted
  if k.2 = -1 then (r, -1) else (r.record k.1 sockfd priority cb, 0)

/-- `modifyTrack`. -/
def modifyTrack (r : IOReactor κ) (sockfd : ℤ) (mask : EventMask) (priority : EventPriority)
    (cb : κ) (granted : Bool) : IOReactor κ × ℤ :=
  let k := r.kernel.modifyEpollInterest sockfd mask granted
  if k.2 = -1 then (r, -1) else (r.record k.1 sockfd priority cb, 0)

/-- `removeTrack`: both entries go, whatever `EPOLL_CTL_DEL` answers. -/
def removeTrack (r : IOReactor κ) (sockfd : ℤ) : IOReactor κ × ℤ :=
  ({ r with
     kernel := (r.kernel.removeEpollInterest sockfd).1
     eventCallback := r.eventCallback.remove sockfd
     eventPriority := r.eventPriority.remove sockfd }, 0)

/-- A descriptor is closed outside the reactor: only the kernel notices. -/
def closeFd (r : IOReactor κ) (fd : ℤ) : IOReactor κ :=
  { r with kernel := (r.kernel.closeConnection fd).1 }

/-- The kernel hands out a descriptor. -/
def openFd (r : IOReactor κ) (fd : ℤ) : IOReactor κ := { r with kernel := r.kernel.openFd fd }

/-- `runCallback` up to the call: the callback that will be run for the event, `none` for
    "No callback found". -/
def runCallback (r : IOReactor κ) (e : QueuedEvent) : Option κ := r.eventCallback.get e.2.fd

/-- The priority `reactorRun` gives a reported event: the registered one, else `NEW_SOCK`. -/
def priorityOf (r : IOReactor κ) (ev : EpollEvent) : EventPriority :=
  (r.eventPriority.get ev.fd).getD .newSock

/-- The `for` loop of `reactorRun`: push every reported event. -/
def pushEvents (r : IOReactor κ) (events : List EpollEvent) : IOReactor κ :=
  { r with eventQueue := r.eventQueue ++ events.map fun ev => (r.priorityOf ev, ev) }

/-- `event_queue_.top()` may be `e`: a largest element, any of them among equals. -/
def IsTop (r : IOReactor κ) (e : QueuedEvent) : Prop :=
  e ∈ r.eventQueue ∧ ∀ x ∈ r.eventQueue, x.1.val ≤ e.1.val

instance (r : IOReactor κ) (e : QueuedEvent) : Decidable (r.IsTop e) :=
  inferInstanceAs (Decidable (_ ∧ _))

/-- `event_queue_.pop()` when `e` is the top. -/
def pop (r : IOReactor κ) (e : QueuedEvent) : IOReactor κ :=
  { r with eventQueue := r.eventQueue.erase e }

/-! ## The class invariant -/

/-- The interest list is covered by the callback map, whose keys are those of the priority map. -/
structure Tracked (r : IOReactor κ) : Prop where
  interest_sub : r.kernel.interest.keys ⊆ r.eventCallback.keys
  keys_eq : r.eventCallback.keys = r.eventPriority.keys

theorem tracked_new {maxEvents : ℕ} {kernel : Kernel} (h : kernel.interest.keys = ∅) :
    (new maxEvents kernel : IOReactor κ).Tracked :=
  ⟨by simp [new, h], rfl⟩

/-- `addTrack` either leaves the reactor alone or starts tracking a descriptor that was not of
    interest. -/
theorem addTrack_cases (r : IOReactor κ) (fd : ℤ) (mask : EventMask) (priority : EventPriority)
    (cb : κ) (granted : Bool) :
    (r.addTrack fd mask priority cb granted) = (r, -1) ∨
    fd ∉ r.kernel.interest.keys ∧ ∃ k : Kernel,
      k.interest = r.kernel.interest.insert fd mask ∧ k.openFds = r.kernel.openFds ∧
      (r.addTrack fd mask priority cb granted) = (r.record k fd priority cb, 0) := by
  unfold addTrack
  rcases r.kernel.addEpollInterest_ret fd mask granted with ⟨h, -⟩ | ⟨h, hn, hi, ho⟩
  · exact Or.inl (by simp [h])
  · exact Or.inr ⟨hn, _, hi, ho, by simp [h]⟩

/-- A granted request for an open descriptor that is not of interest starts tracking it. -/
theorem addTrack_granted {r : IOReactor κ} {fd : ℤ} (ho : fd ∈ r.kernel.openFds)
    (hn : fd ∉ r.kernel.interest.keys) (mask : EventMask) (priority : EventPriority) (cb : κ) :
    ∃ k : Kernel, k.interest = r.kernel.interest.insert fd mask ∧
      (r.addTrack fd mask priority cb true).1 = r.record k fd priority cb := by
  rcases r.addTrack_cases fd mask priority cb true with h | ⟨-, k, hk, -, h⟩
  · have hret : (r.addTrack fd mask priority cb true).2 = 0 := by
      simp [addTrack, Kernel.addEpollInterest_granted ho hn]
    rw [h] at hret
    exact absurd hret (by simp)
  · exact ⟨k, hk, by rw [h]⟩

theorem asyncAccept_eq (r : IOReactor κ) (fd : ℤ) (cb : κ) (granted : Bool) :
    r.asyncAccept fd cb granted = r.addTrack fd epollIn .listenSock cb granted := rfl

/-- `modifyTrack` either leaves the reactor alone or rearms a descriptor of interest. -/
theorem modifyTrack_cases (r : IOReactor κ) (fd : ℤ) (mask : EventMask)
    (priority : EventPriority) (cb : κ) (granted : Bool) :
    (r.modifyTrack fd mask priority cb granted) = (r, -1) ∨
    fd ∈ r.kernel.interest.keys ∧ ∃ k : Kernel,
      k.interest = r.kernel.interest.insert fd mask ∧ k.openFds = r.kernel.openFds ∧
      (r.modifyTrack fd mask priority cb granted) = (r.record k fd priority cb, 0) := by
  unfold modifyTrack
  rcases r.kernel.modifyEpollInterest_ret fd mask granted with ⟨h, -⟩ | ⟨h, hm, hi, ho⟩
  · exact Or.inl (by simp [h])
  · exact Or.inr ⟨hm, _, hi, ho, by simp [h]⟩

variable {r : IOReactor κ} {fd : ℤ} {mask : EventMask} {priority : EventPriority} {cb : κ}
  {granted : Bool}

/-- Recording an entry for a descriptor that was just put on the interest list. -/
theorem Tracked.record (h : r.Tracked) {k : Kernel}
    (hk : k.interest = r.kernel.interest.insert fd mask) :
    (r.record k fd priority cb).Tracked where
  interest_sub := by
    intro a ha
    rw [IOReactor.record, hk, Kernel.mem_keys_insert] at ha
    simp only [IOReactor.record, ThreadSafeMap.keys_insert, Finset.mem_insert]
    exact ha.imp_right fun ha => h.interest_sub ha
  keys_eq := by simp only [IOReactor.record, ThreadSafeMap.keys_insert, h.keys_eq]

theorem Tracked.addTrack (h : r.Tracked) :
    (r.addTrack fd mask priority cb granted).1.Tracked := by
  rcases r.addTrack_cases fd mask priority cb granted with he | ⟨-, k, hk, -, he⟩
  · rwa [he]
  · rw [he]; exact h.record hk

theorem Tracked.asyncAccept (h : r.Tracked) : (r.asyncAccept fd cb granted).1.Tracked :=
  h.addTrack

theorem Tracked.modifyTrack (h : r.Tracked) :
    (r.modifyTrack fd mask priority cb granted).1.Tracked := by
  rcases r.modifyTrack_cases fd mask priority cb granted with he | ⟨-, k, hk, -, he⟩
  · rwa [he]
  · rw [he]; exact h.record hk

theorem Tracked.removeTrack (h : r.Tracked) : (r.removeTrack fd).1.Tracked where
  interest_sub := by
    simp only [IOReactor.removeTrack, Kernel.removeEpollInterest_keys, ThreadSafeMap.keys_remove]
    exact Finset.erase_subset_erase _ h.interest_sub
  keys_eq := by simp only [IOReactor.removeTrack, ThreadSafeMap.keys_remove, h.keys_eq]

theorem Tracked.closeFd (h : r.Tracked) : (r.closeFd fd).Tracked where
  interest_sub := by
    simp only [IOReactor.closeFd, Kernel.closeConnection_keys]
    exact (Finset.erase_subset _ _).trans h.interest_sub
  keys_eq := h.keys_eq

theorem Tracked.openFd (h : r.Tracked) : (r.openFd fd).Tracked := ⟨h.interest_sub, h.keys_eq⟩

theorem Tracked.pushEvents (h : r.Tracked) {events : List EpollEvent} :
    (r.pushEvents events).Tracked := ⟨h.interest_sub, h.keys_eq⟩

theorem Tracked.pop (h : r.Tracked) {e : QueuedEvent} : (r.pop e).Tracked :=
  ⟨h.interest_sub, h.keys_eq⟩

/-- A descriptor of interest has a registered priority, so the `NEW_SOCK` default is not used. -/
theorem Tracked.priority_of_interest (h : r.Tracked) {ev : EpollEvent}
    (hev : ev.fd ∈ r.kernel.interest.keys) :
    r.eventPriority.get ev.fd = some (r.priorityOf ev) := by
  obtain ⟨p, hp⟩ := ThreadSafeMap.mem_keys_iff.1 (h.keys_eq ▸ h.interest_sub hev)
  simp [priorityOf, hp]

end IOReactor

end FiberConn
