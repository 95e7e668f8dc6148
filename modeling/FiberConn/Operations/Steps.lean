import FiberConn.DbConnectionType.Proofs
import FiberConn.Operations
import FiberConn.ReactorRun.Proofs

set_option autoImplicit false

/-! # What each step does to the operations

`Consistent` is what the process keeps as long as the law of operations holds: every handler in the
callback map belongs to the operation outstanding on its object, is stored under that object's own
socket and is covered by epoll, and nothing else is, listening sockets apart. Each kind of change
keeps it, by one lemma each: the reactor moves on or loses something that is no handler (`rewire`),
an operation is refused or registered at its start, a handler leaves its operation waiting or ends
it. -/

namespace FiberConn

variable {Lq Lr : Llhttp}

/-! ## Connections -/

namespace Connection

variable {c : Connection Lq Lr} {ev : EpollEvent} {a : Answers}

theorem handleEvent_trace : HandlerTrace c.socket (c.handleEvent ev a).2 := by
  cases c with
  | client c => exact c.handleEvent_trace
  | api c => exact c.handleEvent_trace
  | db c => exact c.handleEvent_trace

/-- No handler changes the class, the socket or the `PGconn`. -/
theorem handleEvent_handle : (c.handleEvent ev a).1.handle = c.handle := by
  cases c with
  | client c => exact congrArg Handle.client Clientconnection.handleEvent_socket
  | api c => exact congrArg Handle.api APIconnection.handleEvent_socket
  | db c =>
      have h := @Dbconnection.handleEvent_handle c ev a.pq
      exact congrArg₂ Handle.db h.1 h.2

/-- How an operation starts: refused at once, or with its socket put into the reactor as the last
    thing. A refused one has opened nothing, and only a `Dbconnection` that has a socket can refuse
    one that does not connect. -/
inductive StartOutcome (c : Connection Lq Lr) (op : Operation) :
    Connection Lq Lr × List Effect → Prop
  | refused {c' : Connection Lq Lr} {effs : List Effect} (hcalls : ∀ e ∈ effs, e.IsCall)
      (hopens : op.opens = none)
      (hsame : op.Connects ∨ c'.handle = c.handle ∧ ∃ fd conn, c.handle = .db fd conn)
      (hdb : ∀ fd conn, c'.handle = .db fd conn →
        ∃ conn', c.handle = .db fd conn' ∧ (conn = none ∨ conn = conn')) :
      StartOutcome c op (c', effs ++ [.callback])
  | tracked {c' : Connection Lq Lr} {effs : List Effect} {mask : EventMask}
      {priority : EventPriority} (hcalls : ∀ e ∈ effs, e.IsCall)
      (hopens : ∀ fd ∈ op.opens, c'.socket = fd) (hconn : op.Connects → op.opens.isSome)
      (hsame : ¬ op.Connects → c'.handle = c.handle)
      (hdb : ∀ fd fd', c'.handle = .db fd (some fd') → fd' = fd ∨ c.handle = .db fd (some fd')) :
      StartOutcome c op (c', effs ++ [.addTrack c'.socket mask priority])

theorem start_outcome {op : Operation} {r : Connection Lq Lr × List Effect}
    (h : c.start op = some r) (hdoc : op.Documented) (hopens : ∀ fd ∈ op.opens, 0 ≤ fd) :
    StartOutcome c op r := by
  cases c with
  | client c =>
      cases op with
      | read =>
          obtain rfl := Option.some.inj h
          exact @StartOutcome.tracked _ _ _ _ (.client c) [] _ _ (by simp)
            (by simp [Operation.opens]) (by simp [Operation.Connects]) (fun _ => rfl)
            (by simp [handle])
      | write =>
          obtain rfl := Option.some.inj h
          exact @StartOutcome.tracked _ _ _ _ (.client c) [] _ _ (by simp)
            (by simp [Operation.opens]) (by simp [Operation.Connects]) (fun _ => rfl)
            (by simp [handle])
      | _ => cases h
  | api c =>
      cases op with
      | connectApi sockfd =>
          obtain rfl := Option.some.inj h
          cases sockfd with
          | none =>
              exact @StartOutcome.refused _ _ _ _ _ [] (by simp) rfl (Or.inl trivial)
                (by simp [handle])
          | some fd =>
              have hfd : fd ≠ -1 := by
                have hle : 0 ≤ fd := hopens fd rfl
                omega
              simp only [Option.getD_some, APIconnection.connectApi, if_neg hfd]
              refine @StartOutcome.tracked _ _ _ _ (.api _) [] _ _ (by simp) ?_ (fun _ => rfl)
                (fun hn => absurd trivial hn) (by simp [handle])
              rintro fd' ⟨⟩
              rfl
      | sendRequest =>
          obtain rfl := Option.some.inj h
          exact @StartOutcome.tracked _ _ _ _ (.api _) [] _ _ (by simp)
            (by simp [Operation.opens]) (by simp [Operation.Connects]) (fun _ => rfl)
            (by simp [handle])
      | _ => cases h
  | db c =>
      cases op with
      | connectDb conninfo socket =>
          obtain rfl := Option.some.inj h
          cases socket with
          | none =>
              refine @StartOutcome.refused _ _ _ _ (.db _) [.pq (.connectStart conninfo false)]
                (by simp [Effect.IsCall]) rfl (Or.inl trivial) ?_
              rintro fd conn ⟨⟩
              exact ⟨c.conn, rfl, Or.inl rfl⟩
          | some fd =>
              refine @StartOutcome.tracked _ _ _ _ (.db _) [.pq (.connectStart conninfo true)] _ _
                (by simp [Effect.IsCall]) ?_ (fun _ => rfl) (fun hn => absurd trivial hn) ?_
              · rintro fd' ⟨⟩
                rfl
              · rintro fd' fd'' ⟨⟩
                exact Or.inl rfl
      | sendQuery query a =>
          obtain rfl := Option.some.inj h
          have ho : Dbconnection.SendOutcome c query a _ := Dbconnection.sendQuery_outcome hdoc
          generalize c.sendQuery query a = r at ho ⊢
          cases ho with
          | refused =>
              exact @StartOutcome.refused _ _ _ _ (.db _) [.pq (.sendQuery query 0)]
                (by simp [Effect.IsCall]) rfl (Or.inr ⟨rfl, _, _, rfl⟩)
                fun _ _ h => ⟨_, h, Or.inr rfl⟩
          | unsent =>
              exact @StartOutcome.refused _ _ _ _ (.db _)
                [.pq (.sendQuery query a.sendQuery), .pq (.flush (-1))]
                (by simp [Effect.IsCall]) rfl (Or.inr ⟨rfl, _, _, rfl⟩)
                fun _ _ h => ⟨_, h, Or.inr rfl⟩
          | tracked =>
              exact @StartOutcome.tracked _ _ _ _ (.db _)
                [.pq (.sendQuery query a.sendQuery), .pq (.flush a.flush)] _ _
                (by simp [Effect.IsCall]) (by simp [Operation.opens])
                (by simp [Operation.Connects]) (fun _ => rfl) fun _ _ h => Or.inr h
      | _ => cases h

end Connection

/-! ## The invariant -/

namespace Process

variable {s : Process Lq Lr} {obj op : ℕ} {fd : ℤ}

/-- What a changed table holds. -/
theorem update_cases {β : Type*} {f : ℕ → Option β} {a x : ℕ} {v : Option β} {y : β}
    (h : Function.update f a v x = some y) : x = a ∧ v = some y ∨ x ≠ a ∧ f x = some y := by
  by_cases hx : x = a
  · subst hx
    exact Or.inl ⟨rfl, (Function.update_self x v f).symm.trans h⟩
  · exact Or.inr ⟨hx, (Function.update_of_ne hx v f).symm.trans h⟩

/-- A `Dbconnection`'s own socket is not under the listening server's function. -/
def Clean (s : Process Lq Lr) (obj : ℕ) : Prop :=
  ∀ c fd conn, s.heap obj = some c → c.handle = .db fd conn → s.owner fd = .object obj →
    s.callback fd ≠ some .accept

/-- The invariant, `Clean` apart. -/
structure Wired (s : Process Lq Lr) : Prop where
  law : s.OneCallback
  handler : ∀ fd obj op, s.callback fd = some (.handler obj op) →
    s.pending obj = some ⟨op, some fd⟩ ∧ s.owner fd = .object obj
  interest : ∀ fd ∈ s.interest,
    (∃ obj op, s.callback fd = some (.handler obj op)) ∨ s.owner fd = .server
  object : ∀ obj p, s.pending obj = some p → ∃ c, s.heap obj = some c ∧ p.socket = some c.socket
  uncalled : ∀ obj p, s.pending obj = some p → p.op < s.started ∧ s.calls p.op = 0
  op_inj : ∀ obj obj' p p', s.pending obj = some p → s.pending obj' = some p' → p.op = p'.op →
    obj = obj'
  future : ∀ op, s.started ≤ op → s.calls op = 0
  obj_lt : ∀ obj c, s.heap obj = some c → obj < s.allocated
  owner_lt : ∀ fd obj, s.owner fd = .object obj → obj < s.allocated
  conn : ∀ obj c fd fd', s.heap obj = some c → c.handle = .db fd (some fd') → fd' = fd

structure Consistent (s : Process Lq Lr) : Prop extends Wired s where
  clean : ∀ obj, s.Clean obj

/-- The law only looks at the reactor, the operations and the log. -/
theorem OneCallback.congr {t : Process Lq Lr} (h : s.OneCallback) (hrun : t.run = s.run)
    (hp : t.pending = s.pending) (hl : t.log = s.log) : t.OneCallback := by
  cases t
  cases s
  subst hrun hp hl
  exact ⟨h.once, h.unregistered, h.tracked, h.outstanding⟩

/-- `isAlive` and the place in the user's code do not matter to the invariant. -/
theorem Consistent.congr {t : Process Lq Lr} (h : s.Consistent) (hrun : t.run = s.run)
    (hheap : t.heap = s.heap) (howner : t.owner = s.owner) (hallocated : t.allocated = s.allocated)
    (hstarted : t.started = s.started) (hp : t.pending = s.pending) (hl : t.log = s.log) :
    t.Consistent := by
  have hlaw := h.law.congr hrun hp hl
  cases t
  cases s
  subst hrun hheap howner hallocated hstarted hp hl
  exact ⟨⟨hlaw, h.handler, h.interest, h.object, h.uncalled, h.op_inj, h.future, h.obj_lt,
    h.owner_lt, h.conn⟩, h.clean⟩

theorem Wired.handler_interest (h : s.Wired) (hcb : s.callback fd = some (.handler obj op)) :
    fd ∈ s.interest := by
  obtain ⟨fd', hfd, hi, -⟩ := h.law.tracked obj _ (h.handler fd obj op hcb).1
  obtain rfl : fd = fd' := Option.some.inj hfd
  exact hi

theorem interest_open (s : Process Lq Lr) : s.interest ⊆ s.openFds := s.run.ioc.kernel.interest_open

/-- Nothing is registered for a closed descriptor, the listening server's function perhaps apart. -/
theorem Wired.not_handler (h : s.Wired) (hfd : fd ∉ s.openFds) :
    s.callback fd ≠ some (.handler obj op) :=
  fun hcb => hfd (s.interest_open (h.handler_interest hcb))

/-- Nor for a socket whose object has no operation outstanding. -/
theorem Wired.idle_socket (h : s.Wired) (howner : s.owner fd = .object obj)
    (hp : s.pending obj = none) :
    fd ∉ s.interest ∧ ∀ obj' op, s.callback fd ≠ some (.handler obj' op) := by
  have hno (obj' op : ℕ) : s.callback fd ≠ some (.handler obj' op) := by
    intro hcb
    obtain ⟨hp', howner'⟩ := h.handler fd obj' op hcb
    obtain rfl : obj = obj' := by simpa [howner] using howner'
    exact absurd (hp.symm.trans hp') (by simp)
  refine ⟨fun hi => ?_, hno⟩
  rcases h.interest fd hi with ⟨obj', op, hcb⟩ | hserver
  · exact hno obj' op hcb
  · exact absurd (howner.symm.trans hserver) (by simp)

/-! ## Changes to the reactor alone -/

/-- `run` differs from the process's reactor in nothing that concerns an operation. -/
structure Rewired (s : Process Lq Lr) (run : RunState Closure) : Prop where
  callback : ∀ fd x, run.ioc.eventCallback.get fd = some x →
    s.callback fd = some x ∨ x = .accept ∧ s.owner fd = .server
  keep : ∀ fd obj op, s.callback fd = some (.handler obj op) →
    run.ioc.eventCallback.get fd = some (.handler obj op)
  cover : ∀ fd obj op, s.callback fd = some (.handler obj op) → fd ∈ s.interest →
    fd ∈ run.ioc.kernel.interest.keys
  interest : ∀ fd ∈ run.ioc.kernel.interest.keys, fd ∈ s.interest ∨ s.owner fd = .server

theorem Consistent.rewire {run : RunState Closure} (h : s.Consistent) (hr : s.Rewired run) :
    Consistent { s with run := run } where
  law :=
    { once := h.law.once
      unregistered := h.law.unregistered
      tracked := by
        intro obj p hp
        obtain ⟨fd, hfd, hi, hcb⟩ := h.law.tracked obj p hp
        exact ⟨fd, hfd, hr.cover fd obj p.op hcb hi, hr.keep fd obj p.op hcb⟩
      outstanding := h.law.outstanding }
  handler := by
    intro fd obj op hcb
    rcases hr.callback fd _ hcb with hcb | ⟨hne, -⟩
    · exact h.handler fd obj op hcb
    · exact absurd hne (by simp)
  interest := by
    intro fd hi
    rcases hr.interest fd hi with hi | hserver
    · rcases h.interest fd hi with ⟨obj, op, hcb⟩ | hserver
      · exact Or.inl ⟨obj, op, hr.keep fd obj op hcb⟩
      · exact Or.inr hserver
    · exact Or.inr hserver
  object := h.object
  uncalled := h.uncalled
  op_inj := h.op_inj
  future := h.future
  obj_lt := h.obj_lt
  owner_lt := h.owner_lt
  conn := h.conn
  clean := by
    intro obj c fd conn hc hdb howner hcb
    rcases hr.callback fd _ hcb with hcb | ⟨-, hserver⟩
    · exact h.clean obj c fd conn hc hdb howner hcb
    · exact absurd (howner.symm.trans hserver) (by simp)

/-- A step that leaves the callback map and the kernel alone. -/
theorem Rewired.of_eq {run : RunState Closure}
    (hcb : run.ioc.eventCallback = s.run.ioc.eventCallback)
    (hk : run.ioc.kernel = s.run.ioc.kernel) : s.Rewired run where
  callback fd x h := Or.inl (by rwa [hcb] at h)
  keep fd obj op h := by rwa [hcb]
  cover fd obj op _ hi := by rwa [hk]
  interest fd hi := Or.inl (by rwa [hk] at hi)

theorem loop_ioc {κ : Type} {s t : RunState κ} {l : Label κ} (hl : l.IsLoop = true)
    (ho : s.Outcome l t) :
    t.ioc.eventCallback = s.ioc.eventCallback ∧ t.ioc.kernel = s.ioc.kernel := by
  cases ho with
  | dispatch | act => exact absurd hl (by simp [Label.IsLoop])
  | _ => exact ⟨rfl, rfl⟩

theorem Rewired.openFd (fd : ℤ) : s.Rewired (s.run.act (.openFd fd)) :=
  ⟨fun _ _ h => Or.inl h, fun _ _ _ h => h, fun _ _ _ _ h => h, fun _ h => Or.inl h⟩

/-- Taking something off the reactor that is no handler. -/
theorem Rewired.removes {a : Action Closure} (ha : a = .removeTrack fd ∨ a = .closeFd fd)
    (hfd : ∀ obj op, s.callback fd ≠ some (.handler obj op)) : s.Rewired (s.run.act a) := by
  have hcb (fd' : ℤ) : (s.run.act a).ioc.eventCallback.get fd' = s.callback fd' ∨
      fd' = fd ∧ (s.run.act a).ioc.eventCallback.get fd' = none := by
    rcases ha with rfl | rfl
    · by_cases heq : fd' = fd
      · exact Or.inr ⟨heq, heq ▸ ThreadSafeMap.get_remove_self⟩
      · exact Or.inl (ThreadSafeMap.get_remove_of_ne heq)
    · exact Or.inl rfl
  have hi : (s.run.act a).ioc.kernel.interest.keys = s.interest.erase fd := by
    rcases ha with rfl | rfl
    · exact Kernel.removeEpollInterest_keys
    · exact Kernel.closeConnection_keys
  constructor
  · intro fd' x h
    rcases hcb fd' with heq | ⟨-, hnone⟩
    · exact Or.inl (heq ▸ h)
    · exact absurd (hnone.symm.trans h) (by simp)
  · intro fd' obj op h
    rcases hcb fd' with heq | ⟨rfl, -⟩
    · exact heq.trans h
    · exact absurd h (hfd obj op)
  · intro fd' obj op h hin
    rw [hi, Finset.mem_erase]
    exact ⟨by rintro rfl; exact hfd obj op h, hin⟩
  · intro fd' hin
    rw [hi] at hin
    exact Or.inl (Finset.mem_of_mem_erase hin)

/-- The listening server's own registration. -/
theorem Rewired.listen (howner : s.owner fd = .server)
    (hfd : ∀ obj op, s.callback fd ≠ some (.handler obj op)) (granted : Bool) :
    s.Rewired (s.run.act (.asyncAccept fd .accept granted)) := by
  have heq : (s.run.act (.asyncAccept fd .accept granted)).ioc =
      (s.run.ioc.addTrack fd epollIn .listenSock .accept granted).1 := rfl
  rcases s.run.ioc.addTrack_cases fd epollIn .listenSock .accept granted with
    hsame | ⟨-, k, hk, -, hnew⟩
  · rw [hsame] at heq
    exact .of_eq (by rw [heq]) (by rw [heq])
  rw [hnew] at heq
  have hget (fd' : ℤ) : (s.run.act (.asyncAccept fd .accept granted)).ioc.eventCallback.get fd' =
      if fd' = fd then some .accept else s.callback fd' := by
    rw [heq]
    exact ThreadSafeMap.get_insert
  have hi (fd' : ℤ) :
      fd' ∈ (s.run.act (.asyncAccept fd .accept granted)).ioc.kernel.interest.keys ↔
        fd' = fd ∨ fd' ∈ s.interest := by
    rw [heq, IOReactor.record, hk]
    exact Kernel.mem_keys_insert
  constructor
  · intro fd' x h
    rw [hget] at h
    split at h
    · next hfd' => exact Or.inr ⟨(Option.some.inj h).symm, hfd' ▸ howner⟩
    · exact Or.inl h
  · intro fd' obj op h
    rw [hget, if_neg (by rintro rfl; exact hfd obj op h)]
    exact h
  · intro fd' _ _ _ hin
    exact (hi fd').2 (Or.inr hin)
  · intro fd' hin
    rcases (hi fd').1 hin with rfl | hin
    · exact Or.inr howner
    · exact Or.inl hin

/-- Rearming the socket of an outstanding operation for that operation. -/
theorem Rewired.modifyTrack (hcb : s.callback fd = some (.handler obj op)) (mask : EventMask)
    (priority : EventPriority) (granted : Bool) :
    s.Rewired (s.run.act (.modifyTrack fd mask priority (.handler obj op) granted)) := by
  have heq : (s.run.act (.modifyTrack fd mask priority (.handler obj op) granted)).ioc =
      (s.run.ioc.modifyTrack fd mask priority (.handler obj op) granted).1 := rfl
  rcases s.run.ioc.modifyTrack_cases fd mask priority (.handler obj op) granted with
    hsame | ⟨hin, k, hk, -, hnew⟩
  · rw [hsame] at heq
    exact .of_eq (by rw [heq]) (by rw [heq])
  rw [hnew] at heq
  have hget (fd' : ℤ) :
      (s.run.act (.modifyTrack fd mask priority (.handler obj op) granted)).ioc.eventCallback.get
        fd' = s.callback fd' := by
    rw [heq, IOReactor.record, ThreadSafeMap.get_insert]
    split
    · next hfd => rw [hfd, hcb]
    · rfl
  have hi (fd' : ℤ) : fd' ∈
      (s.run.act
          (.modifyTrack fd mask priority (.handler obj op) granted)).ioc.kernel.interest.keys ↔
        fd' = fd ∨ fd' ∈ s.interest := by
    rw [heq, IOReactor.record, hk]
    exact Kernel.mem_keys_insert
  constructor
  · intro fd' x h
    exact Or.inl ((hget fd').symm.trans h)
  · intro fd' obj op h
    exact (hget fd').trans h
  · intro fd' _ _ _ h
    exact (hi fd').2 (Or.inr h)
  · intro fd' h
    rcases (hi fd').1 h with rfl | h
    · exact Or.inl hin
    · exact Or.inl h

/-! ## Descriptors and objects come and go -/

theorem Consistent.openFd (h : s.Consistent) (hfd : fd ∉ s.openFds) (owner : Owner)
    (howner : ∀ obj, owner = .object obj → obj < s.allocated) :
    (s.openFd fd owner).Wired ∧ ∀ obj, owner ≠ .object obj → (s.openFd fd owner).Clean obj := by
  have h' := h.rewire (.openFd fd)
  have hother {fd' : ℤ} (hne : fd' ≠ fd) : (s.openFd fd owner).owner fd' = s.owner fd' :=
    Function.update_of_ne hne _ _
  have hself : (s.openFd fd owner).owner fd = owner := Function.update_self _ _ _
  refine ⟨⟨h'.law.congr rfl rfl rfl, ?_, ?_, h'.object, h'.uncalled, h'.op_inj, h'.future,
    h'.obj_lt, ?_, h'.conn⟩, ?_⟩
  · intro fd' obj op hcb
    have hne : fd' ≠ fd := by
      rintro rfl
      exact h.not_handler hfd hcb
    exact ⟨(h.handler fd' obj op hcb).1, (hother hne).trans (h.handler fd' obj op hcb).2⟩
  · intro fd' hi
    have hne : fd' ≠ fd := by
      rintro rfl
      exact hfd (s.interest_open hi)
    exact (h.interest fd' hi).imp_right (hother hne).trans
  · intro fd' obj hobj
    by_cases heq : fd' = fd
    · subst heq
      exact howner obj (hself.symm.trans hobj)
    · exact h.owner_lt fd' obj ((hother heq).symm.trans hobj)
  · intro obj hne c fd' conn hc hdb hobj
    by_cases heq : fd' = fd
    · subst heq
      exact absurd (hself.symm.trans hobj) hne
    · exact h.clean obj c fd' conn hc hdb ((hother heq).symm.trans hobj)

/-- Descriptors opened for nobody's object. -/
theorem Consistent.openFd_other (h : s.Consistent) (hfd : fd ∉ s.openFds) {owner : Owner}
    (howner : ∀ obj, owner ≠ .object obj) : (s.openFd fd owner).Consistent := by
  obtain ⟨hw, hclean⟩ := h.openFd hfd owner fun obj hobj => absurd hobj (howner obj)
  exact { hw with clean := fun obj => hclean obj (howner obj) }

theorem Consistent.allocate (h : s.Consistent) {c : Connection Lq Lr}
    (hconn : ∀ fd fd', c.handle = .db fd (some fd') → fd' = fd) : (s.allocate c).Consistent := by
  have hother {obj : ℕ} (hlt : obj < s.allocated) : (s.allocate c).heap obj = s.heap obj :=
    Function.update_of_ne hlt.ne _ _
  refine ⟨⟨h.law.congr rfl rfl rfl, h.handler, h.interest, ?_, h.uncalled, h.op_inj, h.future,
    ?_, ?_, ?_⟩, ?_⟩
  · intro obj p hp
    obtain ⟨c', hc', hsocket⟩ := h.object obj p hp
    exact ⟨c', (hother (h.obj_lt obj c' hc')).trans hc', hsocket⟩
  · intro obj c' hc'
    rcases update_cases hc' with ⟨rfl, -⟩ | ⟨-, hc'⟩
    · exact Nat.lt_succ_self _
    · exact (h.obj_lt obj c' hc').trans (Nat.lt_succ_self _)
  · intro fd obj hobj
    exact (h.owner_lt fd obj hobj).trans (Nat.lt_succ_self _)
  · intro obj c' fd fd' hc' hdb
    rcases update_cases hc' with ⟨-, ⟨⟩⟩ | ⟨-, hc'⟩
    · exact hconn fd fd' hdb
    · exact h.conn obj c' fd fd' hc' hdb
  · intro obj c' fd conn hc' hdb howner
    rcases update_cases hc' with ⟨rfl, -⟩ | ⟨-, hc'⟩
    · exact absurd (h.owner_lt fd _ howner) (lt_irrefl _)
    · exact h.clean obj c' fd conn hc' hdb howner

/-- An object changes; the socket of an outstanding operation does not. -/
theorem Wired.set_object (h : s.Wired) {c c' : Connection Lq Lr} (hc : s.heap obj = some c)
    (hsocket : s.pending obj = none ∨ c'.socket = c.socket)
    (hconn : ∀ fd fd', c'.handle = .db fd (some fd') → fd' = fd) :
    Wired { s with heap := Function.update s.heap obj (some c') } := by
  refine ⟨h.law.congr rfl rfl rfl, h.handler, h.interest, ?_, h.uncalled, h.op_inj, h.future,
    ?_, h.owner_lt, ?_⟩
  · intro o p hp
    obtain ⟨x, hx, hpx⟩ := h.object o p hp
    by_cases heq : o = obj
    · subst heq
      obtain rfl := Option.some.inj (hc.symm.trans hx)
      have hsame : c'.socket = c.socket :=
        hsocket.resolve_left fun hnone => absurd (hnone.symm.trans hp) (by simp)
      exact ⟨c', Function.update_self _ _ _, hpx.trans (congrArg some hsame.symm)⟩
    · exact ⟨x, (Function.update_of_ne heq _ _).trans hx, hpx⟩
  · intro o x hx
    rcases update_cases hx with ⟨rfl, -⟩ | ⟨-, hx⟩
    · exact h.obj_lt o c hc
    · exact h.obj_lt o x hx
  · intro o x fd fd' hx hdb
    rcases update_cases hx with ⟨-, ⟨⟩⟩ | ⟨-, hx⟩
    · exact hconn fd fd' hdb
    · exact h.conn o x fd fd' hx hdb

/-- A `Dbconnection` that changes keeps its socket, and has its old `PGconn` or none. -/
theorem Consistent.set_object (h : s.Consistent) {c c' : Connection Lq Lr}
    (hc : s.heap obj = some c) (hsocket : s.pending obj = none ∨ c'.socket = c.socket)
    (hdb : ∀ fd conn, c'.handle = .db fd conn →
      ∃ conn', c.handle = .db fd conn' ∧ (conn = none ∨ conn = conn')) :
    Consistent { s with heap := Function.update s.heap obj (some c') } := by
  refine ⟨h.toWired.set_object hc hsocket ?_, ?_⟩
  · intro fd fd' hfd
    obtain ⟨conn', hold, hnone | rfl⟩ := hdb fd _ hfd
    · exact absurd hnone (by simp)
    · exact h.conn obj c fd fd' hc hold
  · intro o x fd conn hx hfd howner
    rcases update_cases hx with ⟨rfl, ⟨⟩⟩ | ⟨-, hx⟩
    · obtain ⟨conn', hold, -⟩ := hdb fd conn hfd
      exact h.clean o c fd conn' hc hold howner
    · exact h.clean o x fd conn hx hfd howner

/-- An object changes, but not its handle. -/
theorem Consistent.keep_handle (h : s.Consistent) {c c' : Connection Lq Lr}
    (hc : s.heap obj = some c) (hhandle : c'.handle = c.handle) :
    Consistent { s with heap := Function.update s.heap obj (some c') } := by
  refine h.set_object hc (Or.inr ?_) fun fd conn hfd => ⟨conn, hhandle.symm.trans hfd, Or.inr rfl⟩
  rw [Connection.socket, Connection.socket, hhandle]

/-- An object without an operation outstanding goes. -/
theorem Consistent.drop (h : s.Consistent) (hp : s.pending obj = none) (isAlive : IsAlive) :
    Consistent { s with heap := Function.update s.heap obj none, isAlive := isAlive } := by
  have hold {o : ℕ} {x : Connection Lq Lr} (hx : Function.update s.heap obj none o = some x) :
      s.heap o = some x := by
    rcases update_cases hx with ⟨-, ⟨⟩⟩ | ⟨-, hx⟩
    exact hx
  refine ⟨⟨h.law.congr rfl rfl rfl, h.handler, h.interest, ?_, h.uncalled, h.op_inj, h.future,
    ?_, h.owner_lt, ?_⟩, ?_⟩
  · intro o p hpo
    obtain ⟨x, hx, hsocket⟩ := h.object o p hpo
    have hne : o ≠ obj := by
      rintro rfl
      exact absurd (hp.symm.trans hpo) (by simp)
    exact ⟨x, (Function.update_of_ne hne _ _).trans hx, hsocket⟩
  · intro o x hx
    exact h.obj_lt o x (hold hx)
  · intro o x fd fd' hx
    exact h.conn o x fd fd' (hold hx)
  · intro o x fd conn hx
    exact h.clean o x fd conn (hold hx)

/-- The entry for a handler that runs for an outstanding operation. -/
theorem Consistent.log_handled (h : s.Consistent) :
    Consistent { s with log := .handled obj op true :: s.log } where
  law :=
    { once := h.law.once
      unregistered := fun op' registered hmem =>
        h.law.unregistered op' registered ((List.mem_cons.1 hmem).resolve_left (by simp))
      tracked := h.law.tracked
      outstanding := by
        intro obj' op' outstanding hmem
        rcases List.mem_cons.1 hmem with heq | hmem
        · exact (OpEntry.handled.inj heq).2.2
        · exact h.law.outstanding obj' op' outstanding hmem }
  handler := h.handler
  interest := h.interest
  object := h.object
  uncalled := h.uncalled
  op_inj := h.op_inj
  future := h.future
  obj_lt := h.obj_lt
  owner_lt := h.owner_lt
  conn := h.conn
  clean := h.clean

/-! ## Starting an operation -/

theorem perform_call {e : Effect} (he : e.IsCall) : s.perform obj op e = s := by
  cases e with
  | pq call => cases call <;> first | rfl | exact absurd he id
  | recv _ | send _ _ => rfl
  | _ => exact absurd he id

theorem foldl_calls {effs : List Effect} (h : ∀ e ∈ effs, e.IsCall) :
    effs.foldl (perform obj op) s = s := by
  induction effs with
  | nil => rfl
  | cons e effs ih =>
      obtain ⟨he, hrest⟩ := List.forall_mem_cons.1 h
      rw [List.foldl_cons, perform_call he, ih hrest]

/-- `addTrack` on an open descriptor that epoll does not know yet. -/
theorem perform_addTrack (hopen : fd ∈ s.openFds) (hidle : fd ∉ s.interest) (mask : EventMask)
    (priority : EventPriority) :
    (∀ fd', (s.perform obj op (.addTrack fd mask priority)).callback fd' =
      if fd' = fd then some (.handler obj op) else s.callback fd') ∧
    ∀ fd', fd' ∈ (s.perform obj op (.addTrack fd mask priority)).interest ↔
      fd' = fd ∨ fd' ∈ s.interest := by
  obtain ⟨k, hk, hioc⟩ := IOReactor.addTrack_granted hopen hidle mask priority (.handler obj op)
  have hrun : (s.perform obj op (.addTrack fd mask priority)).run.ioc =
      s.run.ioc.record k fd priority (.handler obj op) := hioc
  constructor
  · intro fd'
    rw [callback, hrun]
    exact ThreadSafeMap.get_insert
  · intro fd'
    show fd' ∈ (s.perform obj op (.addTrack fd mask priority)).run.ioc.kernel.interest.keys ↔ _
    rw [hrun, IOReactor.record, hk]
    exact Kernel.mem_keys_insert

/-- `removeTrack`. -/
theorem perform_removeTrack :
    (∀ fd', (s.perform obj op (.removeTrack fd)).callback fd' =
      if fd' = fd then none else s.callback fd') ∧
    (s.perform obj op (.removeTrack fd)).interest = s.interest.erase fd :=
  ⟨fun _ => ThreadSafeMap.get_remove, Kernel.removeEpollInterest_keys⟩

/-- **An operation is registered** under its object's own open socket. -/
theorem Wired.track (h : s.Wired) (hclean : ∀ o, o ≠ obj → s.Clean o) {c : Connection Lq Lr}
    (hc : s.heap obj = some c) (hp : s.pending obj = none)
    (howner : s.owner c.socket = .object obj) (hopen : c.socket ∈ s.openFds) (mask : EventMask)
    (priority : EventPriority) :
    Consistent (perform obj s.started
      { s with
        pending := Function.update s.pending obj (some ⟨s.started, some c.socket⟩)
        started := s.started + 1 }
      (.addTrack c.socket mask priority)) := by
  obtain ⟨hidle, hno⟩ := h.idle_socket howner hp
  set m : Process Lq Lr :=
    { s with
      pending := Function.update s.pending obj (some ⟨s.started, some c.socket⟩)
      started := s.started + 1 }
  set t := perform obj s.started m (.addTrack c.socket mask priority)
  have hpself : t.pending obj = some ⟨s.started, some c.socket⟩ := Function.update_self _ _ _
  obtain ⟨hcb, hi⟩ : (∀ fd, t.callback fd =
      if fd = c.socket then some (.handler obj s.started) else s.callback fd) ∧
      ∀ fd, fd ∈ t.interest ↔ fd = c.socket ∨ fd ∈ s.interest :=
    perform_addTrack hopen hidle mask priority
  have hcbold {fd : ℤ} {o n : ℕ} (hold : s.callback fd = some (.handler o n)) :
      t.callback fd = some (.handler o n) := by
    rw [hcb, if_neg]
    · exact hold
    · rintro rfl
      exact hno o n hold
  refine ⟨⟨⟨h.law.once, h.law.unregistered, ?_, h.law.outstanding⟩, ?_, ?_, ?_, ?_, ?_, ?_,
    h.obj_lt, h.owner_lt, h.conn⟩, ?_⟩
  · intro o p hpo
    rcases update_cases hpo with ⟨rfl, ⟨⟩⟩ | ⟨-, hpo⟩
    · exact ⟨_, rfl, (hi _).2 (Or.inl rfl), by rw [hcb, if_pos rfl]⟩
    · obtain ⟨fd, hfd, hin, hold⟩ := h.law.tracked o p hpo
      exact ⟨fd, hfd, (hi fd).2 (Or.inr hin), hcbold hold⟩
  · intro fd o n hnew
    rw [hcb] at hnew
    split at hnew
    · next hfd =>
        obtain ⟨rfl, rfl⟩ := Closure.handler.inj (Option.some.inj hnew)
        exact ⟨by rw [hpself, hfd], hfd ▸ howner⟩
    · obtain ⟨hpo, ho⟩ := h.handler fd o n hnew
      have hne : o ≠ obj := by
        rintro rfl
        exact absurd (hp.symm.trans hpo) (by simp)
      exact ⟨(Function.update_of_ne hne _ _).trans hpo, ho⟩
  · intro fd hin
    rcases (hi fd).1 hin with rfl | hin
    · exact Or.inl ⟨obj, s.started, by rw [hcb, if_pos rfl]⟩
    · rcases h.interest fd hin with ⟨o, n, hold⟩ | hserver
      · exact Or.inl ⟨o, n, hcbold hold⟩
      · exact Or.inr hserver
  · intro o p hpo
    rcases update_cases hpo with ⟨rfl, ⟨⟩⟩ | ⟨-, hpo⟩
    · exact ⟨c, hc, rfl⟩
    · exact h.object o p hpo
  · intro o p hpo
    rcases update_cases hpo with ⟨-, ⟨⟩⟩ | ⟨-, hpo⟩
    · exact ⟨Nat.lt_succ_self _, h.future _ le_rfl⟩
    · exact ⟨(h.uncalled o p hpo).1.trans (Nat.lt_succ_self _), (h.uncalled o p hpo).2⟩
  · intro o o' p p' hpo hpo' heq
    rcases update_cases hpo with ⟨rfl, ⟨⟩⟩ | ⟨-, hold⟩ <;>
      rcases update_cases hpo' with ⟨rfl, ⟨⟩⟩ | ⟨-, hold'⟩
    · rfl
    · exact absurd heq.symm (h.uncalled o' p' hold').1.ne
    · exact absurd heq (h.uncalled o p hold).1.ne
    · exact h.op_inj o o' p p' hold hold' heq
  · intro n hn
    exact h.future n (Nat.le_of_succ_le hn)
  · intro o x fd conn hx hdb ho'
    rw [hcb]
    split
    · simp
    next hfd =>
    by_cases ho : o = obj
    · subst ho
      obtain rfl := Option.some.inj (hc.symm.trans hx)
      exact absurd (by rw [Connection.socket, hdb]; rfl) hfd
    · exact hclean o ho x fd conn hx hdb ho'

/-- The object an operation is registered for may have changed first. -/
theorem Wired.start_tracked (h : s.Wired) (hclean : ∀ o, o ≠ obj → s.Clean o)
    {c c' : Connection Lq Lr} (hc : s.heap obj = some c) (hp : s.pending obj = none)
    (howner : s.owner c'.socket = .object obj) (hopen : c'.socket ∈ s.openFds)
    (hconn : ∀ fd fd', c'.handle = .db fd (some fd') → fd' = fd) (mask : EventMask)
    (priority : EventPriority) :
    Consistent (perform obj s.started
      { s with
        heap := Function.update s.heap obj (some c')
        pending := Function.update s.pending obj (some ⟨s.started, some c'.socket⟩)
        started := s.started + 1 }
      (.addTrack c'.socket mask priority)) := by
  refine (h.set_object hc (Or.inl hp) hconn).track ?_ (Function.update_self _ _ _) hp howner hopen
    mask priority
  intro o ho x fd conn hx
  exact hclean o ho x fd conn ((Function.update_of_ne ho _ _).symm.trans hx)

/-! ## The callback -/

theorem calls_call (n : ℕ) : (s.call obj op).calls n = s.calls n + if op = n then 1 else 0 := by
  rw [calls, call, List.countP_cons]
  by_cases hn : op = n <;> simp [OpEntry.IsCallOf, hn, calls]

/-- The socket of the operation is not registered any more. -/
theorem registered_eq_false {socket : Option ℤ} (hp : s.pending obj = some ⟨op, socket⟩)
    (hsocket : ∀ fd ∈ socket, fd ∉ s.interest ∧ s.callback fd = none) :
    s.registered obj = false := by
  rw [registered, hp]
  cases socket with
  | none => rfl
  | some fd =>
      obtain ⟨hi, hcb⟩ := hsocket fd rfl
      simp only [Option.any_some, decide_eq_false_iff_not, not_or]
      exact ⟨hi, ThreadSafeMap.get_eq_none_iff.1 hcb⟩

/-- A first call, with the socket no longer registered, keeps the law; `m` is `s` with the reactor
    and the operations changed. -/
theorem OneCallback.call {m : Process Lq Lr} (h : s.OneCallback) (hlog : m.log = s.log)
    (hzero : s.calls op = 0) (hflag : m.registered obj = false)
    (htracked : ∀ o p, (m.call obj op).pending o = some p →
      ∃ fd ∈ p.socket, fd ∈ m.interest ∧ m.callback fd = some (.handler o p.op)) :
    (m.call obj op).OneCallback where
  once n := by
    have hcalls : m.calls n = s.calls n := congrArg (List.countP (OpEntry.IsCallOf n)) hlog
    rw [calls_call, hcalls]
    split
    · next hn => rw [← hn, hzero]
    · exact h.once n
  unregistered n registered hmem := by
    rcases List.mem_cons.1 hmem with heq | hmem
    · exact (OpEntry.called.inj heq).2.trans hflag
    · exact h.unregistered n registered (hlog ▸ hmem)
  tracked := htracked
  outstanding o n outstanding hmem :=
    h.outstanding o n outstanding (hlog ▸ (List.mem_cons.1 hmem).resolve_left (by simp))

/-- **An operation is refused** by calling back at once; its socket, if any, is not registered. -/
theorem Consistent.refuse (h : s.Consistent) (hp : s.pending obj = none) {socket : Option ℤ}
    (hsocket : ∀ fd ∈ socket, fd ∉ s.interest ∧ s.callback fd = none) :
    Consistent (call
      { s with
        pending := Function.update s.pending obj (some ⟨s.started, socket⟩)
        started := s.started + 1 } obj s.started) := by
  set m : Process Lq Lr :=
    { s with
      pending := Function.update s.pending obj (some ⟨s.started, socket⟩)
      started := s.started + 1 }
  have hflag : m.registered obj = false :=
    registered_eq_false (Function.update_self _ _ _) hsocket
  have hpending : (m.call obj s.started).pending = s.pending := by
    show Function.update (Function.update s.pending obj _) obj none = s.pending
    rw [Function.update_idem, ← hp, Function.update_eq_self]
  have hcalls (n : ℕ) : (m.call obj s.started).calls n =
      s.calls n + if s.started = n then 1 else 0 := calls_call n
  refine ⟨⟨h.law.call rfl (h.future _ le_rfl) hflag ?_, ?_, h.interest, ?_, ?_, ?_, ?_, h.obj_lt,
    h.owner_lt, h.conn⟩, h.clean⟩
  · intro o p hpo
    rw [hpending] at hpo
    exact h.law.tracked o p hpo
  · intro fd o n hcb
    rw [hpending]
    exact h.handler fd o n hcb
  · intro o p hpo
    rw [hpending] at hpo
    exact h.object o p hpo
  · intro o p hpo
    rw [hpending] at hpo
    obtain ⟨hlt, hzero⟩ := h.uncalled o p hpo
    refine ⟨hlt.trans (Nat.lt_succ_self _), ?_⟩
    rw [hcalls, hzero, if_neg hlt.ne']
  · intro o o' p p' hpo hpo'
    rw [hpending] at hpo hpo'
    exact h.op_inj o o' p p' hpo hpo'
  · intro n hn
    have hlt : s.started < n := hn
    rw [hcalls, h.future n hlt.le, if_neg hlt.ne]

/-! ## Handlers -/

/-- **A handler leaves its operation waiting**: it does no more to the reactor than rearm. -/
theorem Consistent.foldl_quiet (h : s.Consistent) (hcb : s.callback fd = some (.handler obj op))
    {effs : List Effect} (hq : ∀ e ∈ effs, e.Quiet fd) :
    ∃ run : RunState Closure, effs.foldl (perform obj op) s = { s with run := run } ∧
      Consistent { s with run := run } ∧
      run.ioc.eventCallback.get fd = some (.handler obj op) := by
  induction effs generalizing s with
  | nil => exact ⟨s.run, rfl, h, hcb⟩
  | cons e effs ih =>
      obtain ⟨he, hrest⟩ := List.forall_mem_cons.1 hq
      rw [List.foldl_cons]
      cases e with
      | modifyTrack fd' mask priority =>
          obtain rfl : fd' = fd := he
          have hr := Rewired.modifyTrack hcb mask priority true
          obtain ⟨run, hrun, hcons, hget⟩ := ih (h.rewire hr) (hr.keep _ _ _ hcb) hrest
          exact ⟨run, hrun, hcons, hget⟩
      | pq call =>
          have hcall : (Effect.pq call).IsCall := by cases call <;> trivial
          rw [perform_call hcall]
          exact ih h hcb hrest
      | recv result =>
          rw [perform_call (e := .recv result) trivial]
          exact ih h hcb hrest
      | send bytes result =>
          rw [perform_call (e := .send bytes result) trivial]
          exact ih h hcb hrest
      | _ => exact absurd he id

/-- **A handler ends its operation**: it untracks the socket and calls back. -/
theorem Consistent.finish (h : s.Consistent) (hcb : s.callback fd = some (.handler obj op)) :
    Consistent ((s.perform obj op (.removeTrack fd)).call obj op) := by
  set m := s.perform obj op (.removeTrack fd)
  obtain ⟨hp, howner⟩ := h.handler fd obj op hcb
  obtain ⟨hget, hi⟩ : (∀ fd', m.callback fd' = if fd' = fd then none else s.callback fd') ∧
      m.interest = s.interest.erase fd := perform_removeTrack
  have hflag : m.registered obj = false := by
    refine @registered_eq_false _ _ m obj op (some fd) hp ?_
    rintro fd' ⟨⟩
    exact ⟨by rw [hi]; exact Finset.notMem_erase fd _, (hget fd).trans (if_pos rfl)⟩
  have hcalls (n : ℕ) : (m.call obj op).calls n = s.calls n + if op = n then 1 else 0 :=
    calls_call n
  obtain ⟨hlt, hzero⟩ := h.uncalled obj _ hp
  -- what is still outstanding belongs to another object, with another number and another socket
  have hpcases {o : ℕ} {p : Pending} (hpo : (m.call obj op).pending o = some p) :
      o ≠ obj ∧ s.pending o = some p := by
    rcases update_cases hpo with ⟨-, ⟨⟩⟩ | hpo
    exact hpo
  have hne {o : ℕ} {p : Pending} (ho : o ≠ obj) (hpo : s.pending o = some p) : op ≠ p.op :=
    fun heq => ho (h.op_inj o obj p _ hpo hp heq.symm)
  have hold {fd' : ℤ} {o n : ℕ} (ho : o ≠ obj) (hfd : s.callback fd' = some (.handler o n)) :
      fd' ≠ fd := by
    rintro rfl
    exact ho (Closure.handler.inj (Option.some.inj (hfd.symm.trans hcb))).1
  refine ⟨⟨h.law.call rfl hzero hflag ?_, ?_, ?_, ?_, ?_, ?_, ?_, h.obj_lt, h.owner_lt, h.conn⟩,
    ?_⟩
  · intro o p hpo
    obtain ⟨ho, hpo⟩ := hpcases hpo
    obtain ⟨fd', hfd, hin, hfdcb⟩ := h.law.tracked o p hpo
    have hfd' := hold ho hfdcb
    refine ⟨fd', hfd, ?_, ?_⟩
    · rw [hi]
      exact Finset.mem_erase.2 ⟨hfd', hin⟩
    · exact (hget fd').trans ((if_neg hfd').trans hfdcb)
  · intro fd' o n hnew
    have hnew : m.callback fd' = some (.handler o n) := hnew
    rw [hget] at hnew
    split at hnew
    · exact absurd hnew (by simp)
    next hfd' =>
    obtain ⟨hpo, ho⟩ := h.handler fd' o n hnew
    have hobj : o ≠ obj := by
      rintro rfl
      exact hfd' (Option.some.inj (Pending.mk.inj (Option.some.inj (hpo.symm.trans hp))).2)
    exact ⟨(Function.update_of_ne hobj _ _).trans hpo, ho⟩
  · intro fd' hin
    have hin : fd' ∈ m.interest := hin
    rw [hi] at hin
    obtain ⟨hfd', hin⟩ := Finset.mem_erase.1 hin
    rcases h.interest fd' hin with ⟨o, n, hfdcb⟩ | hserver
    · exact Or.inl ⟨o, n, (hget fd').trans ((if_neg hfd').trans hfdcb)⟩
    · exact Or.inr hserver
  · intro o p hpo
    exact h.object o p (hpcases hpo).2
  · intro o p hpo
    obtain ⟨ho, hpo⟩ := hpcases hpo
    refine ⟨(h.uncalled o p hpo).1, ?_⟩
    rw [hcalls, (h.uncalled o p hpo).2, if_neg (hne ho hpo)]
  · intro o o' p p' hpo hpo'
    exact h.op_inj o o' p p' (hpcases hpo).2 (hpcases hpo').2
  · intro n hn
    have hlt' : op < n := lt_of_lt_of_le hlt hn
    rw [hcalls, h.future n hn, if_neg hlt'.ne]
  · intro o x fd' conn hx hdb ho hnew
    have hnew : m.callback fd' = some .accept := hnew
    rw [hget] at hnew
    split at hnew
    · exact absurd hnew (by simp)
    · exact h.clean o x fd' conn hx hdb ho hnew

/-- What `handleEvent` does keeps the invariant, whichever exit it takes. -/
theorem Consistent.foldl_trace (h : s.Consistent) (hcb : s.callback fd = some (.handler obj op))
    {effs : List Effect} (ht : HandlerTrace fd effs) :
    (effs.foldl (perform obj op) s).Consistent := by
  cases ht with
  | waits hq =>
      obtain ⟨run, hrun, hcons, -⟩ := h.foldl_quiet hcb hq
      exact hrun ▸ hcons
  | ends hb ha =>
      obtain ⟨run, hrun, hcons, hget⟩ := h.foldl_quiet hcb hb
      rw [List.foldl_append, hrun, List.foldl_cons, List.foldl_append, foldl_calls ha]
      exact hcons.finish hget

/-! ## The steps of the machine -/

theorem Consistent.handle (h : s.Consistent) {ev : EpollEvent}
    (hcb : s.callback ev.fd = some (.handler obj op)) (a : Answers) :
    (s.handle obj op ev a).Consistent := by
  obtain ⟨hp, -⟩ := h.handler ev.fd obj op hcb
  obtain ⟨c, hc, hsocket⟩ := h.object obj _ hp
  obtain hfd : ev.fd = c.socket := Option.some.inj hsocket
  have hflag : ((s.pending obj).any fun p : Pending => decide (p.op = op)) = true := by
    rw [hp]
    simp
  have hlogged : Consistent { s with log := .handled obj op true :: s.log } := h.log_handled
  have hhandle : (c.handleEvent ev a).1.handle = c.handle := Connection.handleEvent_handle
  rw [Process.handle, hflag]
  simp only [hc]
  exact (hlogged.keep_handle hc hhandle).foldl_trace (hfd ▸ hcb) Connection.handleEvent_trace

theorem Consistent.accept (h : s.Consistent) {t : Process Lq Lr} {ev : EpollEvent} {a : Answers}
    (ht : s.accept ev a = some t) : t.Consistent := by
  unfold Process.accept at ht
  split at ht
  · exact Option.some.inj ht ▸ h
  split at ht
  · split at ht
    · exact Option.some.inj ht ▸ h
    · next fd connectionId _ =>
        split at ht
        · next hfresh =>
            obtain rfl := Option.some.inj ht
            have hnew := h.allocate (c := .client (.new fd connectionId))
              (by simp [Connection.handle])
            obtain ⟨hw, hclean⟩ := hnew.openFd hfresh.2 (.object s.allocated) (by
              rintro obj ⟨⟩
              exact Nat.lt_succ_self _)
            have hopened : ((s.allocate (.client (.new fd connectionId))).openFd fd
                (.object s.allocated)).Consistent := by
              refine { hw with clean := fun obj => ?_ }
              by_cases heq : obj = s.allocated
              · -- the new object is no `Dbconnection`
                subst heq
                intro c fd' conn hc hdb
                have hself : Function.update s.heap s.allocated
                    (some (.client (.new fd connectionId))) s.allocated = some c := hc
                rw [Function.update_self] at hself
                obtain rfl := Option.some.inj hself
                exact absurd hdb (by simp [Connection.handle])
              · exact hclean obj fun hne => heq (Owner.object.inj hne).symm
            exact hopened.congr rfl rfl rfl rfl rfl rfl rfl
        · exact absurd ht (by simp)
  · exact Option.some.inj ht ▸ h

/-- An object's own socket, when it has no operation outstanding: nothing at all is registered for
    it if the object is a `Dbconnection`. -/
theorem Consistent.idle_db_socket (h : s.Consistent) {c : Connection Lq Lr} {conn : Option ℤ}
    (hc : s.heap obj = some c) (hdb : c.handle = .db fd conn) (howner : s.owner fd = .object obj)
    (hp : s.pending obj = none) : fd ∉ s.interest ∧ s.callback fd = none := by
  obtain ⟨hi, hno⟩ := h.idle_socket howner hp
  refine ⟨hi, ?_⟩
  cases hcb : s.callback fd with
  | none => rfl
  | some x =>
      cases x with
      | accept => exact absurd hcb (h.clean obj c fd conn hc hdb howner)
      | handler obj' op => exact absurd hcb (hno obj' op)

theorem Consistent.start (h : s.Consistent) {o : Operation} {c : Connection Lq Lr}
    {r : Connection Lq Lr × List Effect} (hc : s.heap obj = some c) (hp : s.pending obj = none)
    (hsocket : o.Connects ∨ s.HasSocket obj) (hfresh : ∀ fd ∈ o.opens, s.Fresh fd)
    (ho : Connection.StartOutcome c o r) : (s.start obj o r).Consistent := by
  have hown (hn : ¬ o.Connects) : s.owner c.socket = .object obj ∧ c.socket ∈ s.openFds := by
    obtain ⟨x, hx, hown⟩ := hsocket.resolve_left hn
    obtain rfl := Option.some.inj (hc.symm.trans hx)
    exact hown
  cases ho with
  | @refused c' effs hcalls hopens hsame hdb =>
      rw [Process.start, hopens]
      simp only [List.foldl_append, foldl_calls hcalls]
      refine (h.set_object hc (Or.inl hp) hdb).refuse hp ?_
      intro fd hfd
      split at hfd
      · exact absurd hfd (by simp)
      next hn =>
      obtain ⟨hhandle, fd', conn, hdb'⟩ := hsame.resolve_left hn
      obtain rfl : c'.socket = fd := Option.some.inj hfd
      have hsock : c'.socket = fd' := by rw [Connection.socket, hhandle, hdb']; rfl
      have hsock' : c.socket = fd' := by rw [Connection.socket, hdb']; rfl
      rw [hsock]
      exact h.idle_db_socket hc hdb' (hsock' ▸ (hown hn).1) hp
  | @tracked c' effs mask priority hcalls hopens hconnects hsame hdb =>
      have hconn (fd fd' : ℤ) (hh : c'.handle = .db fd (some fd')) : fd' = fd := by
        rcases hdb fd fd' hh with heq | hold
        · exact heq
        · exact h.conn obj c fd fd' hc hold
      have hpsocket : (if o.Connects then o.opens else some c'.socket) = some c'.socket := by
        split
        · next hconnect =>
            obtain ⟨fd, hfd⟩ := Option.isSome_iff_exists.1 (hconnects hconnect)
            rw [hfd, hopens fd hfd]
        · rfl
      rw [Process.start, hpsocket]
      simp only [List.foldl_append, foldl_calls hcalls]
      cases hfd : o.opens with
      | none =>
          -- on the socket the object already has
          have hn : ¬ o.Connects := fun hconnect => by
            have := hconnects hconnect
            rw [hfd] at this
            exact absurd this (by simp)
          have hsock : c'.socket = c.socket := by
            rw [Connection.socket, hsame hn, Connection.socket]
          obtain ⟨howner, hopen⟩ := hown hn
          rw [← hsock] at howner hopen
          exact h.start_tracked (fun x _ => h.clean x) hc hp howner hopen hconn mask priority
      | some fd =>
          -- on a socket opened for this operation
          have hsock : c'.socket = fd := hopens fd hfd
          obtain ⟨hw, hclean⟩ := h.openFd (hfresh fd hfd).2 (.object obj) (by
            rintro x ⟨⟩
            exact h.obj_lt obj c hc)
          refine hw.start_tracked (fun x hx => hclean x fun heq => hx (Owner.object.inj heq).symm)
            hc hp ?_ ?_ hconn mask priority
          · rw [hsock]
            exact Function.update_self _ _ _
          · rw [hsock]
            exact Finset.mem_insert_self _ _

/-- The destructor's calls, when the number in the `socket` field is no operation's. -/
theorem Consistent.foldl_destroy (h : s.Consistent) {c : Connection Lq Lr}
    (hc : s.heap obj = some c) (hno : ∀ obj' op, s.callback c.socket ≠ some (.handler obj' op)) :
    ∃ run : RunState Closure, c.destroy.foldl (perform obj 0) s = { s with run := run } ∧
      Consistent { s with run := run } := by
  cases c with
  | client c => exact ⟨_, rfl, h.rewire (.removes (Or.inr rfl) hno)⟩
  | api c => exact ⟨_, rfl, h.rewire (.removes (Or.inr rfl) hno)⟩
  | db c =>
      have hremoved := h.rewire (.removes (Or.inl rfl) hno)
      cases hconn : c.conn with
      | none =>
          refine ⟨s.run.act (.removeTrack c.socket), ?_, hremoved⟩
          show [Effect.removeTrack c.socket, .pq (.finish c.conn)].foldl (perform obj 0) s = _
          rw [hconn]
          rfl
      | some fd =>
          obtain rfl : fd = c.socket := h.conn obj _ c.socket fd hc (by rw [← hconn]; rfl)
          refine ⟨(s.run.act (.removeTrack c.socket)).act (.closeFd c.socket), ?_, ?_⟩
          · show [Effect.removeTrack c.socket, .pq (.finish c.conn)].foldl (perform obj 0) s = _
            rw [hconn]
            rfl
          · -- `PQfinish` closes the socket that `removeTrack` has just forgotten
            refine hremoved.rewire (.removes (Or.inr rfl) fun obj' op hcb => ?_)
            exact absurd (ThreadSafeMap.get_remove_self.symm.trans hcb) (by simp)

theorem Consistent.delete (h : s.Consistent) {c : Connection Lq Lr} (hc : s.heap obj = some c)
    (hp : s.pending obj = none)
    (hno : ∀ obj' op, s.callback c.socket ≠ some (.handler obj' op)) :
    (s.delete obj c).Consistent := by
  obtain ⟨run, hrun, hcons⟩ := h.foldl_destroy hc hno
  rw [Process.delete, hrun]
  exact hcons.drop hp _

/-- **Every safe step keeps the invariant.** -/
theorem Consistent.next {t : Process Lq Lr} {l : ProcessLabel Lq Lr} (h : s.Consistent)
    (hsafe : s.Safe l) (ht : s.next l = some t) : t.Consistent := by
  cases l with
  | loop l =>
      obtain ⟨hl, ht⟩ := Option.ite_none_right_eq_some.1 ht
      obtain ⟨run, hrun, rfl⟩ := Option.map_eq_some_iff.1 ht
      obtain ⟨hcb, hk⟩ := loop_ioc hl (RunState.next_outcome hrun)
      exact h.rewire (.of_eq hcb hk)
  | dispatch e a =>
      obtain ⟨run, hrun, ht⟩ := Option.bind_eq_some_iff.1 ht
      obtain ⟨-, hrun⟩ := Option.ite_none_right_eq_some.1 hrun
      obtain rfl := Option.some.inj hrun
      have hr : s.Rewired { s.run with
          phase := .handling e (s.run.ioc.runCallback e).isSome
          log := .dispatched e (s.run.ioc.runCallback e) :: s.run.log } := .of_eq rfl rfl
      have hm : Consistent { s with
          run := { s.run with
            phase := .handling e (s.run.ioc.runCallback e).isSome
            log := .dispatched e (s.run.ioc.runCallback e) :: s.run.log }
          inCallback := false } := (h.rewire hr).congr rfl rfl rfl rfl rfl rfl rfl
      cases hcb : s.run.ioc.runCallback e with
      | none =>
          rw [hcb] at ht hm
          obtain rfl := Option.some.inj ht
          exact hm
      | some x =>
          rw [hcb] at ht hm
          cases x with
          | accept => exact hm.accept ht
          | handler obj op =>
              obtain rfl := Option.some.inj ht
              exact hm.handle hcb a
  | newServer fd =>
      obtain ⟨⟨-, hfresh⟩, ht⟩ := Option.ite_none_right_eq_some.1 ht
      obtain rfl := Option.some.inj ht
      exact h.openFd_other hfresh.2 (by simp)
  | listen fd =>
      obtain ⟨⟨-, howner⟩, ht⟩ := Option.ite_none_right_eq_some.1 ht
      obtain rfl := Option.some.inj ht
      refine h.rewire (.listen howner (fun obj op hcb => ?_) true)
      exact absurd (howner.symm.trans (h.handler fd obj op hcb).2) (by simp)
  | newApi parent memory =>
      obtain ⟨-, ht⟩ := Option.ite_none_right_eq_some.1 ht
      obtain rfl := Option.some.inj ht
      exact h.allocate (by simp [Connection.handle])
  | newDb parent memory =>
      obtain ⟨-, ht⟩ := Option.ite_none_right_eq_some.1 ht
      obtain rfl := Option.some.inj ht
      exact h.allocate (by simp [Connection.handle, Dbconnection.new])
  | edit obj c =>
      obtain ⟨⟨-, hc⟩, ht⟩ := Option.ite_none_right_eq_some.1 ht
      obtain rfl := Option.some.inj ht
      obtain ⟨c', hc', hhandle⟩ := Option.map_eq_some_iff.1 hc
      exact h.keep_handle hc' hhandle.symm
  | start obj op =>
      obtain ⟨⟨-, hdoc, hp, hsocket, hfresh⟩, ht⟩ := Option.ite_none_right_eq_some.1 ht
      obtain ⟨r, hr, rfl⟩ := Option.map_eq_some_iff.1 ht
      obtain ⟨c, hc, hr⟩ := Option.bind_eq_some_iff.1 hr
      exact h.start hc hp hsocket hfresh
        (Connection.start_outcome hr hdoc fun fd hfd => (hfresh fd hfd).1)
  | delete obj =>
      obtain ⟨⟨-, hp⟩, ht⟩ := Option.ite_none_right_eq_some.1 ht
      obtain ⟨c, hc, rfl⟩ := Option.map_eq_some_iff.1 ht
      refine h.delete hc hp fun obj' op hcb => ?_
      exact absurd (hsafe c hc _ hcb) (by simp)
  | openOther fd =>
      obtain ⟨⟨-, hfresh⟩, ht⟩ := Option.ite_none_right_eq_some.1 ht
      obtain rfl := Option.some.inj ht
      exact h.openFd_other hfresh.2 (by simp)
  | closeOther fd =>
      obtain ⟨⟨-, howner⟩, ht⟩ := Option.ite_none_right_eq_some.1 ht
      obtain rfl := Option.some.inj ht
      refine h.rewire (.removes (Or.inr rfl) fun obj op hcb => ?_)
      exact absurd (howner.symm.trans (h.handler fd obj op hcb).2) (by simp)

end Process

end FiberConn
