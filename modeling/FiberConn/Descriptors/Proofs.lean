import FiberConn.Descriptors
import FiberConn.RequestStream.Proofs

set_option autoImplicit false

/-! # Proofs about descriptors

Every function that obtains a descriptor does one of four things (`Acquired`): it gets none, hands
the new one to its caller, leaves it open without an owner, or closes it and returns it all the
same. One lemma, `Accounted.acquire_iff`, says what this means for the law; the steps of the
machine are cases of it, or release the descriptor an object owns, or move none at all. -/

namespace FiberConn

variable {Lq Lr : Llhttp}

/-! ## The functions that obtain a descriptor -/

/-- What can come of a call that is to obtain a descriptor; `clean` tells whether nothing fails once
    it has one. -/
inductive Acquired (k : Kernel) (opened : Option ℤ) (clean : Prop) : Kernel × ℤ → Prop
  | nothing (hopened : opened = none) : Acquired k opened clean (k, -1)
  | returned {fd : ℤ} (hopened : opened = some fd) (hclean : clean) :
      Acquired k opened clean (k.openFd fd, fd)
  | leaked {fd : ℤ} (hopened : opened = some fd) (hfailed : ¬ clean) :
      Acquired k opened clean (k.openFd fd, -1)
  | closed {fd : ℤ} (hopened : opened = some fd) (hfailed : ¬ clean) :
      Acquired k opened clean (((k.openFd fd).closeConnection fd).1, fd)

namespace Kernel

variable {k : Kernel}

theorem getSocket_some {willReuse willBlock : Bool} {a : SocketAnswers} {fd : ℤ}
    (h : a.socket = some fd) :
    k.getSocket willReuse willBlock a =
      (k.openFd fd, if a.Clean willReuse willBlock then fd else -1) := by
  unfold getSocket
  rw [h]
  dsimp only
  split
  · next hreuse => rw [if_neg fun hclean => hclean.1 hreuse.1 hreuse.2]
  next hreuse =>
  split
  · next hblock => rw [if_neg fun hclean => hclean.2 hblock.1 hblock.2]
  next hblock =>
  rw [if_pos ⟨fun hw hret => hreuse ⟨hw, hret⟩, fun hw hret => hblock ⟨hw, hret⟩⟩]

theorem getSocket_acquired (willReuse willBlock : Bool) (a : SocketAnswers) :
    Acquired k a.socket (a.Clean willReuse willBlock) (k.getSocket willReuse willBlock a) := by
  cases h : a.socket with
  | none =>
      rw [getSocket, h]
      exact .nothing rfl
  | some fd =>
      rw [getSocket_some h]
      split
      · next hclean => exact .returned rfl hclean
      · next hfailed => exact .leaked rfl hfailed

theorem acceptConnection_acquired (a : AcceptAnswers) :
    Acquired k a.accept a.Clean (k.acceptConnection a) := by
  unfold acceptConnection
  cases a.accept with
  | none => exact .nothing rfl
  | some fd =>
      dsimp only
      split
      · next hret => exact .leaked rfl fun hclean => hclean.1 hret
      next hret =>
      cases hfamily : a.family with
      | inet => exact .returned rfl ⟨hret, by simp [hfamily]⟩
      | inet6 => exact .returned rfl ⟨hret, by simp [hfamily]⟩
      | other => exact .closed rfl fun hclean => hclean.2 hfamily

theorem createConnection_acquired (a : ConnectAnswers) (hpos : ∀ fd ∈ a.opened, 0 ≤ fd) :
    Acquired k a.opened a.Clean (k.createConnection a) := by
  unfold createConnection
  unfold ConnectAnswers.opened at hpos ⊢
  cases hendpoint : a.endpoint with
  | false => exact .nothing rfl
  | true =>
      simp only [hendpoint, if_true] at hpos ⊢
      rw [if_neg (by simp)]
      cases hsocket : a.socket.socket with
      | none =>
          have hret : k.getSocket false false a.socket = (k, -1) := by rw [getSocket, hsocket]
          rw [hret]
          exact .nothing rfl
      | some fd =>
          have hne : fd ≠ -1 := by
            have h0 := hpos fd hsocket
            omega
          rw [getSocket_some hsocket]
          by_cases hclean : a.socket.Clean false false
          · simp only [if_pos hclean, if_neg hne]
            cases hconnect : a.connect with
            | failed code => exact .leaked rfl fun h => h.2 (by rw [hconnect]; trivial)
            | connected => exact .returned rfl ⟨hclean, by rw [hconnect]; exact id⟩
            | inProgress => exact .returned rfl ⟨hclean, by rw [hconnect]; exact id⟩
            | again => exact .returned rfl ⟨hclean, by rw [hconnect]; exact id⟩
          · simp only [if_neg hclean, if_true]
            exact .leaked rfl fun h => hclean h.1

end Kernel

/-! ## Calls that close nothing -/

/-- The call leaves the descriptor table as it is. -/
def Effect.KeepsOpen : Effect → Prop
  | .close _ => False
  | .pq (.finish _) => False
  | _ => True

theorem Effect.Quiet.keepsOpen {e : Effect} {fd : ℤ} (h : e.Quiet fd) : e.KeepsOpen := by
  cases e with
  | pq call => cases call <;> trivial
  | close fd' => exact h.elim
  | _ => trivial

theorem Effect.IsCall.keepsOpen {e : Effect} (h : e.IsCall) : e.KeepsOpen := by
  cases e with
  | pq call => cases call <;> trivial
  | close fd' => exact h.elim
  | _ => trivial

/-- A handler closes nothing. -/
theorem HandlerTrace.keepsOpen {fd : ℤ} {effs : List Effect} (h : HandlerTrace fd effs) :
    ∀ e ∈ effs, e.KeepsOpen := by
  cases h with
  | waits hquiet => exact fun e he => (hquiet e he).keepsOpen
  | ends hbefore hafter =>
      intro e he
      simp only [List.mem_append, List.mem_cons, List.not_mem_nil, or_false] at he
      rcases he with he | rfl | he | rfl
      · exact (hbefore e he).keepsOpen
      · trivial
      · exact (hafter e he).keepsOpen
      · trivial

theorem Kernel.openFds_perform {k : Kernel} {granted : Bool} {e : Effect} (h : e.KeepsOpen) :
    (k.perform granted e).openFds = k.openFds := by
  cases e with
  | addTrack fd mask priority => exact openFds_addEpollInterest
  | modifyTrack fd mask priority => exact openFds_modifyEpollInterest
  | removeTrack fd => exact openFds_removeEpollInterest
  | close fd => exact h.elim
  | pq call =>
      cases call with
      | finish conn => exact h.elim
      | _ => rfl
  | _ => rfl

theorem Kernel.openFds_foldl_perform {k : Kernel} {granted : Bool} {effs : List Effect}
    (h : ∀ e ∈ effs, e.KeepsOpen) :
    (effs.foldl (Kernel.perform granted) k).openFds = k.openFds := by
  induction effs generalizing k with
  | nil => rfl
  | cons e effs ih =>
      obtain ⟨he, hrest⟩ := List.forall_mem_cons.1 h
      rw [List.foldl_cons, ih hrest, openFds_perform he]

namespace HttpConnection

variable {x y : HttpConnection Lq Lr}

/-- A descriptor of its own, none, or a number that nobody has written. -/
theorem owned_cases (x : HttpConnection Lq Lr) :
    x.owned = some x.socket ∧ x.stray = none ∨
      x.owned = none ∧ x.stray = none ∧ x.socket = -1 ∨
      x.owned = none ∧ x.stray = some x.socket := by
  cases x with
  | client c => exact Or.inl ⟨rfl, rfl⟩
  | api c called =>
      cases called with
      | false => exact Or.inr (Or.inr ⟨by simp [owned], rfl⟩)
      | true =>
          by_cases hsocket : c.socket = -1
          · exact Or.inr (Or.inl ⟨by simp [owned, hsocket], rfl, hsocket⟩)
          · exact Or.inl ⟨by simp [owned, hsocket, socket], rfl⟩

theorem destroy_eq (x : HttpConnection Lq Lr) : x.destroy = [.close x.socket] := by
  cases x <;> rfl

theorem SameSocket.owned_eq (h : x.SameSocket y) : y.owned = x.owned := by
  cases x with
  | client c =>
      cases y with
      | client c' => exact congrArg some h
      | api c' called' => exact h.elim
  | api c called =>
      cases y with
      | client c' => exact h.elim
      | api c' called' =>
          obtain ⟨hsocket, rfl⟩ := h
          simp only [owned, hsocket]

/-- A handler keeps the object's descriptor and closes none. -/
theorem handleEvent_keeps (x : HttpConnection Lq Lr) (ev : EpollEvent) (recvs : List RecvResult)
    (sends : List SendResult) :
    (x.handleEvent ev recvs sends).1.owned = x.owned ∧
      ∀ e ∈ (x.handleEvent ev recvs sends).2, e.KeepsOpen := by
  cases x with
  | client c =>
      exact ⟨congrArg some Clientconnection.handleEvent_socket,
        Clientconnection.handleEvent_trace.keepsOpen⟩
  | api c called =>
      refine ⟨?_, APIconnection.handleEvent_trace.keepsOpen⟩
      have hsocket : (c.handleEvent ev recvs sends).conn.socket = c.socket :=
        APIconnection.handleEvent_socket
      simp only [handleEvent, owned, hsocket]

/-- So does the start of an operation. -/
theorem start_keeps {op : HttpOperation} {r : HttpConnection Lq Lr × List Effect}
    (h : x.start op = some r) : r.1.owned = x.owned ∧ ∀ e ∈ r.2, e.KeepsOpen := by
  unfold start at h
  split at h
  · obtain rfl := Option.some.inj h
    exact ⟨rfl, by simp [Clientconnection.read, Effect.KeepsOpen]⟩
  · obtain rfl := Option.some.inj h
    exact ⟨rfl, by simp [Clientconnection.write, Effect.KeepsOpen]⟩
  · obtain rfl := Option.some.inj h
    exact ⟨rfl, by simp [APIconnection.sendRequest, Effect.KeepsOpen]⟩
  · cases h

end HttpConnection

/-! ## The law, step by step -/

namespace Descriptors

variable {s t : Descriptors Lq Lr} {l : DescriptorLabel Lq Lr}

/-- From `s` to `t` only the place `obj` of the heap changes, and the kernel. -/
structure Puts (s : Descriptors Lq Lr) (obj : ℕ) (y : Option (HttpConnection Lq Lr))
    (t : Descriptors Lq Lr) : Prop where
  servers : t.servers = s.servers
  others : t.others = s.others
  heap : t.heap = Function.update s.heap obj y

section Puts

variable {obj : ℕ} {y : Option (HttpConnection Lq Lr)}

/-- Nobody else owns anything else then. -/
theorem Puts.owns_iff (h : s.Puts obj y t) (k : Owner) (fd : ℤ) :
    t.Owns k fd ↔
      k = .object obj ∧ (∃ x ∈ y, x.owned = some fd) ∨ k ≠ .object obj ∧ s.Owns k fd := by
  cases k with
  | server => simp [Owns, h.servers]
  | other => simp [Owns, h.others]
  | object obj' =>
      by_cases hobj : obj' = obj
      · subst hobj
        simp [Owns, h.heap]
      · simp [Owns, h.heap, hobj]

/-- An object that owned nothing gets `fd`, unless this is -1. -/
theorem Puts.owns_given {x : HttpConnection Lq Lr} (h : s.Puts obj (some x) t)
    (hnone : ∀ fd, ¬ s.Owns (.object obj) fd) {fd : ℤ}
    (hx : x.owned = if fd = -1 then none else some fd) (k : Owner) (fd' : ℤ) :
    t.Owns k fd' ↔ (k = .object obj ∧ fd' = fd) ∧ fd ≠ -1 ∨ s.Owns k fd' := by
  have hold : k ≠ .object obj ∧ s.Owns k fd' ↔ s.Owns k fd' :=
    and_iff_right_of_imp fun hk => fun heq => hnone fd' (heq ▸ hk)
  have hnew : (∃ y ∈ some x, y.owned = some fd') ↔ fd' = fd ∧ fd ≠ -1 := by
    by_cases hfd : fd = -1
    · simp [hx, hfd]
    · simp [hx, hfd, eq_comm]
  rw [h.owns_iff, hold, hnew, and_assoc]

/-- An object is replaced by one that owns the same, or nothing by nothing. -/
theorem Puts.owns_same (h : s.Puts obj y t) {z : Option (HttpConnection Lq Lr)}
    (hz : s.heap obj = z) (hsame : y.bind HttpConnection.owned = z.bind HttpConnection.owned)
    (k : Owner) (fd : ℤ) : t.Owns k fd ↔ s.Owns k fd := by
  rw [h.owns_iff]
  by_cases hk : k = .object obj
  · subst hk
    have hmem (z : Option (HttpConnection Lq Lr)) :
        (∃ x ∈ z, x.owned = some fd) ↔ z.bind HttpConnection.owned = some fd :=
      Option.bind_eq_some_iff.symm
    simp only [Owns, hz, hmem, hsame, ne_eq, not_true_eq_false, false_and, or_false, true_and]
  · simp [hk]

end Puts

/-- **A call that is to obtain a descriptor** for the owner `o` keeps the law exactly if it gets
    none or nothing fails afterwards. -/
theorem Accounted.acquire_iff (h : s.Accounted) {opened : Option ℤ} {clean : Prop} {r : Kernel × ℤ}
    (hr : Acquired s.kernel opened clean r) (hfresh : s.Fresh opened) {o : Owner}
    (hfds : t.kernel.openFds = r.1.openFds)
    (howns : ∀ k fd, t.Owns k fd ↔ (k = o ∧ fd = r.2) ∧ r.2 ≠ -1 ∨ s.Owns k fd) :
    t.Accounted ↔ (opened.isSome → clean) := by
  cases hr with
  | nothing hopened =>
      refine iff_of_true (SolelyOwned.congr h (by rw [hfds]) fun k fd => ?_) (by simp [hopened])
      simp [howns]
  | @returned fd hopened hclean =>
      obtain ⟨hpos, hnew⟩ := hfresh fd hopened
      refine iff_of_true ?_ fun _ => hclean
      refine SolelyOwned.acquire (k := o) (r := fd) h (by simpa using hnew) (by simp [hfds])
        fun k fd' => ?_
      rw [howns, and_iff_left (show fd ≠ -1 by omega)]
  | @leaked fd hopened hfailed =>
      obtain ⟨-, hnew⟩ := hfresh fd hopened
      refine iff_of_false (SolelyOwned.not_of_leak (r := fd) (by simp [hfds]) fun k hk => ?_)
        fun hclean => hfailed (hclean (by simp [hopened]))
      have hold : s.Owns k fd := by simpa using (howns k fd).1 hk
      exact hnew (by simpa using h.held k fd hold)
  | @closed fd hopened hfailed =>
      obtain ⟨hpos, hnew⟩ := hfresh fd hopened
      refine iff_of_false (SolelyOwned.not_of_stale (k := o) (r := fd) (by simp [hfds]) ?_)
        fun hclean => hfailed (hclean (by simp [hopened]))
      exact (howns o fd).2 (Or.inl ⟨⟨rfl, rfl⟩, by omega⟩)

/-- No descriptor is -1. -/
def Nonneg (s : Descriptors Lq Lr) : Prop := ∀ fd ∈ s.kernel.openFds, 0 ≤ fd

/-- What a step can do to the descriptors and their owners, and when it is tidy. -/
inductive Outcome (s : Descriptors Lq Lr) (l : DescriptorLabel Lq Lr) (t : Descriptors Lq Lr) : Prop
  /-- It is to obtain a descriptor for `o`. -/
  | acquires {opened : Option ℤ} {clean : Prop} {r : Kernel × ℤ} {o : Owner}
      (hr : Acquired s.kernel opened clean r) (hfresh : s.Fresh opened)
      (hfds : t.kernel.openFds = r.1.openFds)
      (howns : ∀ k fd, t.Owns k fd ↔ (k = o ∧ fd = r.2) ∧ r.2 ≠ -1 ∨ s.Owns k fd)
      (htidy : s.Tidy l ↔ (opened.isSome → clean))
  | keeps (hfds : t.kernel.openFds = s.kernel.openFds) (howns : ∀ k fd, t.Owns k fd ↔ s.Owns k fd)
      (htidy : s.Tidy l)
  /-- The owner `o` gives up `fd'`. -/
  | releases {o : Owner} {fd' : ℤ} (hk : s.Owns o fd')
      (hfds : t.kernel.openFds = s.kernel.openFds.erase fd')
      (howns : ∀ k fd, t.Owns k fd ↔ s.Owns k fd ∧ (k ≠ o ∨ fd ≠ fd')) (htidy : s.Tidy l)
  /-- It closes `fd'`, and its owner is not told. -/
  | strays {fd' : ℤ} (hfds : t.kernel.openFds = s.kernel.openFds.erase fd')
      (howns : ∀ k fd, t.Owns k fd ↔ s.Owns k fd) (htidy : s.Tidy l ↔ fd' ∉ s.kernel.openFds)

theorem serve_outcome {a : SocketAnswers} (hfresh : s.Fresh a.socket) :
    s.Outcome (.serve a) (s.serve a) := by
  refine .acquires (o := .server) (s.kernel.getSocket_acquired true false a) hfresh rfl ?_ Iff.rfl
  intro k fd
  cases k with
  | object obj => simp [Owns, serve]
  | other => simp [Owns, serve]
  | server =>
      by_cases hret : (s.kernel.getSocket true false a).2 = -1
      · simp [Owns, serve, hret]
      · simp [Owns, serve, hret]

theorem accept_outcome {server : ℤ} {a : AcceptAnswers} {obj : ℕ} {connectionId : String}
    (hfresh : s.Fresh a.accept) (hobj : s.heap obj = none) :
    s.Outcome (.incoming server a obj connectionId) (s.accept a obj connectionId) := by
  have hnone (fd : ℤ) : ¬ s.Owns (.object obj) fd := by simp [Owns, hobj]
  by_cases hret : (s.kernel.acceptConnection a).2 = -1
  · have ht : s.accept a obj connectionId = { s with kernel := (s.kernel.acceptConnection a).1 } :=
      if_pos hret
    rw [ht]
    refine .acquires (o := .server) (s.kernel.acceptConnection_acquired a) hfresh rfl ?_ Iff.rfl
    intro k fd
    simp only [hret, ne_eq, not_true_eq_false, and_false, false_or]
    rfl
  · have ht : s.accept a obj connectionId =
        { s with kernel := (s.kernel.acceptConnection a).1 }.allocate obj
          (.client (.new (s.kernel.acceptConnection a).2 connectionId)) := if_neg hret
    rw [ht]
    have hputs : s.Puts obj
        (some (.client (.new (s.kernel.acceptConnection a).2 connectionId)))
        ({ s with kernel := (s.kernel.acceptConnection a).1 }.allocate obj
          (.client (.new (s.kernel.acceptConnection a).2 connectionId))) := ⟨rfl, rfl, rfl⟩
    refine .acquires (s.kernel.acceptConnection_acquired a) hfresh rfl
      (hputs.owns_given hnone ?_) Iff.rfl
    simp [HttpConnection.owned, Clientconnection.new, hret]

theorem newApi_outcome {obj : ℕ} (hobj : s.heap obj = none) {parent : String} {memory : ℤ} :
    s.Outcome (.newApi obj parent memory) (s.allocate obj (.api (.new parent memory) false)) := by
  have hputs : s.Puts obj (some (.api (.new parent memory) false))
      (s.allocate obj (.api (.new parent memory) false)) := ⟨rfl, rfl, rfl⟩
  refine .keeps rfl (hputs.owns_same hobj ?_) trivial
  simp [HttpConnection.owned]

theorem connectApi_outcome {obj : ℕ} {c : APIconnection Lr} (hc : s.heap obj = some (.api c false))
    {a : ConnectAnswers} (hfresh : s.Fresh a.opened) {granted : Bool} :
    s.Outcome (.connectApi obj a granted) (s.connectApi obj c a granted) := by
  have hr := s.kernel.createConnection_acquired a fun fd hfd => (hfresh fd hfd).1
  set r := s.kernel.createConnection a with hcreate
  have hkeeps : ∀ e ∈ (c.connectApi r.2).2, e.KeepsOpen := by
    unfold APIconnection.connectApi
    split <;> simp [Effect.KeepsOpen]
  have hsocket : (c.connectApi r.2).1.socket = r.2 := by
    unfold APIconnection.connectApi
    split <;> rfl
  have hnone (fd : ℤ) : ¬ s.Owns (.object obj) fd := by
    simp [Owns, hc, HttpConnection.owned]
  have hputs : s.Puts obj (some (.api (c.connectApi r.2).1 true)) (s.connectApi obj c a granted) :=
    ⟨rfl, rfl, rfl⟩
  refine .acquires hr hfresh (Kernel.openFds_foldl_perform hkeeps) (hputs.owns_given hnone ?_)
    Iff.rfl
  simp only [HttpConnection.owned, hsocket, true_and, ite_not]

/-- An object works on its socket, or user code on the object. -/
theorem perform_outcome {obj : ℕ} {x : HttpConnection Lq Lr} (hx : s.heap obj = some x)
    {r : HttpConnection Lq Lr × List Effect} (howned : r.1.owned = x.owned)
    (hkeeps : ∀ e ∈ r.2, e.KeepsOpen) {granted : Bool} (htidy : s.Tidy l) :
    s.Outcome l (s.perform obj r granted) :=
  have hputs : s.Puts obj (some r.1) (s.perform obj r granted) := ⟨rfl, rfl, rfl⟩
  .keeps (Kernel.openFds_foldl_perform hkeeps) (hputs.owns_same hx howned) htidy

theorem delete_outcome (h : s.Nonneg) {obj : ℕ} {x : HttpConnection Lq Lr}
    (hx : s.heap obj = some x) : s.Outcome (.delete obj) (s.delete obj x) := by
  have hfds : (s.delete obj x).kernel.openFds = s.kernel.openFds.erase x.socket := by
    simp [delete, x.destroy_eq, Kernel.perform]
  have hputs : s.Puts obj none (s.delete obj x) := ⟨rfl, rfl, rfl⟩
  have hobj (fd : ℤ) : s.Owns (.object obj) fd ↔ x.owned = some fd := by simp [Owns, hx]
  have htidy : s.Tidy (.delete obj) ↔ ∀ fd ∈ x.stray, fd ∉ s.kernel.openFds := by
    simp [Tidy, hx]
  rcases x.owned_cases with ⟨howned, hstray⟩ | ⟨howned, hstray, hsocket⟩ | ⟨howned, hstray⟩
  · refine .releases (o := .object obj) ((hobj _).2 howned) hfds (fun k fd => ?_)
      (htidy.2 (by simp [hstray]))
    rw [hputs.owns_iff]
    by_cases hk : k = .object obj
    · subst hk
      simp [hobj, howned, eq_comm]
    · simp [hk]
  · have hclosed : -1 ∉ s.kernel.openFds := fun hopen => absurd (h _ hopen) (by decide)
    rw [hsocket, Finset.erase_eq_of_notMem hclosed] at hfds
    exact .keeps hfds (hputs.owns_same hx (by simp [howned])) (htidy.2 (by simp [hstray]))
  · exact .strays hfds (hputs.owns_same hx (by simp [howned])) (by simp [htidy, hstray])

/-- **What one step can do.** -/
theorem Nonneg.next_outcome (h : s.Nonneg) (ht : (descriptorMachine Lq Lr).next s l = some t) :
    s.Outcome l t := by
  cases l with
  | serve a =>
      obtain ⟨hfresh, ht⟩ := Option.ite_none_right_eq_some.1 ht
      obtain rfl := Option.some.inj ht
      exact serve_outcome hfresh
  | incoming server a obj connectionId =>
      obtain ⟨⟨-, hfresh, hobj⟩, ht⟩ := Option.ite_none_right_eq_some.1 ht
      obtain rfl := Option.some.inj ht
      exact accept_outcome hfresh hobj
  | newApi obj parent memory =>
      obtain ⟨hobj, ht⟩ := Option.ite_none_right_eq_some.1 ht
      obtain rfl := Option.some.inj ht
      exact newApi_outcome hobj
  | connectApi obj a granted =>
      simp only [descriptorMachine, next] at ht
      split at ht
      · next c hc =>
          obtain ⟨hfresh, ht⟩ := Option.ite_none_right_eq_some.1 ht
          obtain rfl := Option.some.inj ht
          exact connectApi_outcome hc hfresh
      · cases ht
  | event obj ev recvs sends granted =>
      obtain ⟨x, hx, rfl⟩ := Option.map_eq_some_iff.1 ht
      obtain ⟨howned, hkeeps⟩ := x.handleEvent_keeps ev recvs sends
      exact perform_outcome hx howned hkeeps trivial
  | start obj op granted =>
      obtain ⟨x, hx, ht⟩ := Option.bind_eq_some_iff.1 ht
      obtain ⟨r, hr, rfl⟩ := Option.map_eq_some_iff.1 ht
      obtain ⟨howned, hkeeps⟩ := HttpConnection.start_keeps hr
      exact perform_outcome hx howned hkeeps trivial
  | edit obj y =>
      obtain ⟨x, hx, ht⟩ := Option.bind_eq_some_iff.1 ht
      obtain ⟨hsame, ht⟩ := Option.ite_none_right_eq_some.1 ht
      obtain rfl := Option.some.inj ht
      exact perform_outcome hx hsame.owned_eq (by simp) trivial
  | delete obj =>
      obtain ⟨x, hx, rfl⟩ := Option.map_eq_some_iff.1 ht
      exact delete_outcome h hx
  | openOther fd =>
      obtain ⟨hfresh, ht⟩ := Option.ite_none_right_eq_some.1 ht
      obtain rfl := Option.some.inj ht
      have hne : fd ≠ -1 := by
        have hpos := (hfresh fd rfl).1
        omega
      refine .acquires (o := .other) (.returned rfl trivial) hfresh rfl (fun k fd' => ?_)
        (iff_of_true trivial fun _ => trivial)
      cases k <;> simp [Owns, hne]
  | closeOther fd =>
      obtain ⟨hother, ht⟩ := Option.ite_none_right_eq_some.1 ht
      obtain rfl := Option.some.inj ht
      refine .releases (o := .other) hother (by simp) (fun k fd' => ?_) trivial
      cases k <;> simp [Owns, and_comm]

/-- **A step keeps the law exactly if it is tidy.** -/
theorem Outcome.law_iff (ho : s.Outcome l t) (h : s.Accounted) : t.Accounted ↔ s.Tidy l := by
  cases ho with
  | acquires hr hfresh hfds howns htidy =>
      exact (h.acquire_iff hr hfresh hfds howns).trans htidy.symm
  | keeps hfds howns htidy => exact iff_of_true (SolelyOwned.congr h (by rw [hfds]) howns) htidy
  | releases hk hfds howns htidy =>
      exact iff_of_true (SolelyOwned.release h hk (by simp [hfds]) howns) htidy
  | @strays fd hfds howns htidy =>
      rw [htidy]
      constructor
      · intro ht hopen
        obtain ⟨k, hk⟩ := h.owner fd (by simpa using hopen)
        exact SolelyOwned.not_of_stale (by simp [hfds]) ((howns k fd).2 hk) ht
      · intro hclosed
        rw [Finset.erase_eq_of_notMem hclosed] at hfds
        exact SolelyOwned.congr h (by rw [hfds]) howns

theorem Outcome.nonneg (ho : s.Outcome l t) (h : s.Nonneg) : t.Nonneg := by
  unfold Nonneg
  have herase (fd' : ℤ) : ∀ fd ∈ s.kernel.openFds.erase fd', 0 ≤ fd := fun fd hfd =>
    h fd (Finset.mem_of_mem_erase hfd)
  have hopen {fd' : ℤ} (hpos : 0 ≤ fd') : ∀ fd ∈ (s.kernel.openFd fd').openFds, 0 ≤ fd :=
    (Finset.forall_mem_insert ..).2 ⟨hpos, h⟩
  cases ho with
  | acquires hr hfresh hfds howns htidy =>
      rw [hfds]
      cases hr with
      | nothing => exact h
      | returned hopened => exact hopen (hfresh _ hopened).1
      | leaked hopened => exact hopen (hfresh _ hopened).1
      | closed hopened =>
          intro fd hfd
          rw [Kernel.openFds_closeConnection] at hfd
          exact hopen (hfresh _ hopened).1 fd (Finset.mem_of_mem_erase hfd)
  | keeps hfds => exact hfds ▸ h
  | releases hk hfds => exact hfds ▸ herase _
  | strays hfds => exact hfds ▸ herase _

theorem init_accounted (h : (descriptorMachine Lq Lr).init s) : s.Accounted ∧ s.Nonneg := by
  obtain ⟨hfds, hpos, hservers, hheap⟩ := h
  have howns (k : Owner) (fd : ℤ) : s.Owns k fd ↔ k = .other ∧ fd ∈ s.others := by
    cases k <;> simp [Owns, hservers, hheap]
  refine ⟨⟨fun fd hfd => ⟨.other, ?_⟩, fun k fd hk => ?_, fun k k' fd hk hk' => ?_⟩,
    fun fd hfd => ?_⟩
  · exact (howns .other fd).2 ⟨rfl, by simpa [hfds] using hfd⟩
  · simpa [hfds] using ((howns k fd).1 hk).2
  · rw [((howns k fd).1 hk).1, ((howns k' fd).1 hk').1]
  · exact hpos fd (hfds ▸ hfd)

end Descriptors

/-- **Descriptors are accounted for** throughout a run exactly if all its steps are tidy: nothing
    fails once a descriptor has been obtained, and no `APIconnection` that was never connected is
    deleted with the number of an open descriptor in its `socket`. -/
theorem descriptors_accounted_iff {tr : List (Descriptors Lq Lr × DescriptorLabel Lq Lr)}
    {s : Descriptors Lq Lr} (h : (descriptorMachine Lq Lr).Run tr s) :
    Machine.Throughout Descriptors.Accounted tr s ↔ Machine.Guarded Descriptors.Tidy tr :=
  h.law_iff_guard (I := fun s => s.Accounted ∧ s.Nonneg) (fun _ hs => Descriptors.init_accounted hs)
    (fun _ hs => hs.1)
    (fun _ _ _ hs hG ht =>
      ⟨((hs.2.next_outcome ht).law_iff hs.1).2 hG, (hs.2.next_outcome ht).nonneg hs.2⟩)
    fun _ _ _ hs ht hlaw => ((hs.2.next_outcome ht).law_iff hs.1).1 hlaw

/-- A process with its standard streams and its epoll instance. -/
def standardStreams : Descriptors headParser headParser where
  kernel := ((((Kernel.start.openFd 0).openFd 1).openFd 2).openFd 3)
  heap _ := none
  servers := ∅
  others := {0, 1, 2, 3}

theorem standardStreams_init : (descriptorMachine headParser headParser).init standardStreams := by
  refine ⟨?_, ?_, rfl, fun _ => rfl⟩ <;> decide +kernel

/-- A server accepts a client, an `APIconnection` is connected, and both are deleted. -/
theorem descriptors_accounted_proxy : ∃ tr s, (descriptorMachine headParser headParser).Run tr s ∧
    s.kernel.openFds = {0, 1, 2, 3, 4} ∧ Machine.Throughout Descriptors.Accounted tr s := by
  have hrun : (((descriptorMachine headParser headParser).restrict Descriptors.Tidy).exec
      standardStreams [.serve ⟨some 4, 0, 0⟩, .incoming 4 ⟨some 5, 0, .inet⟩ 0 "c", .newApi 1 "c" 5,
        .connectApi 1 ⟨true, ⟨some 6, 0, 0⟩, .inProgress⟩ true, .start 0 .read true,
        .event 0 readable [wholeRequest] [] true, .delete 0, .delete 1]).map
      (fun s => s.kernel.openFds) = some {0, 1, 2, 3, 4} := by
    decide +kernel
  obtain ⟨s, hs, hfds⟩ := Option.map_eq_some_iff.1 hrun
  obtain ⟨tr, htr, hG⟩ := Machine.exists_guarded_run standardStreams_init hs
  exact ⟨tr, s, htr, hfds, (descriptors_accounted_iff htr).2 hG⟩

/-- **A connect that fails leaks its socket.** `connect` returns -1 at once (`ENETUNREACH`), the
    object's `socket` is -1, and descriptor 4 stays open and is nobody's. -/
theorem failed_connect_leaks : ∃ s, (descriptorMachine headParser headParser).Reachable s ∧
    s.kernel.openFds = {0, 1, 2, 3, 4} ∧ s.servers = ∅ ∧ s.others = {0, 1, 2, 3} ∧
    (s.heap 0).map HttpConnection.socket = some (-1) ∧ ¬ s.Accounted := by
  let call : DescriptorLabel headParser headParser :=
    .connectApi 0 ⟨true, ⟨some 4, 0, 0⟩, .failed 101⟩ true
  have hrun : ((descriptorMachine _ _).next standardStreams (.newApi 0 "" 77)).bind (fun s =>
      ((descriptorMachine _ _).next s call).map fun t => (decide (s.Tidy call), t.kernel.openFds,
        t.servers, t.others, (t.heap 0).map HttpConnection.socket)) =
      some (false, {0, 1, 2, 3, 4}, ∅, {0, 1, 2, 3}, some (-1)) := by
    decide +kernel
  obtain ⟨s, hs, hrun⟩ := Option.bind_eq_some_iff.1 hrun
  obtain ⟨t, ht, hfinal⟩ := Option.map_eq_some_iff.1 hrun
  simp only [Prod.mk.injEq] at hfinal
  obtain ⟨hleaky, hfds, hservers, hothers, hsocket⟩ := hfinal
  obtain ⟨hlaw, hpos⟩ := Descriptors.init_accounted standardStreams_init
  have hfirst := hpos.next_outcome hs
  have hlaw' : s.Accounted := (hfirst.law_iff hlaw).2 trivial
  refine ⟨t, ((Machine.Reachable.start standardStreams_init).step hs).step ht, hfds, hservers,
    hothers, hsocket, fun hlawt => ?_⟩
  have htidy := (((hfirst.nonneg hpos).next_outcome ht).law_iff hlaw').1 hlawt
  exact of_decide_eq_false hleaky htidy

end FiberConn
