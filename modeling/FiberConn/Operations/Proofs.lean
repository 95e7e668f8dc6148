import FiberConn.Operations.Steps
import FiberConn.RequestStream.Proofs

set_option autoImplicit false

/-! # Proofs about operations

The law of operations holds in a run exactly as long as no object is deleted whose `socket` field
has the number of a socket registered for another object. Such a number is there when the field was
never set: the constructors of `APIconnection` and `Dbconnection` leave it uninitialised, and their
destructors close or untrack it. -/

namespace FiberConn

variable {Lq Lr : Llhttp} {maxEvents : ℕ}

namespace Process

theorem consistent_init {s : Process Lq Lr} (h : (processMachine Lq Lr maxEvents).init s) :
    s.Consistent := by
  obtain ⟨k, hk, rfl⟩ := h
  have hcb (fd : ℤ) (x : Closure) : (∅ : ThreadSafeMap ℤ Closure).get fd ≠ some x := by simp
  exact
    { law := ⟨fun _ => Nat.zero_le 1, by simp, by simp, by simp⟩
      handler := fun fd obj op hh => absurd hh (hcb fd _)
      interest := fun fd hi => by
        have hi : fd ∈ k.interest.keys := hi
        rw [hk] at hi
        exact absurd hi (Finset.notMem_empty fd)
      object := by simp
      uncalled := by simp
      op_inj := by simp
      future := fun _ _ => rfl
      obj_lt := by simp
      owner_lt := by simp
      conn := by simp
      clean := fun _ _ fd _ _ _ _ => hcb fd _ }

/-- The destructor takes the number in the `socket` field off epoll, whoever it belongs to. -/
theorem foldl_destroy_gone (s : Process Lq Lr) (obj : ℕ) (c : Connection Lq Lr) :
    ∃ run : RunState Closure, c.destroy.foldl (perform obj 0) s = { s with run := run } ∧
      c.socket ∉ run.ioc.kernel.interest.keys := by
  have hclosed (r : RunState Closure) (fd : ℤ) :
      (r.act (.closeFd fd)).ioc.kernel.interest.keys = r.ioc.kernel.interest.keys.erase fd :=
    Kernel.closeConnection_keys
  have hremoved (r : RunState Closure) (fd : ℤ) :
      (r.act (.removeTrack fd)).ioc.kernel.interest.keys = r.ioc.kernel.interest.keys.erase fd :=
    Kernel.removeEpollInterest_keys
  cases c with
  | client c => exact ⟨_, rfl, hclosed s.run c.socket ▸ Finset.notMem_erase _ _⟩
  | api c => exact ⟨_, rfl, hclosed s.run c.socket ▸ Finset.notMem_erase _ _⟩
  | db c =>
      have hdestroy : (Connection.db c : Connection Lq Lr).destroy =
          [.removeTrack c.socket, .pq (.finish c.conn)] := rfl
      rw [hdestroy]
      cases c.conn with
      | none => exact ⟨_, rfl, hremoved s.run c.socket ▸ Finset.notMem_erase _ _⟩
      | some fd =>
          refine ⟨(s.run.act (.removeTrack c.socket)).act (.closeFd fd), rfl, ?_⟩
          rw [hclosed, hremoved]
          exact fun hmem => Finset.notMem_erase _ _ (Finset.mem_of_mem_erase hmem)

/-- An unsafe deletion takes the socket of another object's operation off epoll. -/
theorem Consistent.safe_of_law {s t : Process Lq Lr} {l : ProcessLabel Lq Lr} (h : s.Consistent)
    (ht : s.next l = some t) (hlaw : t.OneCallback) : s.Safe l := by
  cases l with
  | delete obj =>
      intro c hc x hx
      cases x with
      | accept => rfl
      | handler obj' op =>
          obtain ⟨-, ht⟩ := Option.ite_none_right_eq_some.1 ht
          obtain ⟨c', hc', rfl⟩ := Option.map_eq_some_iff.1 ht
          obtain rfl : c = c' := Option.some.inj (hc.symm.trans hc')
          obtain ⟨run, hrun, hgone⟩ := foldl_destroy_gone s obj c
          rw [Process.delete, hrun] at hlaw
          obtain ⟨fd, hfd, hi, -⟩ := hlaw.tracked obj' _ (h.handler c.socket obj' op hx).1
          obtain rfl : c.socket = fd := Option.some.inj hfd
          exact absurd hi hgone
  | _ => trivial

end Process

/-- **One callback for each operation** holds in every state of a run exactly if every deletion in
    it is safe. -/
theorem one_callback_iff {tr : List (Process Lq Lr × ProcessLabel Lq Lr)} {s : Process Lq Lr}
    (h : (processMachine Lq Lr maxEvents).Run tr s) :
    Machine.Throughout Process.OneCallback tr s ↔ Machine.Guarded Process.Safe tr :=
  h.law_iff_guard (fun _ hs => Process.consistent_init hs) (fun _ hs => hs.law)
    (fun _ _ _ hs hsafe hn => hs.next hsafe hn) fun _ _ _ hs hn hlaw => hs.safe_of_law hn hlaw

/-! ## Two runs -/

/-- Nothing to read, nothing to send. -/
def noAnswers : Answers := ⟨[], [], ⟨.ok, 0, 0, 1, 0, 0, []⟩, none⟩

/-- Nothing on the heap, and no descriptor open. -/
def emptyProcess : Process headParser headParser :=
  ⟨⟨.new 8 .start, .outside, []⟩, fun _ => none, ∅, false, fun _ => .other, 0, 0, fun _ => none, []⟩

/-- A server listens on 3 and accepts a client on 7, whose user starts to read. -/
def acceptAndRead : List (ProcessLabel headParser headParser) :=
  [.newServer 3, .listen 3, .loop .enter, .loop (.wait [⟨epollIn, 3⟩]),
    .dispatch (.listenSock, ⟨epollIn, 3⟩) { noAnswers with accepted := some (7, "a") },
    .start 0 .read]

/-- The request comes, the user writes, the connection breaks, the user deletes the object. -/
def serveAndDelete : List (ProcessLabel headParser headParser) :=
  [.loop .finish, .loop (.wait [⟨epollIn, 7⟩]),
    .dispatch (.newSock, ⟨epollIn, 7⟩) { noAnswers with recvs := [wholeRequest] },
    .start 0 .write, .loop .finish, .loop (.wait [⟨epollErr, 7⟩]),
    .dispatch (.helperSock, ⟨epollErr, 7⟩) noAnswers, .delete 0]

/-- A request served, an operation cut off by an error, and the object deleted: both operations have
    had their one callback. -/
theorem one_callback_served :
    ∃ tr s, (processMachine headParser headParser 8).Run tr s ∧
      s.calls 0 = 1 ∧ s.calls 1 = 1 ∧ Machine.Throughout Process.OneCallback tr s := by
  have hinit : (processMachine headParser headParser 8).init emptyProcess := ⟨.start, rfl, rfl⟩
  have hrun : (((processMachine headParser headParser 8).restrict Process.Safe).exec emptyProcess
      (acceptAndRead ++ serveAndDelete)).map (fun s => (s.calls 0, s.calls 1)) = some (1, 1) := by
    decide +kernel
  obtain ⟨s, hs, hcalls⟩ := Option.map_eq_some_iff.1 hrun
  obtain ⟨tr, htr, hsafe⟩ := Machine.exists_guarded_run hinit hs
  obtain ⟨h0, h1⟩ := Prod.mk.inj hcalls
  exact ⟨tr, s, htr, h0, h1, (one_callback_iff htr).2 hsafe⟩

/-- **An uninitialised socket.** While the client on 7 is being read from, the user allocates an
    `APIconnection` in memory that holds a 7 where `socket` is, and deletes it. Its destructor
    closes descriptor 7: the read is still outstanding, and epoll has forgotten its socket. -/
theorem uninitialised_socket :
    ∃ tr s, (processMachine headParser headParser 8).Run tr s ∧
      s.pending 0 = some ⟨0, some 7⟩ ∧ 7 ∉ s.interest ∧ ¬ s.OneCallback := by
  have hinit : (processMachine headParser headParser 8).init emptyProcess := ⟨.start, rfl, rfl⟩
  have hrun : ((processMachine headParser headParser 8).exec emptyProcess
      (acceptAndRead ++ [.newApi "" 7, .delete 1])).map
      (fun s => (s.pending 0, decide (7 ∈ s.interest))) = some (some ⟨0, some 7⟩, false) := by
    decide +kernel
  obtain ⟨s, hs, hstate⟩ := Option.map_eq_some_iff.1 hrun
  obtain ⟨hp, hi⟩ := Prod.mk.inj hstate
  have hgone : 7 ∉ s.interest := of_decide_eq_false hi
  obtain ⟨tr, htr⟩ := (Machine.Reachable.start hinit).exec hs
  refine ⟨tr, s, htr, hp, hgone, fun hlaw => ?_⟩
  obtain ⟨fd, hfd, hin, -⟩ := hlaw.tracked 0 _ hp
  obtain rfl : 7 = fd := Option.some.inj hfd
  exact hgone hin

/-! ## The reactor underneath -/

/-- What the calls of an object do to the reactor is always possible. -/
theorem Effect.action_enabled {e : Effect} {obj op : ℕ} {a : Action Closure}
    (h : e.action obj op = some a) (r : IOReactor Closure) : a.Enabled r := by
  unfold Effect.action at h
  split at h <;> first
    | cases h; trivial
    | cases h

/-- User code acting on the reactor is a step of the reactor's machine. -/
theorem RunState.act_reachable {r : RunState Closure}
    (h : (reactorMachine Closure maxEvents).Reachable r) (hu : r.UserCode) {a : Action Closure}
    (ha : a.Enabled r.ioc) : (reactorMachine Closure maxEvents).Reachable (r.act a) :=
  h.step (l := .act a) (if_pos ⟨hu, ha⟩)

namespace Process

theorem foldl_reachable {s : Process Lq Lr} {obj op : ℕ} (effs : List Effect)
    (h : (reactorMachine Closure maxEvents).Reachable s.run) (hu : s.run.UserCode) :
    (reactorMachine Closure maxEvents).Reachable (effs.foldl (perform obj op) s).run := by
  induction effs generalizing s with
  | nil => exact h
  | cons e effs ih =>
      rw [List.foldl_cons, perform]
      split
      · exact ih h hu
      split
      · next a ha => exact ih (RunState.act_reachable h hu (Effect.action_enabled ha _)) hu
      · exact ih h hu

/-- **Refinement.** The reactor of the process takes the steps of the reactor's own machine, so what
    holds of `reactorRun` against arbitrary handlers holds here. -/
theorem run_reachable {s : Process Lq Lr} (h : (processMachine Lq Lr maxEvents).Reachable s) :
    (reactorMachine Closure maxEvents).Reachable s.run := by
  refine h.invariant (I := fun s => (reactorMachine Closure maxEvents).Reachable s.run) ?_ ?_
  · rintro s ⟨k, hk, rfl⟩
    exact .start ⟨k, hk, rfl⟩
  intro s l t hr ht
  cases l with
  | loop l =>
      obtain ⟨-, ht⟩ := Option.ite_none_right_eq_some.1 ht
      obtain ⟨run, hrun, rfl⟩ := Option.map_eq_some_iff.1 ht
      exact hr.step (l := l) hrun
  | dispatch e a =>
      obtain ⟨run, hrun, ht⟩ := Option.bind_eq_some_iff.1 ht
      have hstep : (reactorMachine Closure maxEvents).next s.run (.dispatch e) = some run := hrun
      have hr' := hr.step hstep
      obtain ⟨-, hrun⟩ := Option.ite_none_right_eq_some.1 hrun
      obtain rfl := Option.some.inj hrun
      cases hcb : s.run.ioc.runCallback e with
      | none =>
          rw [hcb] at ht hr'
          obtain rfl := Option.some.inj ht
          exact hr'
      | some x =>
          rw [hcb] at ht hr'
          -- a callback was found, so user code may act
          cases x with
          | handler obj op =>
              obtain rfl := Option.some.inj ht
              rw [Process.handle]
              split
              · exact foldl_reachable _ hr' rfl
              · exact hr'
          | accept =>
              simp only [dispatched, Process.accept] at ht
              split at ht
              · exact Option.some.inj ht ▸ hr'
              split at ht
              · split at ht
                · exact Option.some.inj ht ▸ hr'
                · obtain ⟨hfresh, ht⟩ := Option.ite_none_right_eq_some.1 ht
                  obtain rfl := Option.some.inj ht
                  exact RunState.act_reachable hr' rfl hfresh.2
              · exact Option.some.inj ht ▸ hr'
  | newServer fd | openOther fd =>
      obtain ⟨⟨hu, hfresh⟩, ht⟩ := Option.ite_none_right_eq_some.1 ht
      obtain rfl := Option.some.inj ht
      exact RunState.act_reachable hr hu.1 hfresh.2
  | listen fd | closeOther fd =>
      obtain ⟨⟨hu, -⟩, ht⟩ := Option.ite_none_right_eq_some.1 ht
      obtain rfl := Option.some.inj ht
      exact RunState.act_reachable hr hu.1 trivial
  | newApi parent memory | newDb parent memory | edit obj c =>
      obtain ⟨-, ht⟩ := Option.ite_none_right_eq_some.1 ht
      exact Option.some.inj ht ▸ hr
  | start obj op =>
      obtain ⟨⟨hu, -, -, -, hfresh⟩, ht⟩ := Option.ite_none_right_eq_some.1 ht
      obtain ⟨r, -, rfl⟩ := Option.map_eq_some_iff.1 ht
      rw [Process.start]
      cases hfd : op.opens with
      | none => exact foldl_reachable _ hr hu.1
      | some fd =>
          have hopened := RunState.act_reachable (a := .openFd fd) hr hu.1 (hfresh fd hfd).2
          exact foldl_reachable _ hopened hu.1
  | delete obj =>
      obtain ⟨⟨hu, -⟩, ht⟩ := Option.ite_none_right_eq_some.1 ht
      obtain ⟨c, -, rfl⟩ := Option.map_eq_some_iff.1 ht
      exact foldl_reachable c.destroy hr hu.1

end Process

end FiberConn
