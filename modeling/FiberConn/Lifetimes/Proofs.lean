import FiberConn.Lifetimes
import FiberConn.Operations.Proofs

set_option autoImplicit false

/-! # Proofs about objects and operations at the user's will

Calls made for one operation store its own function and nothing else (`callback_perform`), and keep
it stored as long as they are quiet. So a handler can only be left behind by a deletion, which is
the law `NoDangling`, and an operation only by the call that starts it, which is the law
`NoneStranded`. -/

namespace FiberConn

variable {κ : Type} {Lq Lr : Llhttp}

/-! ## Performing calls -/

/-- A call that stores a function in the reactor. -/
def Effect.Registers : Effect → Prop
  | .addTrack _ _ _ => True
  | .modifyTrack _ _ _ => True
  | _ => False

theorem Effect.request_call {e : Effect} (h : e.IsCall) (cb : κ) (granted : Bool) :
    e.request cb granted = none := by
  cases e with
  | pq call =>
      cases call with
      | finish conn => exact False.elim h
      | _ => rfl
  | recv _ | send _ _ => rfl
  | _ => exact False.elim h

theorem Effect.not_callback_of_isCall {effs : List Effect} (h : ∀ e ∈ effs, e.IsCall) :
    CallsBack effs = false := by
  rw [CallsBack, List.any_eq_false]
  intro e he hcb
  cases e with
  | callback => exact h _ he
  | _ => cases hcb

theorem Effect.not_callback_of_quiet {effs : List Effect} {socket : ℤ}
    (h : ∀ e ∈ effs, e.Quiet socket) : CallsBack effs = false := by
  rw [CallsBack, List.any_eq_false]
  intro e he hcb
  cases e with
  | callback => exact h _ he
  | _ => cases hcb

/-- An action stores nothing but the function it registers. -/
theorem RunState.callback_act {s : RunState κ} {a : Action κ} {fd : ℤ} {x : κ}
    (h : (s.act a).callback fd = some x) :
    s.callback fd = some x ∨ ∃ priority, a.registers = some (fd, x, priority) := by
  have ho := a.run_outcome s.ioc
  rw [callback, act] at h
  generalize a.run s.ioc = r at ho h
  cases ho with
  | refused => exact Or.inl h
  | @recorded fd' cb priority mask k hreg =>
      simp only [IOReactor.record, ThreadSafeMap.get_insert] at h
      split at h
      · next he =>
          subst he
          obtain rfl := Option.some.inj h
          exact Or.inr ⟨priority, hreg⟩
      · exact Or.inl h
  | removed =>
      simp only [IOReactor.removeTrack, ThreadSafeMap.get_remove] at h
      split at h
      · cases h
      · exact Or.inl h
  | kernelOnly _ _ _ hcb =>
      rw [hcb] at h
      exact Or.inl h

namespace Performed

variable {cb : κ} {granted : Bool} {p : Performed κ} {fd : ℤ}

theorem step_call {e : Effect} (h : e.IsCall) : p.step cb granted e = p := by
  rw [step, Effect.request_call h]

theorem foldl_calls {effs : List Effect} (h : ∀ e ∈ effs, e.IsCall) :
    effs.foldl (step cb granted) p = p := by
  induction effs with
  | nil => rfl
  | cons e effs ih =>
      obtain ⟨he, hrest⟩ := List.forall_mem_cons.1 h
      rw [List.foldl_cons, step_call he, ih hrest]

/-- A call stores nothing but its operation's function. -/
theorem callback_step {e : Effect} {x : κ} (h : (p.step cb granted e).run.callback fd = some x) :
    p.run.callback fd = some x ∨ x = cb := by
  unfold step at h
  split at h
  · next a ha =>
      rcases RunState.callback_act h with hold | ⟨priority, hreg⟩
      · exact Or.inl hold
      · right
        unfold Effect.request at ha
        split at ha <;> cases ha <;> cases hreg <;> rfl
  · exact Or.inl h

theorem callback_foldl {effs : List Effect} {x : κ}
    (h : (effs.foldl (step cb granted) p).run.callback fd = some x) :
    p.run.callback fd = some x ∨ x = cb := by
  induction effs generalizing p with
  | nil => exact Or.inl h
  | cons e effs ih =>
      rw [List.foldl_cons] at h
      rcases ih h with hstep | hx
      · exact callback_step hstep
      · exact Or.inr hx

/-- Quiet calls store the operation's function under its socket, or nothing. -/
theorem quiet_step {e : Effect} {socket : ℤ} (he : e.Quiet socket) (fd : ℤ) :
    (p.step cb granted e).run.callback fd = p.run.callback fd ∨
      fd = socket ∧ (p.step cb granted e).run.callback fd = some cb := by
  cases e with
  | modifyTrack fd' mask priority =>
      obtain rfl : fd' = socket := he
      show (p.run.ioc.modifyTrack fd' mask priority cb granted).1.eventCallback.get fd =
          p.run.ioc.eventCallback.get fd ∨
        fd = fd' ∧ (p.run.ioc.modifyTrack fd' mask priority cb granted).1.eventCallback.get fd =
          some cb
      rcases p.run.ioc.modifyTrack_cases fd' mask priority cb granted with hsame | ⟨-, k, -, -, hk⟩
      · rw [hsame]
        exact Or.inl rfl
      · rw [hk]
        simp only [IOReactor.record, ThreadSafeMap.get_insert]
        split
        · next heq => exact Or.inr ⟨heq, rfl⟩
        · exact Or.inl rfl
  | recv _ => exact Or.inl rfl
  | send _ _ => exact Or.inl rfl
  | pq call =>
      rw [step_call]
      · exact Or.inl rfl
      · cases call with
        | finish conn => exact False.elim he
        | _ => exact trivial
  | _ => exact False.elim he

theorem quiet_foldl {effs : List Effect} {socket : ℤ} (heffs : ∀ e ∈ effs, e.Quiet socket)
    (fd : ℤ) : (effs.foldl (step cb granted) p).run.callback fd = p.run.callback fd ∨
      fd = socket ∧ (effs.foldl (step cb granted) p).run.callback fd = some cb := by
  induction effs generalizing p with
  | nil => exact Or.inl rfl
  | cons e effs ih =>
      obtain ⟨he, hrest⟩ := List.forall_mem_cons.1 heffs
      rw [List.foldl_cons]
      rcases ih hrest with hsame | hset
      · rw [hsame]
        exact quiet_step he fd
      · exact Or.inr hset

/-- A stored function stays stored while its operation's calls are quiet. -/
theorem keep_foldl {effs : List Effect} {socket : ℤ} (heffs : ∀ e ∈ effs, e.Quiet socket)
    (h : p.run.callback fd = some cb) :
    (effs.foldl (step cb granted) p).run.callback fd = some cb := by
  rcases @quiet_foldl _ cb granted p effs socket heffs fd with hsame | ⟨-, hset⟩
  · rw [hsame, h]
  · exact hset

/-- Only a call that registers something can be refused. -/
theorem refused_foldl {effs : List Effect}
    (h : (effs.foldl (step cb granted) p).refused = true) :
    p.refused = true ∨ ∃ e ∈ effs, e.Registers := by
  induction effs generalizing p with
  | nil => exact Or.inl h
  | cons e effs ih =>
      rw [List.foldl_cons] at h
      rcases ih h with hstep | ⟨e', he', hreg⟩
      · unfold step at hstep
        split at hstep
        · next a ha =>
            simp only [Bool.or_eq_true, decide_eq_true_eq] at hstep
            rcases hstep with hold | hret
            · exact Or.inl hold
            · refine Or.inr ⟨e, List.mem_cons_self, ?_⟩
              unfold Effect.request at ha
              split at ha <;> cases ha
              · trivial
              · trivial
              · cases hret
              · cases hret
              · cases hret
        · exact Or.inl hstep
      · exact Or.inr ⟨e', List.mem_cons_of_mem _ he', hreg⟩

end Performed

namespace RunState

variable {s : RunState κ} {cb : κ} {granted : Bool} {effs : List Effect} {fd : ℤ}

/-- **Calls made for one operation store its function and nothing else.** -/
theorem callback_perform {x : κ} (h : (s.perform cb granted effs).run.callback fd = some x) :
    s.callback fd = some x ∨ x = cb :=
  Performed.callback_foldl h

theorem refused_perform (h : (s.perform cb granted effs).refused = true) :
    ∃ e ∈ effs, e.Registers := by
  rcases Performed.refused_foldl h with hfalse | hreg
  · cases hfalse
  · exact hreg

theorem callback_removeTrack {fd' : ℤ} :
    (s.act (.removeTrack fd)).callback fd' = if fd' = fd then none else s.callback fd' :=
  ThreadSafeMap.get_remove

/-- `addTrack` after calls that do not concern the reactor stores the function if the descriptor can
    be added, and does nothing to the map otherwise. -/
theorem callback_addTrack {mask : EventMask} {priority : EventPriority}
    (hcalls : ∀ e ∈ effs, e.IsCall) (fd' : ℤ) :
    (s.perform cb granted (effs ++ [.addTrack fd mask priority])).run.callback fd' =
      if s.CanAdd fd granted ∧ fd' = fd then some cb else s.callback fd' := by
  rw [perform, List.foldl_append, Performed.foldl_calls hcalls]
  show ((s.ioc.addTrack fd mask priority cb granted).1.eventCallback).get fd' = _
  unfold IOReactor.addTrack Kernel.addEpollInterest
  split
  · next hcan =>
      have hcan : s.CanAdd fd granted := hcan
      simp only [hcan, true_and]
      exact ThreadSafeMap.get_insert
  · next hcannot =>
      have hcannot : ¬ s.CanAdd fd granted := hcannot
      simp only [hcannot, false_and, if_false]
      rfl

/-- So it stores the function exactly if the descriptor can be added. -/
theorem callback_perform_addTrack {mask : EventMask} {priority : EventPriority}
    (hcalls : ∀ e ∈ effs, e.IsCall) (hnew : s.callback fd ≠ some cb) :
    (s.perform cb granted (effs ++ [.addTrack fd mask priority])).run.callback fd = some cb ↔
      s.CanAdd fd granted := by
  rw [callback_addTrack hcalls]
  split
  · next hcan => exact iff_of_true rfl hcan.1
  · next hcannot => exact iff_of_false hnew fun hcan => hcannot ⟨hcan, rfl⟩

/-- **A handler** whose function is stored under its socket leaves the callback map as it is, or
    takes its function out and calls back. -/
theorem callback_handler {socket : ℤ} (ht : HandlerTrace socket effs)
    (hcb : s.callback socket = some cb) (fd : ℤ) :
    (s.perform cb granted effs).run.callback fd =
      if CallsBack effs = true ∧ fd = socket then none else s.callback fd := by
  have hquiet {effs : List Effect} (hq : ∀ e ∈ effs, e.Quiet socket) (fd : ℤ) :
      (s.perform cb granted effs).run.callback fd = s.callback fd := by
    rcases @Performed.quiet_foldl _ cb granted ⟨s, false⟩ effs socket hq fd with
      hsame | ⟨rfl, hset⟩
    · exact hsame
    · exact hset.trans hcb.symm
  cases ht with
  | waits hq =>
      rw [Effect.not_callback_of_quiet hq, hquiet hq]
      simp
  | @ends before after hb ha =>
      have hcalls : CallsBack (before ++ .removeTrack socket :: (after ++ [.callback])) = true := by
        simp [CallsBack, Effect.IsCallback]
      rw [hcalls]
      simp only [true_and]
      rw [perform, List.foldl_append, List.foldl_cons, List.foldl_append,
        Performed.foldl_calls ha]
      show ((s.perform cb granted before).run.act (.removeTrack socket)).callback fd = _
      rw [callback_removeTrack, hquiet hb]

end RunState

/-! ## What the classes call -/

/-- The `recv` loop registers nothing. -/
theorem Receiver.receive_registers {σ : Type} (R : Receiver σ) (c : σ) (recvs : List RecvResult) :
    ∀ e ∈ (R.receive c recvs).effects, ¬ e.Registers := by
  induction recvs generalizing c with
  | nil => simp [receive, Effect.Registers]
  | cons r recvs ih =>
      cases r with
      | data chunk =>
          rw [receive]
          dsimp only
          split
          · simp [Effect.Registers]
          split
          · simp [Effect.Registers]
          · intro e he
            rcases List.mem_cons.1 he with rfl | he
            · exact id
            · exact ih _ e he
      | eof => simp [receive, Effect.Registers]
      | fail errno => simp [receive, Effect.Registers]

theorem Clientconnection.transmit_registers (c : Clientconnection Lq) (sends : List SendResult) :
    ∀ e ∈ (c.transmit sends).2, ¬ e.Registers := by
  have hpass := c.transmit_pass sends
  generalize c.transmit sends = r at hpass
  induction hpass with
  | waits => simp [Transmitter.call, Effect.Registers]
  | fails => simp [Transmitter.call, Effect.Registers]
  | ends => simp [Transmitter.call, Effect.Registers]
  | rearms hret => cases hret
  | part hmore h ih => exact List.forall_mem_cons.2 ⟨id, ih⟩

/-- A handler of a `Clientconnection` registers nothing. -/
theorem Clientconnection.handleEvent_registers (c : Clientconnection Lq) (ev : EpollEvent)
    (recvs : List RecvResult) (sends : List SendResult) :
    ∀ e ∈ (c.handleEvent ev recvs sends).effects, ¬ e.Registers := by
  unfold handleEvent
  split
  · simp [Effect.Registers]
  split
  · exact receiver.receive_registers _ recvs
  split
  · exact c.transmit_registers sends
  · simp

/-- The `send` loop of an `APIconnection` calls back only when `send` has failed. -/
theorem APIconnection.transmit_calls (c : APIconnection Lr) (sends : List SendResult)
    (h : CallsBack (c.transmit sends).2 = true) : (c.transmit sends).1.isError = true := by
  obtain ⟨c', hfail⟩ | ⟨hret, -⟩ := (c.transmit_pass sends).of_callsBack h
  · rw [hfail]
    rfl
  · cases hret

/-- An `APIconnection` that has rearmed its socket calls back in the same event only if `send` fails
    after all is sent. -/
theorem APIconnection.handleEvent_rearms {c : APIconnection Lr} {ev : EpollEvent}
    {recvs : List RecvResult} {sends : List SendResult}
    (hreg : ∃ e ∈ (c.handleEvent ev recvs sends).effects, e.Registers)
    (hcb : CallsBack (c.handleEvent ev recvs sends).effects = true) :
    (c.handleEvent ev recvs sends).conn.isError = true := by
  obtain ⟨e, he, hreg⟩ := hreg
  unfold handleEvent at he hcb ⊢
  split at he
  · next herr =>
      rw [if_pos herr]
      rfl
  next herr =>
  rw [if_neg herr] at hcb ⊢
  cases hstate : c.state with
  | idle => simp [hstate] at he
  | connecting =>
      simp only [hstate, List.mem_cons, List.not_mem_nil, or_false] at he
      rcases he with rfl | rfl <;> exact hreg.elim
  | sending =>
      rw [hstate] at hcb
      exact c.transmit_calls sends hcb
  | receiving =>
      rw [hstate] at he
      exact absurd hreg (receiver.receive_registers _ recvs e he)

/-- A `Dbconnection` that has rearmed its socket does not call back in the same event. -/
theorem Dbconnection.handleEvent_rearms {c : Dbconnection} {ev : EpollEvent} {a : PqAnswers}
    (hreg : ∃ e ∈ (c.handleEvent ev a).2, e.Registers) :
    CallsBack (c.handleEvent ev a).2 = false := by
  obtain ⟨e, he, hreg⟩ := hreg
  -- every branch either calls back or registers
  have hnone {effs : List Effect} (hplain : ∀ e ∈ effs, ¬ e.Registers) (he : e ∈ effs) : False :=
    hplain e he hreg
  unfold handleEvent at he ⊢
  split at he
  · exact (hnone (by simp [Effect.Registers]) he).elim
  next herr =>
  rw [if_neg herr]
  cases hstate : c.connectionState with
  | connecting =>
      rw [hstate] at he
      dsimp only [handleConnecting] at he ⊢
      cases hpoll : a.connectPoll with
      | failed =>
          rw [hpoll] at he
          exact (hnone (by simp [Effect.Registers]) he).elim
      | ok =>
          rw [hpoll] at he
          exact (hnone (by simp [Effect.Registers]) he).elim
      | reading | writing | active => rfl
  | sendingQuery =>
      rw [hstate] at he
      obtain ⟨calls, tail, heq, hcalls, htail⟩ := @handleSending_calls c ev a
      have hplain (e : Effect) (he : e ∈ calls) : ¬ e.Registers ∧ e.IsCallback = false := by
        rcases hcalls e he with ⟨ret, rfl⟩ | ⟨ret, rfl⟩ <;> exact ⟨id, rfl⟩
      have hback : CallsBack calls = false := by
        simpa [CallsBack] using fun e he => (hplain e he).2
      dsimp only at he ⊢
      rw [heq] at he ⊢
      rw [callsBack_append, hback]
      replace he := (List.mem_append.1 he).resolve_left fun he => (hplain e he).1 hreg
      rcases htail with rfl | rfl | rfl
      · rfl
      · rfl
      · exact (hnone (by simp [Effect.Registers]) he).elim
  | readingResponse =>
      rw [hstate] at he
      refine (hnone ?_ he).elim
      dsimp only [handleReading]
      split
      · simp [Effect.Registers]
      split
      · simp [Effect.Registers]
      split
      · intro e he
        simp only [collect_snd, List.mem_append, List.mem_cons, List.mem_map, List.not_mem_nil,
          or_false] at he
        rcases he with (rfl | rfl) | rfl | (⟨res, -, rfl⟩ | rfl) | rfl <;> exact id
      · simp [Effect.Registers]
  | _ => rfl

namespace Connection

variable {c : Connection Lq Lr} {ev : EpollEvent} {a : Answers} {op : Operation}

/-- **A handler that has registered something calls back only with `is_error` set.** -/
theorem handleEvent_rearms (hreg : ∃ e ∈ (c.handleEvent ev a).2, e.Registers)
    (hcb : CallsBack (c.handleEvent ev a).2 = true) : (c.handleEvent ev a).1.isError = true := by
  cases c with
  | client c =>
      obtain ⟨e, he, hreg⟩ := hreg
      exact absurd hreg (c.handleEvent_registers ev a.recvs a.sends e he)
  | api c => exact APIconnection.handleEvent_rearms hreg hcb
  | db c =>
      have hno := Dbconnection.handleEvent_rearms hreg
      exact absurd (hcb.symm.trans hno) (by simp)

/-- How an operation starts: over at once, or with the descriptor it tracks put into the reactor as
    the last thing. -/
inductive Starts (c : Connection Lq Lr) (op : Operation) : Connection Lq Lr × List Effect → Prop
  | atOnce {c' : Connection Lq Lr} {effs : List Effect} (htracks : op.tracks c = none)
      (hcalls : ∀ e ∈ effs, e.IsCall) : Starts c op (c', effs ++ [.callback])
  | registers {c' : Connection Lq Lr} {effs : List Effect} {mask : EventMask}
      {priority : EventPriority} (htracks : op.tracks c = some c'.socket)
      (hcalls : ∀ e ∈ effs, e.IsCall) :
      Starts c op (c', effs ++ [.addTrack c'.socket mask priority])

theorem start_starts {r : Connection Lq Lr × List Effect} (h : c.start op = some r)
    (hdoc : op.Documented) : Starts c op r := by
  cases c with
  | client c =>
      cases op with
      | read =>
          obtain rfl := Option.some.inj h
          exact @Starts.registers _ _ _ _ (.client c) [] _ _ rfl (by simp)
      | write =>
          obtain rfl := Option.some.inj h
          exact @Starts.registers _ _ _ _ (.client c) [] _ _ rfl (by simp)
      | _ => cases h
  | api c =>
      cases op with
      | connectApi sockfd =>
          obtain rfl := Option.some.inj h
          by_cases hfd : sockfd.getD (-1) = -1
          · simp only [APIconnection.connectApi, if_pos hfd]
            exact @Starts.atOnce _ _ _ _ _ [] (if_pos hfd) (by simp)
          · simp only [APIconnection.connectApi, if_neg hfd]
            refine @Starts.registers _ _ _ _ (.api _) [] _ _ ?_ (by simp)
            cases sockfd with
            | none => exact absurd rfl hfd
            | some fd => exact if_neg hfd
      | sendRequest =>
          obtain rfl := Option.some.inj h
          exact @Starts.registers _ _ _ _ (.api _) [] _ _ rfl (by simp)
      | _ => cases h
  | db c =>
      cases op with
      | connectDb conninfo socket =>
          obtain rfl := Option.some.inj h
          cases socket with
          | none =>
              exact @Starts.atOnce _ _ _ _ (.db _) [.pq (.connectStart conninfo false)] rfl
                (by simp [Effect.IsCall])
          | some fd =>
              exact @Starts.registers _ _ _ _ (.db _) [.pq (.connectStart conninfo true)] _ _ rfl
                (by simp [Effect.IsCall])
      | sendQuery query a =>
          obtain rfl := Option.some.inj h
          by_cases hfailed : a.sendQuery = 0 ∨ a.flush = -1
          · -- libpq fails the query
            have htracks : (Operation.sendQuery query a).tracks (.db c : Connection Lq Lr) = none :=
              if_pos hfailed
            unfold Dbconnection.sendQuery
            split
            · exact @Starts.atOnce _ _ _ _ (.db _) [.pq (.sendQuery query a.sendQuery)] htracks
                (by simp [Effect.IsCall])
            next hret =>
            rw [if_pos (hfailed.resolve_left hret)]
            exact @Starts.atOnce _ _ _ _ (.db _)
              [.pq (.sendQuery query a.sendQuery), .pq (.flush a.flush)] htracks
              (by simp [Effect.IsCall])
          · have htracks : (Operation.sendQuery query a).tracks (.db c : Connection Lq Lr) =
                some c.socket := if_neg hfailed
            obtain ⟨hret, hflush⟩ := not_or.1 hfailed
            have hcalls : ∀ e ∈ [Effect.pq (.sendQuery query a.sendQuery), .pq (.flush a.flush)],
                e.IsCall := by simp [Effect.IsCall]
            obtain ⟨state, mask, he⟩ := Dbconnection.sendQuery_tracks hret hflush hdoc
            rw [he]
            exact @Starts.registers _ _ _ _ (.db { c with connectionState := state })
              _ _ _ htracks hcalls
      | _ => cases h

/-- The destructor stores nothing and takes one function off the reactor at most. -/
theorem callback_destroy (c : Connection Lq Lr) (s : RunState Closure) (fd : ℤ) :
    (s.perform .accept true c.destroy).run.callback fd =
      if c.untracks = some fd then none else s.callback fd := by
  cases c with
  | client c => rfl
  | api c => rfl
  | db c =>
      have hremove : (s.act (.removeTrack c.socket)).callback fd =
          if c.socket = fd then none else s.callback fd := by
        show (s.ioc.eventCallback.remove c.socket).get fd = _
        rw [ThreadSafeMap.get_remove]
        simp only [eq_comm]
        rfl
      have hfinish : (s.perform .accept true (.db c : Connection Lq Lr).destroy).run.callback fd =
          (s.act (.removeTrack c.socket)).callback fd := by
        show (Performed.step _ _ _ (.pq (.finish c.conn))).run.callback fd = _
        cases c.conn <;> rfl
      rw [hfinish, hremove]
      simp only [untracks, Option.some.injEq]

end Connection

namespace FreeProcess

variable {s t : FreeProcess Lq Lr} {l : FreeLabel Lq Lr} {maxEvents : ℕ}

/-! ## Inversion -/

@[simp] theorem callback_opened (s : FreeProcess Lq Lr) (op : Operation) (fd : ℤ) :
    (s.opened op).callback fd = s.run.callback fd := by
  unfold opened
  split
  · split <;> rfl
  · rfl

theorem isSome_update {f : ℕ → Option (Connection Lq Lr)} {obj obj' : ℕ} {c : Connection Lq Lr}
    (h : (f obj').isSome) : (Function.update f obj (some c) obj').isSome := by
  by_cases he : obj' = obj
  · simp [he]
  · rwa [Function.update_of_ne he]

/-- Between `s` and `t` no handler was stored or run, no operation started and no object deleted. -/
structure Idles (s t : FreeProcess Lq Lr) : Prop where
  callback : ∀ fd obj op, t.run.callback fd = some (.handler obj op) →
    s.run.callback fd = some (.handler obj op)
  heap : ∀ obj, (s.heap obj).isSome → (t.heap obj).isSome
  log : t.log = s.log
  started : t.started = s.started

/-- What a step can do. -/
inductive Outcome (s : FreeProcess Lq Lr) : FreeLabel Lq Lr → FreeProcess Lq Lr → Prop
  | idles {l : FreeLabel Lq Lr} {t : FreeProcess Lq Lr} (h : s.Idles t) : Outcome s l t
  | handles {e : QueuedEvent} {a : Answers} {granted : Bool} {run : RunState Closure} {obj op : ℕ}
      (h : s.Idles { s with run := run }) (hcb : run.callback e.2.fd = some (.handler obj op)) :
      Outcome s (.dispatch e a granted) ({ s with run := run }.handle obj op e.2 a granted)
  | starts {obj : ℕ} {op : Operation} {granted : Bool} {c : Connection Lq Lr}
      {r : Connection Lq Lr × List Effect} (hc : s.heap obj = some c) (hs : c.Starts op r) :
      Outcome s (.start obj op granted) (s.start obj op granted r)
  | deletes {obj : ℕ} {c : Connection Lq Lr} (hc : s.heap obj = some c) :
      Outcome s (.delete obj) (s.delete obj c)

theorem accept_idles {ev : EpollEvent} {a : Answers} (ht : s.accept ev a = some t) :
    s.Idles t := by
  rw [accept] at ht
  split at ht
  · obtain rfl := Option.some.inj ht
    exact ⟨fun _ _ _ h => h, fun _ => id, rfl, rfl⟩
  split at ht
  · split at ht
    · obtain rfl := Option.some.inj ht
      exact ⟨fun _ _ _ h => h, fun _ => id, rfl, rfl⟩
    · obtain ⟨-, ht⟩ := Option.ite_none_right_eq_some.1 ht
      obtain rfl := Option.some.inj ht
      exact ⟨fun _ _ _ h => h, fun _ => isSome_update, rfl, rfl⟩
  · obtain rfl := Option.some.inj ht
    exact ⟨fun _ _ _ h => h, fun _ => id, rfl, rfl⟩

theorem next_outcome (ht : s.next l = some t) : s.Outcome l t := by
  cases l with
  | loop l =>
      obtain ⟨hl, ht⟩ := Option.ite_none_right_eq_some.1 ht
      obtain ⟨run, hrun, rfl⟩ := Option.map_eq_some_iff.1 ht
      obtain ⟨hmap, -⟩ := Process.loop_ioc hl (RunState.next_outcome hrun)
      refine .idles ⟨fun fd obj op hcb => ?_, fun _ => id, rfl, rfl⟩
      rwa [RunState.callback, hmap] at hcb
  | dispatch e a granted =>
      obtain ⟨run, hrun, ht⟩ := Option.bind_eq_some_iff.1 ht
      obtain ⟨-, hrun⟩ := Option.ite_none_right_eq_some.1 hrun
      obtain rfl := Option.some.inj hrun
      cases hcb : s.run.ioc.runCallback e with
      | none =>
          rw [hcb] at ht
          obtain rfl := Option.some.inj ht
          exact .idles ⟨fun _ _ _ h => h, fun _ => id, rfl, rfl⟩
      | some x =>
          rw [hcb] at ht
          cases x with
          | handler obj op =>
              obtain rfl := Option.some.inj ht
              exact .handles ⟨fun _ _ _ h => h, fun _ => id, rfl, rfl⟩ hcb
          | accept =>
              have hidles := accept_idles ht
              exact .idles ⟨hidles.callback, hidles.heap, hidles.log, hidles.started⟩
  | listen fd granted =>
      obtain ⟨-, ht⟩ := Option.ite_none_right_eq_some.1 ht
      obtain rfl := Option.some.inj ht
      refine .idles ⟨fun fd' obj op hcb => ?_, fun _ => id, rfl, rfl⟩
      rcases RunState.callback_act hcb with hold | ⟨priority, hreg⟩
      · exact hold
      · cases hreg
  | newClient sockfd connectionId | newApi parent memory | newDb parent memory | edit obj c =>
      obtain ⟨-, ht⟩ := Option.ite_none_right_eq_some.1 ht
      obtain rfl := Option.some.inj ht
      exact .idles ⟨fun _ _ _ h => h, fun _ => isSome_update, rfl, rfl⟩
  | start obj op granted =>
      obtain ⟨⟨-, hdoc, -⟩, ht⟩ := Option.ite_none_right_eq_some.1 ht
      obtain ⟨r, hr, rfl⟩ := Option.map_eq_some_iff.1 ht
      obtain ⟨c, hc, hstart⟩ := Option.bind_eq_some_iff.1 hr
      exact .starts hc (Connection.start_starts hstart hdoc)
  | delete obj =>
      obtain ⟨-, ht⟩ := Option.ite_none_right_eq_some.1 ht
      obtain ⟨c, hc, rfl⟩ := Option.map_eq_some_iff.1 ht
      exact .deletes hc
  | openFd fd =>
      obtain ⟨-, ht⟩ := Option.ite_none_right_eq_some.1 ht
      obtain rfl := Option.some.inj ht
      exact .idles ⟨fun _ _ _ h => h, fun _ => id, rfl, rfl⟩
  | closeFd fd =>
      obtain rfl := Option.some.inj ht
      exact .idles ⟨fun _ _ _ h => h, fun _ => id, rfl, rfl⟩

/-! ## No dangling callbacks -/

theorem NoDangling.idles (h : s.NoDangling) (ht : s.Idles t) : t.NoDangling where
  stored fd obj op hcb := ht.heap obj (h.stored fd obj op (ht.callback fd obj op hcb))
  handled obj live hmem := h.handled obj live (ht.log ▸ hmem)

/-- The handler of a live object keeps the law. -/
theorem NoDangling.handle (h : s.NoDangling) {obj op : ℕ} {fd : ℤ} {ev : EpollEvent} {a : Answers}
    {granted : Bool} (hcb : s.run.callback fd = some (.handler obj op)) :
    (s.handle obj op ev a granted).NoDangling := by
  obtain ⟨c, hc⟩ := Option.isSome_iff_exists.1 (h.stored fd obj op hcb)
  rw [FreeProcess.handle, hc]
  constructor
  · intro fd' obj' op' hstored
    rcases RunState.callback_perform hstored with hold | hnew
    · exact isSome_update (h.stored fd' obj' op' hold)
    · obtain ⟨rfl, rfl⟩ := Closure.handler.inj hnew
      simp
  · intro obj' live hmem
    simp only [List.mem_cons, Report.handled.injEq, reduceCtorEq, false_or] at hmem
    rcases hmem with ⟨-, rfl⟩ | hold
    · rfl
    · exact h.handled obj' live hold

theorem NoDangling.start (h : s.NoDangling) {obj : ℕ} {op : Operation} {granted : Bool}
    {r : Connection Lq Lr × List Effect} : (s.start obj op granted r).NoDangling where
  stored fd obj' op' hstored := by
    rcases RunState.callback_perform hstored with hold | hnew
    · exact isSome_update (h.stored fd obj' op' (callback_opened s op fd ▸ hold))
    · obtain ⟨rfl, -⟩ := Closure.handler.inj hnew
      simp [FreeProcess.start]
  handled obj' live hmem := h.handled obj' live ((List.mem_cons.1 hmem).resolve_left nofun)

/-- An object deleted without a handler left in the reactor keeps the law. -/
theorem NoDangling.delete (h : s.NoDangling) {obj : ℕ} {c : Connection Lq Lr}
    (hc : s.heap obj = some c) (hG : s.Untracked (.delete obj)) : (s.delete obj c).NoDangling where
  stored fd obj' op hcb := by
    simp only [FreeProcess.delete, Connection.callback_destroy] at hcb
    split at hcb
    · cases hcb
    next hother =>
    -- a handler that is still there is not one of the object
    by_cases he : obj' = obj
    · subst he
      have hkey : fd ∈ s.run.ioc.eventCallback.keys := ThreadSafeMap.mem_keys_iff.2 ⟨_, hcb⟩
      have hof : (s.run.callback fd).any (Closure.IsHandlerOf obj') := by
        simp [hcb, Closure.IsHandlerOf]
      exact absurd (hG c hc fd hkey hof) hother
    · have hlive := h.stored fd obj' op hcb
      simpa only [FreeProcess.delete, Function.update_of_ne he] using hlive
  handled := h.handled

theorem NoDangling.next (h : s.NoDangling) (hG : s.Untracked l) (ht : s.next l = some t) :
    t.NoDangling := by
  cases next_outcome ht with
  | idles hidles => exact h.idles hidles
  | handles hidles hcb => exact (h.idles hidles).handle hcb
  | starts => exact h.start
  | deletes hc => exact h.delete hc hG

/-- A deletion that leaves a handler behind breaks the law. -/
theorem NoDangling.untracked (ht : s.next l = some t) (hlaw : t.NoDangling) : s.Untracked l := by
  cases l with
  | delete obj =>
      intro c hc fd _ hof
      obtain ⟨-, ht⟩ := Option.ite_none_right_eq_some.1 ht
      obtain ⟨c', hc', rfl⟩ := Option.map_eq_some_iff.1 ht
      obtain rfl : c = c' := Option.some.inj (hc.symm.trans hc')
      by_contra hother
      cases hcb : s.run.callback fd with
      | none => simp [hcb] at hof
      | some x =>
      rw [hcb] at hof
      cases x with
      | accept => cases hof
      | handler obj' op =>
          obtain rfl : obj' = obj := beq_iff_eq.1 hof
          have hstill : (s.delete obj' c).run.callback fd = some (.handler obj' op) := by
            simp only [FreeProcess.delete, Connection.callback_destroy, if_neg hother, hcb]
          have hgone := hlaw.stored fd obj' op hstill
          simp [FreeProcess.delete] at hgone
  | _ => trivial

theorem noDangling_init (h : (freeMachine Lq Lr maxEvents).init s) : s.NoDangling := by
  obtain ⟨k, -, rfl⟩ := h
  refine ⟨fun fd obj op hcb => ?_, by simp⟩
  have hempty : (∅ : ThreadSafeMap ℤ Closure).get fd = some (.handler obj op) := hcb
  simp at hempty

/-! ## No operation stranded -/

/-- No operation has been stranded, and the handlers stored are of operations started. -/
structure Prompt (s : FreeProcess Lq Lr) : Prop where
  law : s.NoneStranded
  lt : ∀ fd obj op, s.run.callback fd = some (.handler obj op) → op < s.started

/-- **A handler takes care of its operation**, whatever `epoll_ctl` answers. -/
theorem settled_handle {run : RunState Closure} {obj op : ℕ} {c : Connection Lq Lr}
    {ev : EpollEvent} {a : Answers} {granted : Bool}
    (hcb : run.callback ev.fd = some (.handler obj op)) :
    Settled obj op ev.fd (c.handleEvent ev a).1 (c.handleEvent ev a).2
      (run.perform (.handler obj op) granted (c.handleEvent ev a).2) := by
  by_cases hcalls : CallsBack (c.handleEvent ev a).2 = true
  · refine Or.inl ⟨hcalls, fun hrefused => ?_⟩
    exact Connection.handleEvent_rearms (RunState.refused_perform hrefused) hcalls
  · right
    have htrace : HandlerTrace c.socket (c.handleEvent ev a).2 := Connection.handleEvent_trace
    generalize (c.handleEvent ev a).2 = effs at htrace hcalls
    cases htrace with
    | waits hquiet => exact Performed.keep_foldl hquiet hcb
    | ends => simp [CallsBack, Effect.IsCallback] at hcalls

/-- **The call that starts an operation takes care of it** exactly if the descriptor it tracks can
    be added to epoll. -/
theorem settled_start_iff {run : RunState Closure} {obj op : ℕ} {c : Connection Lq Lr}
    {o : Operation} {r : Connection Lq Lr × List Effect} {granted : Bool} (hs : c.Starts o r)
    (hnew : ∀ fd, run.callback fd ≠ some (.handler obj op)) :
    Settled obj op r.1.socket r.1 r.2 (run.perform (.handler obj op) granted r.2) ↔
      ∀ fd ∈ o.tracks c, run.CanAdd fd granted := by
  cases hs with
  | @atOnce c' effs htracks hcalls =>
      refine iff_of_true (Or.inl ⟨by simp [CallsBack, Effect.IsCallback], fun hrefused => ?_⟩) ?_
      · -- nothing was asked of `epoll_ctl`
        obtain ⟨e, he, hreg⟩ := RunState.refused_perform hrefused
        rcases List.mem_append.1 he with he | he
        · have hcall := hcalls e he
          cases e <;> first
            | exact hreg.elim
            | exact hcall.elim
        · obtain rfl := List.mem_singleton.1 he
          exact hreg.elim
      · rw [htracks]
        intro fd hfd
        cases hfd
  | @registers c' effs mask priority htracks hcalls =>
      have hno : CallsBack (effs ++ [Effect.addTrack c'.socket mask priority]) = false := by
        rw [callsBack_append, Effect.not_callback_of_isCall hcalls]
        rfl
      rw [htracks]
      simp only [Settled, hno, Bool.false_eq_true, false_and, false_or, Option.mem_some_iff,
        forall_eq']
      exact RunState.callback_perform_addTrack hcalls (hnew _)

theorem Prompt.idles (h : s.Prompt) (ht : s.Idles t) : t.Prompt where
  law obj op settled hmem := h.law obj op settled (ht.log ▸ hmem)
  lt fd obj op hcb := ht.started ▸ h.lt fd obj op (ht.callback fd obj op hcb)

theorem Prompt.handle (h : s.Prompt) {obj op : ℕ} {ev : EpollEvent} {a : Answers} {granted : Bool}
    (hcb : s.run.callback ev.fd = some (.handler obj op)) :
    (s.handle obj op ev a granted).Prompt := by
  cases hc : s.heap obj with
  | none =>
      rw [FreeProcess.handle, hc]
      refine ⟨fun obj' op' settled hmem => ?_, h.lt⟩
      exact h.law obj' op' settled ((List.mem_cons.1 hmem).resolve_left nofun)
  | some c =>
      rw [FreeProcess.handle, hc]
      constructor
      · intro obj' op' settled hmem
        rcases List.mem_cons.1 hmem with he | hmem
        · obtain ⟨-, -, rfl⟩ := Report.returned.inj he
          exact decide_eq_true (settled_handle hcb)
        · exact h.law obj' op' settled ((List.mem_cons.1 hmem).resolve_left nofun)
      · intro fd obj' op' hstored
        rcases RunState.callback_perform hstored with hold | hnew
        · exact h.lt fd obj' op' hold
        · obtain ⟨rfl, rfl⟩ := Closure.handler.inj hnew
          exact h.lt ev.fd obj' op' hcb

/-- The operation started is a new one. -/
theorem Prompt.callback_new (h : s.Prompt) (op : Operation) (obj : ℕ) (fd : ℤ) :
    (s.opened op).callback fd ≠ some (.handler obj s.started) := by
  intro hcb
  rw [callback_opened] at hcb
  exact Nat.lt_irrefl _ (h.lt fd obj s.started hcb)

theorem Prompt.start (h : s.Prompt) {obj : ℕ} {op : Operation} {granted : Bool}
    {c : Connection Lq Lr} {r : Connection Lq Lr × List Effect} (hc : s.heap obj = some c)
    (hs : c.Starts op r) (hG : s.Registrable (.start obj op granted)) :
    (s.start obj op granted r).Prompt where
  law obj' op' settled hmem := by
    rcases List.mem_cons.1 hmem with he | hmem
    · obtain ⟨-, -, rfl⟩ := Report.returned.inj he
      exact decide_eq_true ((settled_start_iff hs (h.callback_new op obj)).2 (hG c hc))
    · exact h.law obj' op' settled hmem
  lt fd obj' op' hstored := by
    show op' < s.started + 1
    rcases RunState.callback_perform hstored with hold | hnew
    · exact Nat.lt_succ_of_lt (h.lt fd obj' op' (callback_opened s op fd ▸ hold))
    · obtain ⟨-, rfl⟩ := Closure.handler.inj hnew
      exact Nat.lt_succ_self _

theorem Prompt.delete (h : s.Prompt) {obj : ℕ} {c : Connection Lq Lr} :
    (s.delete obj c).Prompt where
  law := h.law
  lt fd obj' op hcb := by
    simp only [FreeProcess.delete, Connection.callback_destroy] at hcb
    split at hcb
    · cases hcb
    · exact h.lt fd obj' op hcb

theorem Prompt.next (h : s.Prompt) (hG : s.Registrable l) (ht : s.next l = some t) : t.Prompt := by
  cases next_outcome ht with
  | idles hidles => exact h.idles hidles
  | handles hidles hcb => exact (h.idles hidles).handle hcb
  | starts hc hs => exact h.start hc hs hG
  | deletes => exact h.delete

/-- An operation that cannot be registered when it is started is stranded. -/
theorem Prompt.registrable (h : s.Prompt) (ht : s.next l = some t) (hlaw : t.NoneStranded) :
    s.Registrable l := by
  cases l with
  | start obj op granted =>
      obtain ⟨⟨-, hdoc, -⟩, ht⟩ := Option.ite_none_right_eq_some.1 ht
      obtain ⟨r, hr, rfl⟩ := Option.map_eq_some_iff.1 ht
      obtain ⟨c, hc, hstart⟩ := Option.bind_eq_some_iff.1 hr
      have hsettled := of_decide_eq_true (hlaw obj s.started _ List.mem_cons_self)
      intro c' hc'
      obtain rfl : c' = c := Option.some.inj (hc'.symm.trans hc)
      have hs := Connection.start_starts hstart hdoc
      exact (settled_start_iff hs (h.callback_new op obj)).1 hsettled
  | _ => trivial

theorem prompt_init (h : (freeMachine Lq Lr maxEvents).init s) : s.Prompt := by
  obtain ⟨k, -, rfl⟩ := h
  refine ⟨fun obj op settled hmem => by simp at hmem, fun fd obj op hcb => ?_⟩
  have hempty : (∅ : ThreadSafeMap ℤ Closure).get fd = some (.handler obj op) := hcb
  simp at hempty

end FreeProcess

/-! ## Runs -/

/-- Nothing on the heap, and no descriptor open. -/
def emptyFree : FreeProcess headParser headParser :=
  ⟨⟨.new 8 .start, .outside, []⟩, fun _ => none, ∅, none, false, 0, 0, []⟩

/-- A server listens on 3. -/
def serve : List (FreeLabel headParser headParser) :=
  [.openFd 3, .listen 3 true, .loop .enter]

/-- A new client on `fd` is handed to the user. -/
def acceptClient (fd : ℤ) (connectionId : String) : List (FreeLabel headParser headParser) :=
  [.loop (.wait [⟨epollIn, 3⟩]),
    .dispatch (.listenSock, ⟨epollIn, 3⟩)
      { noAnswers with accepted := some (fd, connectionId) } true]

theorem free_init : (freeMachine headParser headParser 8).init emptyFree := ⟨.start, rfl, rfl⟩

/-- **No dangling callbacks** in every state of a run, exactly if no object is deleted in it while a
    handler of it is stored that its destructor does not untrack. -/
theorem no_dangling_iff {maxEvents : ℕ} {tr : List (FreeProcess Lq Lr × FreeLabel Lq Lr)}
    {s : FreeProcess Lq Lr} (h : (freeMachine Lq Lr maxEvents).Run tr s) :
    Machine.Throughout FreeProcess.NoDangling tr s ↔ Machine.Guarded FreeProcess.Untracked tr :=
  h.law_iff_guard (fun _ hs => FreeProcess.noDangling_init hs) (fun _ hs => hs)
    (fun _ _ _ hs hG ht => hs.next hG ht) fun _ _ _ _ ht hlaw => hlaw.untracked ht

/-- A read is cut off by an error, and its object is deleted when the next client comes. -/
theorem no_dangling_served : ∃ tr s, (freeMachine headParser headParser 8).Run tr s ∧
    s.allocated = 2 ∧ (s.heap 0).isSome = false ∧
      Machine.Throughout FreeProcess.NoDangling tr s := by
  have hrun : (((freeMachine headParser headParser 8).restrict FreeProcess.Untracked).exec emptyFree
      (serve ++ acceptClient 7 "a" ++ [.start 0 .read true, .loop .finish,
        .loop (.wait [⟨epollErr, 7⟩]), .dispatch (.newSock, ⟨epollErr, 7⟩) noAnswers true,
        .loop .finish] ++ acceptClient 8 "b" ++ [.delete 0])).map
      (fun s => (s.allocated, (s.heap 0).isSome)) = some (2, false) := by decide +kernel
  obtain ⟨s, hs, hstate⟩ := Option.map_eq_some_iff.1 hrun
  obtain ⟨hallocated, hgone⟩ := Prod.mk.inj hstate
  obtain ⟨tr, htr, hG⟩ := Machine.exists_guarded_run free_init hs
  exact ⟨tr, s, htr, hallocated, hgone, (no_dangling_iff htr).2 hG⟩

/-- Two clients are being read from, and both have an event in the same batch. The first event is an
    error; the user deletes the second client in the callback. Its handler stays in the reactor and
    is run for the event that is still queued. -/
theorem deleted_while_reading : ∃ s, (freeMachine headParser headParser 8).Reachable s ∧
    (s.heap 1).isSome = false ∧ s.run.callback 8 = some (.handler 1 1) ∧
    .handled 1 false ∈ s.log ∧ ¬ s.NoDangling := by
  have hrun : ((freeMachine headParser headParser 8).exec emptyFree
      (serve ++ acceptClient 7 "a" ++ [.start 0 .read true, .loop .finish] ++ acceptClient 8 "b" ++
        [.start 1 .read true, .loop .finish, .loop (.wait [⟨epollErr, 7⟩, ⟨epollIn, 8⟩]),
        .dispatch (.newSock, ⟨epollErr, 7⟩) noAnswers true, .delete 1, .loop .finish,
        .dispatch (.newSock, ⟨epollIn, 8⟩) noAnswers true])).map
      (fun s => ((s.heap 1).isSome, s.run.callback 8, decide (.handled 1 false ∈ s.log))) =
      some (false, some (.handler 1 1), true) := by decide +kernel
  obtain ⟨s, hs, hstate⟩ := Option.map_eq_some_iff.1 hrun
  simp only [Prod.mk.injEq, decide_eq_true_eq] at hstate
  obtain ⟨hgone, hstored, hrun⟩ := hstate
  refine ⟨s, (Machine.Reachable.start free_init).exec hs, hgone, hstored, hrun, fun hlaw => ?_⟩
  exact absurd (hlaw.handled 1 false hrun) (by simp)

/-- **No operation is stranded** in a run exactly if each operation started in it can register the
    descriptor it tracks. -/
theorem none_stranded_iff {maxEvents : ℕ} {tr : List (FreeProcess Lq Lr × FreeLabel Lq Lr)}
    {s : FreeProcess Lq Lr} (h : (freeMachine Lq Lr maxEvents).Run tr s) :
    Machine.Throughout FreeProcess.NoneStranded tr s ↔ Machine.Guarded FreeProcess.Registrable tr :=
  h.law_iff_guard (fun _ hs => FreeProcess.prompt_init hs) (fun _ hs => hs.law)
    (fun _ _ _ hs hG ht => hs.next hG ht) fun _ _ _ hs ht hlaw => hs.registrable ht hlaw

/-- A request is read and answered. -/
theorem none_stranded_served : ∃ tr s, (freeMachine headParser headParser 8).Run tr s ∧
    s.started = 2 ∧ Machine.Throughout FreeProcess.NoneStranded tr s := by
  have hrun : (((freeMachine headParser headParser 8).restrict FreeProcess.Registrable).exec
      emptyFree (serve ++ acceptClient 7 "a" ++ [.start 0 .read true, .loop .finish,
        .loop (.wait [⟨epollIn, 7⟩]),
        .dispatch (.newSock, ⟨epollIn, 7⟩) { noAnswers with recvs := [wholeRequest] } true,
        .start 0 .write true])).map (fun s => s.started) = some 2 := by decide +kernel
  obtain ⟨s, hs, hstarted⟩ := Option.map_eq_some_iff.1 hrun
  obtain ⟨tr, htr, hG⟩ := Machine.exists_guarded_run free_init hs
  exact ⟨tr, s, htr, hstarted, (none_stranded_iff htr).2 hG⟩

/-- While a client is being read from, the user starts to write. Epoll already has the socket, so
    `addTrack` returns -1: the write is neither called back nor stored. -/
theorem write_beside_read : ∃ s, (freeMachine headParser headParser 8).Reachable s ∧
    s.run.callback 7 = some (.handler 0 0) ∧ .returned 0 1 false ∈ s.log ∧ ¬ s.NoneStranded := by
  have hrun : ((freeMachine headParser headParser 8).exec emptyFree
      (serve ++ acceptClient 7 "a" ++ [.start 0 .read true, .start 0 .write true])).map
      (fun s => (s.run.callback 7, decide (.returned 0 1 false ∈ s.log))) =
      some (some (.handler 0 0), true) := by decide +kernel
  obtain ⟨s, hs, hstate⟩ := Option.map_eq_some_iff.1 hrun
  simp only [Prod.mk.injEq, decide_eq_true_eq] at hstate
  obtain ⟨hstored, hreturned⟩ := hstate
  refine ⟨s, (Machine.Reachable.start free_init).exec hs, hstored, hreturned, fun hlaw => ?_⟩
  exact absurd (hlaw 0 1 false hreturned) (by simp)

end FiberConn
