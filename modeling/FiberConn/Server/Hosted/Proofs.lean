import FiberConn.Client
import FiberConn.DbPooler.Driver.Proofs
import FiberConn.Lifetimes.Proofs
import FiberConn.Server.Hosted
import FiberConn.Server.Rest

set_option autoImplicit false

/-! # The reactor runs the server

What is stored for a client belongs to its one operation, and a waiting event is one that the
operation asked for: a descriptor is registered anew only after its event has been taken from the
queue. So `runCallback` does steps of `Server`, and nothing else does (`hosted_refines`). -/

namespace FiberConn

open Machine

/-! ## The reactor -/

namespace Kernel

variable {k k' : Kernel} {fd fd' : ℤ}

/-- A descriptor is not of interest any more. -/
theorem lookup_untracked
    (h : k'.interest = k.interest.erase fd ∨ k' = k ∧ fd ∉ k.interest.keys) :
    k'.interest.lookup fd' = if fd' = fd then none else k.interest.lookup fd' := by
  obtain herase | ⟨rfl, hno⟩ := h
  · rw [herase]
    split
    · next heq => rw [heq, Finmap.lookup_erase]
    · next hne => exact Finmap.lookup_erase_ne hne
  · split
    · next heq =>
        rw [heq, Finmap.lookup_eq_none, ← Finmap.mem_keys]
        exact hno
    · rfl

theorem lookup_removeEpollInterest : (k.removeEpollInterest fd).1.interest.lookup fd' =
    if fd' = fd then none else k.interest.lookup fd' := by
  refine lookup_untracked ?_
  unfold removeEpollInterest
  split
  · exact Or.inl rfl
  · next hno => exact Or.inr ⟨rfl, hno⟩

theorem lookup_closeConnection : (k.closeConnection fd).1.interest.lookup fd' =
    if fd' = fd then none else k.interest.lookup fd' := by
  refine lookup_untracked ?_
  unfold closeConnection
  split
  · exact Or.inl rfl
  · next hno => exact Or.inr ⟨rfl, fun hi => hno (k.interest_open hi)⟩

end Kernel

namespace RunState

variable {κ : Type} {s : RunState κ} {cb : κ} {granted : Bool} {fd : ℤ}

/-- The mask a descriptor is registered with. -/
def interest (s : RunState κ) (fd : ℤ) : Option EventMask := s.ioc.kernel.interest.lookup fd

theorem interest_eq_none : s.interest fd = none ↔ fd ∉ s.ioc.kernel.interest.keys := by
  rw [interest, Finmap.lookup_eq_none, Finmap.mem_keys]

/-- A handler that registers nothing untracks its descriptor when it calls back. -/
theorem perform_handler {effs : List Effect} (ht : HandlerTrace fd effs)
    (hreg : ∀ e ∈ effs, ¬ e.Registers) :
    (s.perform cb granted effs).run =
      if CallsBack effs = true then s.act (.removeTrack fd) else s := by
  have hcalls {effs : List Effect} (hq : ∀ e ∈ effs, e.Quiet fd)
      (hreg : ∀ e ∈ effs, ¬ e.Registers) : ∀ e ∈ effs, e.IsCall := by
    intro e he
    have hquiet := hq e he
    have hno := hreg e he
    cases e with
    | recv => trivial
    | send => trivial
    | pq call =>
        cases call with
        | finish => exact hquiet.elim
        | _ => trivial
    | modifyTrack => exact absurd trivial hno
    | _ => exact hquiet.elim
  cases ht with
  | waits hq =>
      have hcall := hcalls hq hreg
      rw [Effect.not_callback_of_isCall hcall, perform, Performed.foldl_calls hcall]
      rfl
  | @ends before after hb ha =>
      have hbefore := hcalls hb fun e he => hreg e (List.mem_append_left _ he)
      have hcb : CallsBack (before ++ .removeTrack fd :: (after ++ [.callback])) = true := by
        simp [CallsBack, Effect.IsCallback]
      rw [if_pos hcb, perform, List.foldl_append, Performed.foldl_calls hbefore, List.foldl_cons,
        List.foldl_append, Performed.foldl_calls ha]
      rfl

theorem waiting_act (a : Action κ) : (s.act a).waiting = s.waiting := by
  have hqueue := a.run_queue s.ioc
  unfold waiting act
  dsimp only
  rw [hqueue]

theorem interest_removeTrack {fd' : ℤ} : (s.act (.removeTrack fd)).interest fd' =
    if fd' = fd then none else s.interest fd' := Kernel.lookup_removeEpollInterest

theorem interest_closeFd {fd' : ℤ} : (s.act (.closeFd fd)).interest fd' =
    if fd' = fd then none else s.interest fd' := Kernel.lookup_closeConnection

/-- If `addTrack` returns -1, nothing is stored. -/
theorem addTrack_of_not_tracks {mask : EventMask} {priority : EventPriority}
    (h : s.tracks fd mask granted = false) :
    (s.act (.addTrack fd mask priority cb granted)).ioc = s.ioc := by
  have hrefused : (s.ioc.kernel.addEpollInterest fd mask granted).2 = -1 := by
    simpa [tracks] using h
  show (s.ioc.addTrack fd mask priority cb granted).1 = s.ioc
  rw [IOReactor.addTrack, if_pos hrefused]

/-- The event that is being handled is not among those that wait. -/
theorem not_waiting_of_handling {e : QueuedEvent} {found : Bool} (hph : s.phase = .handling e found)
    (hnodup : (s.ioc.eventQueue.map fun e => e.2.fd).Nodup) (he : e ∈ s.ioc.eventQueue) :
    ∀ x ∈ s.waiting, x.2.fd ≠ e.2.fd := by
  intro x hx heq
  have hx : x ∈ s.ioc.eventQueue.erase e := by simpa [waiting, hph] using hx
  have hsame : x = e := List.inj_on_of_nodup_map hnodup (List.mem_of_mem_erase hx) he heq
  rw [hsame] at hx
  exact List.Nodup.not_mem_erase (List.Nodup.of_map _ hnodup) hx

end RunState

namespace Server

variable {J : Json} {L : Llhttp} {run run' : RunState ServerClosure} {s t : Server J L}

/-! ## What is stored -/

/-- What holds of the reactor and the server between steps. -/
structure Wired (run : RunState ServerClosure) (s : Server J L) : Prop where
  client : ∀ fd client op, run.callback fd = some (.client client op) →
    s.outstanding client = some op ∧ ∃ c, s.clients client = some c ∧ c.socket = fd
  mask : ∀ fd client op mask, run.callback fd = some (.client client op) →
    run.interest fd = some mask → mask = op.mask
  /-- The descriptor of a waiting event is registered. -/
  queued : ∀ e ∈ run.waiting, (run.interest e.2.fd).isSome
  nodup : (run.ioc.eventQueue.map fun e => e.2.fd).Nodup
  reports : ∀ e ∈ run.waiting, ∀ client op, run.callback e.2.fd = some (.client client op) →
    op.Reports e.2

/-- Nothing changes for a client with a stored function. -/
theorem Wired.keep (h : s.Wired run) (hkeep : ∀ fd client op,
    run.callback fd = some (.client client op) → t.outstanding client = s.outstanding client ∧
      ∀ c, s.clients client = some c → ∃ c', t.clients client = some c' ∧ c'.socket = c.socket) :
    t.Wired run := by
  refine ⟨fun fd client op hcb => ?_, h.mask, h.queued, h.nodup, h.reports⟩
  obtain ⟨hout, c, hc, hsocket⟩ := h.client fd client op hcb
  obtain ⟨hsame, hclients⟩ := hkeep fd client op hcb
  obtain ⟨c', hc', hsocket'⟩ := hclients c hc
  exact ⟨hsame.trans hout, c', hc', hsocket'.trans hsocket⟩

/-- The reactor's tables stay, and no event is added. -/
theorem Wired.same (h : s.Wired run) (hcb : ∀ fd, run'.callback fd = run.callback fd)
    (hint : ∀ fd, run'.interest fd = run.interest fd) (hwait : run'.waiting ⊆ run.waiting)
    (hqueue : run'.ioc.eventQueue.Sublist run.ioc.eventQueue) : s.Wired run' := by
  refine ⟨fun fd client op hx => h.client fd client op (hcb fd ▸ hx),
    fun fd client op mask hx hm => h.mask fd client op mask (hcb fd ▸ hx) (hint fd ▸ hm),
    fun e he => hint _ ▸ h.queued e (hwait he), h.nodup.sublist (hqueue.map _),
    fun e he client op hx => h.reports e (hwait he) client op (hcb _ ▸ hx)⟩

theorem Wired.not_registered (h : s.Wired run) {fd : ℤ} (hfd : run.interest fd = none) :
    ∀ e ∈ run.waiting, e.2.fd ≠ fd := by
  rintro e he rfl
  have hsome := h.queued e he
  rw [hfd] at hsome
  cases hsome

/-- What a function must be about to be stored under a descriptor. -/
def Stores (s : Server J L) (fd : ℤ) (mask : EventMask) (cb : ServerClosure) : Prop :=
  ∀ client op, cb = .client client op → s.outstanding client = some op ∧
    (∃ c, s.clients client = some c ∧ c.socket = fd) ∧ mask = op.mask

theorem stores_other {fd : ℤ} {mask : EventMask} : s.Stores fd mask .other :=
  fun _ _ hcb => nomatch hcb

theorem stores_accept {fd : ℤ} {mask : EventMask} : s.Stores fd mask .accept :=
  fun _ _ hcb => nomatch hcb

/-- A function is stored under a descriptor that is not registered, or its own is replaced. -/
theorem Wired.record (h : s.Wired run) {fd : ℤ} {mask : EventMask} {cb : ServerClosure}
    (hstores : s.Stores fd mask cb) (hquiet : ∀ e ∈ run.waiting, e.2.fd = fd → ∀ client op,
      cb ≠ .client client op)
    (hcb : ∀ fd', run'.callback fd' = if fd' = fd then some cb else run.callback fd')
    (hint : ∀ fd', run'.interest fd' = if fd' = fd then some mask else run.interest fd')
    (hwait : run'.waiting = run.waiting) (hqueue : run'.ioc.eventQueue = run.ioc.eventQueue) :
    s.Wired run' := by
  refine ⟨fun fd' client op hx => ?_, fun fd' client op mask' hx hm => ?_, fun e he => ?_,
    hqueue ▸ h.nodup, fun e he client op hx => ?_⟩
  · rw [hcb] at hx
    split at hx
    · next heq =>
        obtain ⟨hout, hc, -⟩ := hstores client op (Option.some.inj hx)
        exact heq ▸ ⟨hout, hc⟩
    · exact h.client fd' client op hx
  · rw [hcb] at hx
    rw [hint] at hm
    split at hx
    · next heq =>
        rw [if_pos heq] at hm
        exact (Option.some.inj hm).symm.trans (hstores client op (Option.some.inj hx)).2.2
    · next hne =>
        rw [if_neg hne] at hm
        exact h.mask fd' client op mask' hx hm
  · rw [hint]
    split
    · rfl
    · exact h.queued e (hwait ▸ he)
  · rw [hwait] at he
    rw [hcb] at hx
    split at hx
    · next heq => exact absurd (Option.some.inj hx) (hquiet e he heq client op)
    · exact h.reports e he client op hx

/-- A descriptor is taken away that has no event waiting. -/
theorem Wired.release (h : s.Wired run) {fd : ℤ} (hquiet : ∀ e ∈ run.waiting, e.2.fd ≠ fd)
    (hcb : ∀ fd' x, run'.callback fd' = some x → run.callback fd' = some x)
    (hint : ∀ fd', run'.interest fd' = if fd' = fd then none else run.interest fd')
    (hwait : run'.waiting = run.waiting) (hqueue : run'.ioc.eventQueue = run.ioc.eventQueue) :
    s.Wired run' := by
  refine ⟨fun fd' client op hx => h.client fd' client op (hcb _ _ hx),
    fun fd' client op mask hx hm => ?_, fun e he => ?_, hqueue ▸ h.nodup,
    fun e he client op hx => h.reports e (hwait ▸ he) client op (hcb _ _ hx)⟩
  · rw [hint] at hm
    split at hm
    · cases hm
    · exact h.mask fd' client op mask (hcb _ _ hx) hm
  · rw [hwait] at he
    rw [hint, if_neg (hquiet e he)]
    exact h.queued e he

/-- `epoll_ctl` refuses. -/
theorem Wired.unchanged (h : s.Wired run) (hioc : run'.ioc = run.ioc)
    (hwait : run'.waiting = run.waiting) : s.Wired run' := by
  refine h.same (fun fd => ?_) (fun fd => ?_) (hwait ▸ List.Subset.refl _) ?_
  · rw [RunState.callback, hioc]
    rfl
  · rw [RunState.interest, hioc]
    rfl
  · rw [hioc]

/-- `epoll_ctl` grants. -/
theorem Wired.recorded (h : s.Wired run) {fd : ℤ} {mask : EventMask} {priority : EventPriority}
    {cb : ServerClosure} {k : Kernel} (hstores : s.Stores fd mask cb)
    (hquiet : ∀ e ∈ run.waiting, e.2.fd = fd → ∀ client op, cb ≠ .client client op)
    (hk : k.interest = run.ioc.kernel.interest.insert fd mask)
    (hioc : run'.ioc = run.ioc.record k fd priority cb) (hwait : run'.waiting = run.waiting) :
    s.Wired run' := by
  refine h.record hstores hquiet (fun fd' => ?_) (fun fd' => ?_) hwait (by rw [hioc]; rfl)
  · rw [RunState.callback, hioc]
    exact ThreadSafeMap.get_insert
  · rw [RunState.interest, hioc, IOReactor.record]
    dsimp only
    rw [hk]
    split
    · next heq => rw [heq, Finmap.lookup_insert]
    · next hne => exact Finmap.lookup_insert_of_ne _ hne

theorem Wired.addTrack (h : s.Wired run) {fd : ℤ} {mask : EventMask} {priority : EventPriority}
    {cb : ServerClosure} {granted : Bool} (hstores : s.Stores fd mask cb) :
    s.Wired (run.act (.addTrack fd mask priority cb granted)) := by
  have hioc : (run.act (.addTrack fd mask priority cb granted)).ioc =
      (run.ioc.addTrack fd mask priority cb granted).1 := rfl
  have hwait := RunState.waiting_act (s := run) (.addTrack fd mask priority cb granted)
  rcases run.ioc.addTrack_cases fd mask priority cb granted with he | ⟨hnew, k, hk, -, he⟩
  · rw [he] at hioc
    exact h.unchanged hioc hwait
  · rw [he] at hioc
    refine h.recorded hstores (fun e hq heq => ?_) hk hioc hwait
    exact absurd heq (h.not_registered (RunState.interest_eq_none.2 hnew) e hq)

theorem Wired.asyncAccept (h : s.Wired run) {fd : ℤ} {cb : ServerClosure} {granted : Bool}
    (hstores : s.Stores fd epollIn cb) : s.Wired (run.act (.asyncAccept fd cb granted)) := by
  have hadd : s.Wired (run.act (.addTrack fd epollIn .listenSock cb granted)) :=
    h.addTrack hstores
  exact hadd.unchanged rfl ((RunState.waiting_act _).trans (RunState.waiting_act _).symm)

/-- The rest of the program replaces a function. -/
theorem Wired.modifyTrack (h : s.Wired run) {fd : ℤ} {mask : EventMask} {priority : EventPriority}
    {granted : Bool} : s.Wired (run.act (.modifyTrack fd mask priority .other granted)) := by
  have hioc : (run.act (.modifyTrack fd mask priority .other granted)).ioc =
      (run.ioc.modifyTrack fd mask priority .other granted).1 := rfl
  have hwait := RunState.waiting_act (s := run) (.modifyTrack fd mask priority .other granted)
  rcases run.ioc.modifyTrack_cases fd mask priority .other granted with he | ⟨-, k, hk, -, he⟩
  · rw [he] at hioc
    exact h.unchanged hioc hwait
  · rw [he] at hioc
    exact h.recorded stores_other (fun _ _ _ _ _ hcb => nomatch hcb) hk hioc hwait

theorem Wired.removeTrack (h : s.Wired run) {fd : ℤ}
    (hquiet : ∀ e ∈ run.waiting, e.2.fd ≠ fd) : s.Wired (run.act (.removeTrack fd)) := by
  refine h.release hquiet (fun fd' x hx => ?_) (fun _ => RunState.interest_removeTrack)
    (RunState.waiting_act _) (Action.run_queue _ _)
  rw [RunState.callback_removeTrack] at hx
  split at hx
  · cases hx
  · exact hx

theorem Wired.closeFd (h : s.Wired run) {fd : ℤ}
    (hquiet : ∀ e ∈ run.waiting, e.2.fd ≠ fd) : s.Wired (run.act (.closeFd fd)) :=
  h.release hquiet (fun _ _ hx => hx) (fun _ => RunState.interest_closeFd)
    (RunState.waiting_act _) (Action.run_queue _ _)

/-! ## The lambdas -/

section Lambdas

variable {client : ℕ} {c : Clientconnection L} {granted : Bool}

/-- The calls of the lambda given to `read`, with what it does. -/
theorem onRead_calls (s : Server J L) (client : ℕ) (c : Clientconnection L) (granted : Bool) :
    onReadCalls J c = c.destroy ∧ s.onRead client c granted = s.delete client ∨
    (onReadCalls J c = c.write ∧
      ∃ body, s.onRead client c granted = s.respond client c body granted) ∨
    onReadCalls J c = [] ∧
      ((∃ query, s.onRead client c granted = s.sendQuery query c.connectionId .inserted) ∨
        ∃ f, s.onRead client c granted = s.fail f) := by
  unfold onReadCalls onRead
  cases c.isError with
  | true => exact Or.inl ⟨rfl, rfl⟩
  | false =>
  by_cases hurl : c.request.url = ascii "/"
  · rw [if_neg Bool.false_ne_true, if_pos hurl, if_neg Bool.false_ne_true, if_pos hurl]
    cases J.parse c.request.body with
    | none => exact Or.inr (Or.inl ⟨rfl, [], rfl⟩)
    | some j =>
        dsimp only
        cases J.book j with
        | none => exact Or.inr (Or.inr ⟨rfl, Or.inr ⟨.exception, rfl⟩⟩)
        | some book =>
            cases J.dump j with
            | none => exact Or.inr (Or.inr ⟨rfl, Or.inr ⟨.exception, rfl⟩⟩)
            | some body => exact Or.inr (Or.inl ⟨rfl, body, rfl⟩)
  · rw [if_neg Bool.false_ne_true, if_neg hurl, if_neg Bool.false_ne_true, if_neg hurl]
    cases J.parse c.request.body with
    | none => exact Or.inl ⟨rfl, rfl⟩
    | some j =>
        dsimp only
        cases J.book j with
        | none => exact Or.inr (Or.inr ⟨rfl, Or.inr ⟨.exception, rfl⟩⟩)
        | some book => exact Or.inr (Or.inr ⟨rfl, Or.inl ⟨_, rfl⟩⟩)

/-- Whom the lambda of a query writes to, with what it does. -/
theorem runQuery_calls (s : Server J L) (conn : ℕ) (granted : Bool) (cb : QueryCallback) :
    (∃ client c body, s.queryClient conn cb = some (client, c) ∧ s.clients client = some c ∧
      s.runQuery conn granted cb = s.respond client c body granted) ∨
    s.queryClient conn cb = none ∧ (s.runQuery conn granted cb = s ∨
      (∃ query connectionId cb',
        s.runQuery conn granted cb = s.sendQuery query connectionId cb') ∨
      ∃ f, s.runQuery conn granted cb = s.fail f) := by
  have hreturns (hs : ∀ f : ℕ → Clientconnection L → Server J L, s.withParent conn f = s) :
      s.runQuery conn granted cb = s := by
    cases cb with
    | inserted => exact hs _
    | selected => exact hs _
  have hnobody (hs : s.selectedClient conn = none) : s.queryClient conn cb = none := by
    cases cb with
    | inserted => rfl
    | selected => exact hs
  cases herr : (s.pool.conns conn).isError with
  | true =>
      refine Or.inr ⟨hnobody (by rw [selectedClient, if_pos herr]), Or.inl (hreturns fun f => ?_)⟩
      rw [withParent, if_pos herr]
  | false =>
  have herr' : ¬ (s.pool.conns conn).isError = true := by rw [herr]; decide
  cases hparent : (s.pool.conns conn).getParent s.pool.isAlive with
  | none =>
      refine Or.inr ⟨hnobody ?_, Or.inl (hreturns fun f => ?_)⟩
      · rw [selectedClient, if_neg herr', hparent]
        rfl
      · rw [withParent, if_neg herr', hparent]
  | some client =>
  cases hc : s.clients client with
  | none =>
      have hfails (f : ℕ → Clientconnection L → Server J L) :
          s.withParent conn f = s.fail .dangling := by
        rw [withParent, if_neg herr', hparent]
        dsimp only
        rw [hc]
      refine Or.inr ⟨hnobody ?_, Or.inr (Or.inr ⟨.dangling, ?_⟩)⟩
      · rw [selectedClient, if_neg herr', hparent, Option.bind_some, hc]
        rfl
      · cases cb with
        | inserted => exact hfails _
        | selected => exact hfails _
  | some c =>
  have ho := runQuery_outcome hparent hc granted cb
  generalize s.runQuery conn granted cb = t at ho
  have hlisting : s.selectedClient conn =
      (J.listing (s.pool.conns conn).results).map fun _ => (client, c) := by
    rw [selectedClient, if_neg herr', hparent, Option.bind_some, hc, Option.bind_some]
  cases ho with
  | returns h => exact absurd h herr'
  | asks => exact Or.inr ⟨rfl, Or.inr (Or.inl ⟨_, _, _, rfl⟩)⟩
  | @responds body _ h =>
      refine Or.inl ⟨client, c, body, ?_, hc, rfl⟩
      rw [queryClient, hlisting, h]
      rfl
  | fails _ _ h =>
      refine Or.inr ⟨?_, Or.inr (Or.inr ⟨_, rfl⟩)⟩
      rw [queryClient, hlisting, h]
      rfl

/-- Nothing is stored for a client without an operation. -/
theorem Wired.not_stored (h : s.Wired run) (hout : s.outstanding client = none) (fd : ℤ)
    (op : ClientOp) : run.callback fd ≠ some (.client client op) := by
  intro hcb
  have hop := (h.client fd client op hcb).1
  rw [hout] at hop
  cases hop

/-- A client without an operation may change. -/
theorem Wired.change (h : s.Wired run) (hout : s.outstanding client = none)
    (hother : ∀ client' ≠ client, t.outstanding client' = s.outstanding client' ∧
      t.clients client' = s.clients client') : t.Wired run := by
  refine h.keep fun fd client' op hcb => ?_
  have hne : client' ≠ client := fun heq => h.not_stored (heq ▸ hout) fd op (heq ▸ hcb)
  obtain ⟨hsame, hclients⟩ := hother client' hne
  exact ⟨hsame, fun c hc => ⟨c, hclients.trans hc, rfl⟩⟩

/-- A client without an operation gets one, unless `epoll_ctl` refuses. -/
theorem Wired.track (h : s.Wired run) (op : ClientOp)
    {priority : EventPriority} (hout : s.outstanding client = none)
    (hop : t.outstanding = Function.update s.outstanding client
      (heldIf (run.tracks c.socket op.mask granted) op))
    (hc : t.clients = Function.update s.clients client (some c)) :
    t.Wired (run.act (.addTrack c.socket op.mask priority (.client client op) granted)) := by
  have hchanged : t.Wired run := h.change hout fun client' hne => by
    rw [hop, hc]
    exact ⟨Function.update_of_ne hne _ _, Function.update_of_ne hne _ _⟩
  cases htracks : run.tracks c.socket op.mask granted with
  | false =>
      exact hchanged.unchanged (RunState.addTrack_of_not_tracks htracks) (RunState.waiting_act _)
  | true =>
      refine hchanged.addTrack fun client' op' hcb => ?_
      obtain ⟨rfl, rfl⟩ := ServerClosure.client.inj hcb
      rw [hop, hc, htracks]
      exact ⟨Function.update_self .., ⟨c, Function.update_self .., rfl⟩, rfl⟩

theorem Wired.respond (h : s.Wired run) (body : Bytes)
    (hok : (s.respond client c body (run.tracks c.socket writeMask granted)).fault = none) :
    (s.respond client c body (run.tracks c.socket writeMask granted)).Wired
      (run.perform (.client client .write) granted c.write).run := by
  have hcalls : (run.perform (.client client .write) granted c.write).run =
      run.act (.addTrack c.socket writeMask .helperSock (.client client .write) granted) := rfl
  unfold Server.respond at hok ⊢
  split at hok
  case isFalse => cases hok
  next hout =>
  rw [if_pos hout, hcalls]
  exact h.track (c := { c with sendBuffer := c.sendBuffer ++ httpResponse body }) .write hout rfl
    rfl

theorem Wired.delete (h : s.Wired run) (hout : s.outstanding client = none)
    (hquiet : ∀ e ∈ run.waiting, e.2.fd ≠ c.socket) (hok : (s.delete client).fault = none) :
    (s.delete client).Wired (run.perform (.client client .write) granted c.destroy).run := by
  have hcalls : (run.perform (.client client .write) granted c.destroy).run =
      run.act (.closeFd c.socket) := rfl
  unfold Server.delete at hok ⊢
  split at hok
  case h_2 => cases hok
  next w hw =>
  rw [hcalls]
  refine Wired.closeFd (h.change hout fun client' hne => ?_) hquiet
  exact ⟨rfl, Function.update_of_ne hne _ _⟩

theorem Wired.lambda (h : s.Wired run) (hout : s.outstanding client = none)
    (hquiet : ∀ e ∈ run.waiting, e.2.fd ≠ c.socket) (op : ClientOp)
    (hok : (s.run client c (run.tracks c.socket writeMask granted) op).fault = none) :
    (s.run client c (run.tracks c.socket writeMask granted) op).Wired
      (run.perform (.client client .write) granted (opCalls J c op)).run := by
  cases op with
  | read =>
      rw [Server.run] at hok ⊢
      rw [opCalls]
      obtain ⟨hcalls, ht⟩ | ⟨hcalls, body, ht⟩ | ⟨hcalls, ⟨query, ht⟩ | ⟨f, ht⟩⟩ :=
        onRead_calls s client c (run.tracks c.socket writeMask granted)
      · rw [ht] at hok ⊢
        rw [hcalls]
        exact h.delete hout hquiet hok
      · rw [ht] at hok ⊢
        rw [hcalls]
        exact h.respond body hok
      · rw [ht, hcalls]
        exact h.keep fun _ _ _ _ => ⟨rfl, fun c hc => ⟨c, hc, rfl⟩⟩
      · rw [ht] at hok
        cases hok
  | write =>
      have hnoted : (s.note (.written client c.isError)).Wired run :=
        h.keep fun _ _ _ _ => ⟨rfl, fun c hc => ⟨c, hc, rfl⟩⟩
      exact hnoted.delete hout hquiet hok

end Lambdas

/-! ## The loop -/

/-- What is reported for a registered operation is what it asked for. -/
theorem reports_of_reportedFor {op : ClientOp} {ev : EpollEvent} (h : ev.ReportedFor op.mask) :
    op.Reports ev := by
  cases op with
  | read => exact h.has_eq_false (by decide)
  | write => exact h.has_eq_false (by decide)

theorem Wired.wait (h : s.Wired run) {events : List EpollEvent} (hw : run.Waiting)
    (hrep : run.ioc.Reports events)
    (hhonest : ∀ ev ∈ events, ∀ mask ∈ run.interest ev.fd, ev.ReportedFor mask)
    (hioc : run'.ioc = run.ioc.pushEvents events) (hph : run'.phase = run.phase) :
    s.Wired run' := by
  have hcb (fd : ℤ) : run'.callback fd = run.callback fd := by
    rw [RunState.callback, hioc]
    rfl
  have hint (fd : ℤ) : run'.interest fd = run.interest fd := by
    rw [RunState.interest, hioc]
    rfl
  have hqueue : run'.ioc.eventQueue = events.map fun ev => (run.ioc.priorityOf ev, ev) := by
    rw [hioc, IOReactor.pushEvents, hw.2.1, List.nil_append]
  have hwaiting : run'.waiting = events.map fun ev => (run.ioc.priorityOf ev, ev) := by
    rw [RunState.waiting, hph, hw.1]
    exact hqueue
  have hregistered {ev : EpollEvent} (hev : ev ∈ events) : (run.interest ev.fd).isSome := by
    rw [Option.isSome_iff_ne_none, Ne, RunState.interest_eq_none, not_not]
    exact hrep.2.2 ev hev
  refine ⟨fun fd client op hx => h.client fd client op (hcb fd ▸ hx),
    fun fd client op mask hx hm => h.mask fd client op mask (hcb fd ▸ hx) (hint fd ▸ hm),
    fun e he => ?_, ?_, fun e he client op hx => ?_⟩
  · rw [hwaiting] at he
    obtain ⟨ev, hev, rfl⟩ := List.mem_map.1 he
    rw [hint]
    exact hregistered hev
  · rw [hqueue, List.map_map]
    exact hrep.2.1
  · rw [hwaiting] at he
    obtain ⟨ev, hev, rfl⟩ := List.mem_map.1 he
    obtain ⟨mask, hmask⟩ := Option.isSome_iff_exists.1 (hregistered hev)
    rw [hcb] at hx
    refine reports_of_reportedFor ?_
    rw [← h.mask _ client op mask hx hmask]
    exact hhonest ev hev mask hmask

theorem Wired.dispatch (h : s.Wired run) {e : QueuedEvent}
    (hn : run.next (.dispatch e) = some run') : s.Wired run' ∧ e ∈ run.waiting ∧
      run.phase = .loop ∧ (∃ found, run'.phase = .handling e found) ∧ run'.ioc = run.ioc ∧
      ∀ x ∈ run'.waiting, x.2.fd ≠ e.2.fd := by
  cases RunState.next_outcome hn with
  | dispatch hph htop =>
      have hwaiting := waiting_loop hph
      have hmem : e ∈ run.waiting := hwaiting ▸ htop.1
      refine ⟨?_, hmem, hph, ⟨_, rfl⟩, rfl, ?_⟩
      · refine h.same (fun _ => rfl) (fun _ => rfl) ?_ (List.Sublist.refl _)
        rw [hwaiting]
        exact List.erase_subset
      · exact RunState.not_waiting_of_handling rfl h.nodup htop.1

theorem Wired.loop (h : s.Wired run) {l : Label ServerClosure} (hl : l.IsLoop)
    (hn : run.next l = some run') (hhonest : ∀ events, l = .wait events → ∀ ev ∈ events,
      ∀ mask ∈ run.interest ev.fd, ev.ReportedFor mask) : s.Wired run' := by
  cases RunState.next_outcome hn with
  | enter hph =>
      refine h.same (fun _ => rfl) (fun _ => rfl) ?_ (List.Sublist.refl _)
      simp [RunState.waiting, hph]
  | wait hw hrep => exact h.wait hw hrep (hhonest _ rfl) rfl rfl
  | waitFailed hw =>
      refine h.same (fun _ => rfl) (fun _ => rfl) ?_ (List.Sublist.refl _)
      simp [RunState.waiting, hw.1]
  | dispatch => cases hl
  | act => cases hl
  | @finish e found hph =>
      refine h.same (fun _ => rfl) (fun _ => rfl) ?_ List.erase_sublist
      simp [RunState.waiting, hph, IOReactor.pop]
  | leave hph =>
      refine h.same (fun _ => rfl) (fun _ => rfl) ?_ (List.Sublist.refl _)
      simp [RunState.waiting, hph]

/-! ## New sockets -/

theorem Wired.withKernel (h : s.Wired run) {k : Kernel}
    (hk : ∀ fd, k.interest.lookup fd = run.interest fd) : s.Wired (run.withKernel k) :=
  h.same (fun _ => rfl) hk (List.Subset.refl _) (List.Sublist.refl _)

/-- A number that was not open is not registered. -/
theorem interest_accept {k : Kernel} {a : AcceptAnswers}
    (hfresh : ∀ fd ∈ a.accept, 0 ≤ fd ∧ fd ∉ k.openFds) (fd : ℤ) :
    (k.acceptConnection a).1.interest.lookup fd = k.interest.lookup fd := by
  unfold Kernel.acceptConnection
  split
  · rfl
  next newfd hnew =>
  dsimp only
  split
  · rfl
  split
  · rfl
  · rfl
  · -- the new descriptor is closed again
    have hno : newfd ∉ k.interest := fun hmem =>
      (hfresh newfd hnew).2 (k.interest_open (Finmap.mem_keys.2 hmem))
    rw [Kernel.lookup_closeConnection]
    split
    · next heq => rw [heq, Finmap.lookup_eq_none.2 hno]
    · rfl

theorem interest_getSocket {k : Kernel} {willReuse willBlock : Bool} {a : SocketAnswers} :
    (k.getSocket willReuse willBlock a).1.interest = k.interest := by
  unfold Kernel.getSocket
  split
  · rfl
  · dsimp only
    split
    · rfl
    split <;> rfl

end Server

namespace Hosted

variable {J : Json} {L : Llhttp} {s t : Hosted J L} {l : HostedLabel}

/-- What holds in every reachable state of a program that has not failed. -/
structure Hosting (s : Hosted J L) : Prop where
  wired : s.server.Wired s.run
  idle : s.run.phase = .loop → s.server.pool.stack = []

/-- The step is this one of `Server`, or none. -/
def Follows (s : Hosted J L) (l : Option ServerLabel) (t : Hosted J L) : Prop :=
  match l with
  | some l => s.server.next l = some t.server
  | none => t.server = s.server

theorem not_loop_of_userCode {run : RunState ServerClosure} (hu : run.UserCode) :
    run.phase ≠ .loop := by
  intro hph
  rw [RunState.UserCode, hph] at hu
  exact hu

/-! ## A handler of a client -/

section Handle

variable {client : ℕ} {op : ClientOp} {c : Clientconnection L} {ev : EpollEvent} {a : HostAnswers}
  {granted : Bool}

/-- The handler is a step of the server. -/
theorem handle_server (hfault : s.server.fault = none) (hs : s.server.pool.stack = [])
    (hop : s.server.outstanding client = some op) (hc : s.server.clients client = some c)
    (hr : op.Reports ev) : (s.handle client op ev a granted).map Hosted.server =
      s.server.next (.event client ev a.recvs a.sends (s.eventTracks client op ev a granted)) := by
  simp only [handle, eventTracks, Option.any_some, hc, Server.next, hfault, if_true, Server.step,
    hop, hs, hr, and_self]
  by_cases hh : HonestSends (c.handleEvent ev a.recvs a.sends).effects
  · rw [if_pos hh, if_pos hh]
    by_cases hcb : CallsBack (c.handleEvent ev a.recvs a.sends).effects = true
    · rw [if_pos hcb, if_pos hcb]
      rfl
    · rw [if_neg hcb, if_neg hcb]
      rfl
  · rw [if_neg hh, if_neg hh]
    rfl

theorem handle_wired (h : s.server.Wired s.run)
    (hcb : s.run.callback ev.fd = some (.client client op))
    (hc : s.server.clients client = some c) (hsocket : c.socket = ev.fd)
    (hquiet : ∀ e ∈ s.run.waiting, e.2.fd ≠ ev.fd)
    (ht : s.handle client op ev a granted = some t) (hok : t.server.fault = none) :
    t.server.Wired t.run := by
  have hsame : (c.handleEvent ev a.recvs a.sends).conn.socket = ev.fd :=
    Clientconnection.handleEvent_socket.trans hsocket
  have hperform : (s.run.perform (.client client op) granted
      (c.handleEvent ev a.recvs a.sends).effects).run =
        if CallsBack (c.handleEvent ev a.recvs a.sends).effects = true then
          s.run.act (.removeTrack c.socket) else s.run :=
    RunState.perform_handler Clientconnection.handleEvent_trace
      (c.handleEvent_registers ev a.recvs a.sends)
  simp only [handle, hc] at ht
  obtain ⟨-, ht⟩ := Option.ite_none_right_eq_some.1 ht
  by_cases hcalls : CallsBack (c.handleEvent ev a.recvs a.sends).effects = true
  · rw [if_pos hcalls] at ht hperform
    obtain rfl := Option.some.inj ht
    rw [hperform] at hok ⊢
    dsimp only
    refine Server.Wired.lambda ?_ (Function.update_self ..) ?_ op hok
    · refine Server.Wired.keep (h.removeTrack (hsocket ▸ hquiet)) fun fd client' op' hx => ?_
      rw [RunState.callback_removeTrack] at hx
      split at hx
      · cases hx
      next hfd =>
      have hne : client' ≠ client := by
        rintro rfl
        obtain ⟨-, c', hc', hsocket'⟩ := h.client fd client' op' hx
        obtain rfl := Option.some.inj (hc.symm.trans hc')
        exact hfd hsocket'.symm
      refine ⟨Function.update_of_ne hne _ _, fun c' hc' => ⟨c', ?_, rfl⟩⟩
      exact (Function.update_of_ne hne _ _).trans hc'
    · rw [hsame, RunState.waiting_act]
      exact hquiet
  · rw [if_neg hcalls] at ht hperform
    obtain rfl := Option.some.inj ht
    rw [hperform]
    refine h.keep fun fd client' op' hx => ⟨rfl, fun c' hc' => ?_⟩
    by_cases he : client' = client
    · subst he
      obtain rfl := Option.some.inj (hc.symm.trans hc')
      exact ⟨_, Function.update_self .., Clientconnection.handleEvent_socket⟩
    · exact ⟨c', (Function.update_of_ne he _ _).trans hc', rfl⟩

theorem handle_phase (ht : s.handle client op ev a granted = some t) :
    t.run.phase = s.run.phase := by
  unfold handle at ht
  split at ht
  · obtain rfl := Option.some.inj ht
    rfl
  obtain ⟨-, ht⟩ := Option.ite_none_right_eq_some.1 ht
  split at ht
  · obtain rfl := Option.some.inj ht
    exact RunState.phase_perform.trans RunState.phase_perform
  · obtain rfl := Option.some.inj ht
    exact RunState.phase_perform

end Handle

/-! ## A new client -/

theorem accept_cases {ev : EpollEvent} {a : HostAnswers} {granted : Bool}
    (ht : s.accept ev a granted = some t) :
    (¬ s.Brings ev a ∧ t.server = s.server ∧
      (t.run = s.run ∨ t.run = s.run.withKernel (s.run.ioc.kernel.acceptConnection a.accept).1)) ∨
    s.Brings ev a ∧ ∃ w, s.server.pool.next (.accept a.connectionId) = some w ∧
      t.server = s.server.welcome (s.run.ioc.kernel.acceptConnection a.accept).2 a.connectionId
        ((s.run.withKernel (s.run.ioc.kernel.acceptConnection a.accept).1).tracks
          (s.run.ioc.kernel.acceptConnection a.accept).2 readMask granted) w ∧
      t.run = (s.run.withKernel (s.run.ioc.kernel.acceptConnection a.accept).1).act
        (.addTrack (s.run.ioc.kernel.acceptConnection a.accept).2 readMask .newSock
          (.client s.server.pool.accepted .read) granted) := by
  unfold accept at ht
  split at ht
  · next herr =>
      obtain rfl := Option.some.inj ht
      exact Or.inl ⟨fun hb => absurd (herr.symm.trans hb.1) (by decide), rfl, Or.inl rfl⟩
  next herr =>
  split at ht
  case isFalse hin =>
    obtain rfl := Option.some.inj ht
    exact Or.inl ⟨fun hb => hin hb.2.1, rfl, Or.inl rfl⟩
  next hin =>
  dsimp only at ht
  split at ht
  · next hfd =>
      obtain rfl := Option.some.inj ht
      exact Or.inl ⟨fun hb => hb.2.2 hfd, rfl, Or.inr rfl⟩
  · next hfd =>
      obtain ⟨w, hw, rfl⟩ := Option.map_eq_some_iff.1 ht
      exact Or.inr ⟨⟨by simpa using herr, hin, hfd⟩, w, hw, rfl, rfl⟩

/-- The handler of the listening socket is a step of the server, or nothing for it. -/
theorem accept_server {ev : EpollEvent} {a : HostAnswers} {granted : Bool}
    (hfault : s.server.fault = none) (hs : s.server.pool.stack = [])
    (ht : s.accept ev a granted = some t) :
    s.Follows (s.closureLabel ev a granted .accept) t ∧ t.run.phase = s.run.phase := by
  obtain ⟨hno, hserver, hrun⟩ | ⟨hyes, w, hw, hserver, hrun⟩ := accept_cases ht
  · rw [closureLabel, if_neg hno]
    refine ⟨hserver, ?_⟩
    obtain hrun | hrun := hrun
    · rw [hrun]
    · rw [hrun]
      rfl
  · rw [closureLabel, if_pos hyes]
    refine ⟨?_, ?_⟩
    · show s.server.next _ = some t.server
      rw [Server.next, if_pos hfault, Server.step, if_pos hs, hw, hserver]
      rfl
    · rw [hrun]
      rfl

theorem accept_wired {ev : EpollEvent} {a : HostAnswers} {granted : Bool}
    (h : s.server.Wired s.run) (hnum : s.server.Numbered) (hfresh : s.Fresh a.accept.accept)
    (ht : s.accept ev a granted = some t) : t.server.Wired t.run := by
  have hkernel := h.withKernel (k := (s.run.ioc.kernel.acceptConnection a.accept).1)
    (Server.interest_accept hfresh)
  obtain ⟨-, hserver, hrun | hrun⟩ | ⟨-, w, -, hserver, hrun⟩ := accept_cases ht
  · rw [hserver, hrun]
    exact h
  · rw [hserver, hrun]
    exact hkernel
  · rw [hserver, hrun]
    exact hkernel.track (c := .new _ a.connectionId) .read (hnum.outstanding _ le_rfl) rfl rfl

/-! ## One step -/

theorem Hosting.dispatch (h : s.Hosting) (hnum : s.server.Numbered) (hfault : s.server.fault = none)
    {e : QueuedEvent} {a : HostAnswers} {granted : Bool}
    (ht : s.step (.dispatch e a granted) = some t) :
    s.Follows (s.serverLabel (.dispatch e a granted)) t ∧ (t.server.fault = none → t.Hosting) := by
  obtain ⟨hfresh, ht⟩ := Option.ite_none_right_eq_some.1 ht
  obtain ⟨run, hrun, ht⟩ := Option.bind_eq_some_iff.1 ht
  obtain ⟨hwired, hmem, hloop, ⟨found, hph⟩, hioc, hquiet⟩ := h.wired.dispatch hrun
  have hs := h.idle hloop
  have hbusy {t : Hosted J L} (hph' : t.run.phase = run.phase) (hw : t.server.Wired t.run) :
      t.Hosting := ⟨hw, fun hl => by rw [hph', hph] at hl; cases hl⟩
  rw [show s.serverLabel (.dispatch e a granted) = (s.run.ioc.runCallback e).bind
    ({ s with run := run }.closureLabel e.2 a granted) by rw [serverLabel, hrun, Option.bind_some]]
  cases hcb : s.run.ioc.runCallback e with
  | none =>
      rw [hcb] at ht
      obtain rfl := Option.some.inj ht
      exact ⟨rfl, fun _ => hbusy rfl hwired⟩
  | some x =>
  rw [hcb] at ht
  rw [Option.bind_some]
  cases x with
  | other =>
      obtain rfl := Option.some.inj ht
      exact ⟨rfl, fun _ => hbusy rfl hwired⟩
  | accept =>
      have ht : accept { s with run := run, foreign := false } e.2 a granted = some t := ht
      obtain ⟨hstep, hphase⟩ :=
        accept_server (s := { s with run := run, foreign := false }) hfault hs ht
      refine ⟨hstep, fun _ => hbusy hphase ?_⟩
      refine accept_wired (s := { s with run := run, foreign := false }) hwired hnum ?_ ht
      rw [Fresh, hioc]
      exact hfresh
  | client client op =>
      have hstored : s.run.callback e.2.fd = some (.client client op) := hcb
      obtain ⟨hop, c, hc, hsocket⟩ := h.wired.client _ client op hstored
      have ht : handle { s with run := run, foreign := false } client op e.2 a granted =
        some t := ht
      have hreports := h.wired.reports e hmem client op hstored
      have hstep : (handle { s with run := run, foreign := false } client op e.2 a granted).map
          Hosted.server = s.server.next _ := handle_server hfault hs hop hc hreports
      rw [ht] at hstep
      refine ⟨hstep.symm, fun hok => hbusy (handle_phase ht) ?_⟩
      refine handle_wired (s := { s with run := run, foreign := false }) hwired ?_ hc hsocket
        hquiet ht hok
      rw [RunState.callback, hioc]
      exact hstored

theorem Hosting.body (h : s.Hosting) (hfault : s.server.fault = none) {granted : Bool}
    (ht : s.step (.body granted) = some t) :
    s.Follows (s.serverLabel (.body granted)) t ∧ (t.server.fault = none → t.Hosting) := by
  simp only [step] at ht
  split at ht
  case h_2 => cases ht
  next conn q rest hs =>
  obtain ⟨cb, hcb, rfl⟩ := Option.map_eq_some_iff.1 ht
  have hlabel : s.serverLabel (.body granted) =
      some (.body (queryTracks { s with server := s.server.entered q } conn cb granted)) := by
    simp only [serverLabel, hs, hcb, Option.map_some]
  refine ⟨?_, fun hok => ⟨?_, fun hloop => ?_⟩⟩
  · rw [hlabel]
    show s.server.next _ = some _
    rw [Server.next, if_pos hfault]
    simp only [Server.step, hs, hcb]
    rfl
  · have hentered : (s.server.entered q).Wired s.run :=
      h.wired.keep fun _ _ _ _ => ⟨rfl, fun c hc => ⟨c, hc, rfl⟩⟩
    unfold runQuery at hok ⊢
    dsimp only at hok ⊢
    obtain ⟨client, c, body, hclient, -, hdone⟩ | ⟨hclient, hdone⟩ :=
      Server.runQuery_calls (s.server.entered q) conn
        (queryTracks { s with server := s.server.entered q } conn cb granted) cb
    · have htracks : queryTracks { s with server := s.server.entered q } conn cb granted =
          s.run.tracks c.socket writeMask granted := by
        rw [queryTracks, hclient]
        rfl
      rw [hdone, htracks] at hok
      rw [hclient, hdone, htracks]
      exact hentered.respond body hok
    · rw [hclient]
      obtain hdone | ⟨query, connectionId, cb', hdone⟩ | ⟨f, hdone⟩ := hdone
      · rw [hdone]
        exact hentered
      · rw [hdone]
        exact hentered.keep fun _ _ _ _ => ⟨rfl, fun c hc => ⟨c, hc, rfl⟩⟩
      · rw [hdone] at hok
        cases hok
  · -- a query's lambda does not run between events
    have hphase : (runQuery { s with server := s.server.entered q } conn cb granted).run.phase =
        s.run.phase := by
      unfold runQuery
      dsimp only
      split
      · exact RunState.phase_perform
      · rfl
    have hempty := h.idle (hphase.symm.trans hloop)
    rw [hs] at hempty
    cases hempty

theorem Wired.act (h : s.server.Wired s.run) {a : Action ServerClosure} (ha : s.Foreign a) :
    s.server.Wired (s.run.act a) := by
  cases a with
  | asyncAccept fd cb granted =>
      obtain rfl : cb = .other := ha _ rfl
      exact h.asyncAccept Server.stores_other
  | addTrack fd mask priority cb granted =>
      obtain rfl : cb = .other := ha _ rfl
      exact h.addTrack Server.stores_other
  | modifyTrack fd mask priority cb granted =>
      obtain rfl : cb = .other := ha _ rfl
      exact h.modifyTrack
  | removeTrack fd => exact h.removeTrack ha
  | closeFd fd => exact h.closeFd ha
  | openFd fd =>
      exact h.same (fun _ => rfl) (fun _ => rfl) (List.Subset.refl _) (List.Sublist.refl _)

theorem Hosting.next (h : s.Hosting) (hnum : s.server.Numbered) (hn : s.next l = some t) :
    s.Follows (s.serverLabel l) t ∧ (t.server.fault = none → t.Hosting) := by
  obtain ⟨hfault, hn⟩ := Option.ite_none_right_eq_some.1 hn
  cases l with
  | serve a granted =>
      obtain ⟨⟨hph, hs, -⟩, hn⟩ := Option.ite_none_right_eq_some.1 hn
      obtain rfl := Option.some.inj hn
      have hkernel := h.wired.withKernel (k := (s.run.ioc.kernel.getSocket true false a).1)
        fun fd => congrArg (Finmap.lookup fd) Server.interest_getSocket
      exact ⟨rfl, fun _ => ⟨hkernel.asyncAccept Server.stores_accept, fun _ => hs⟩⟩
  | loop l =>
      obtain ⟨⟨hl, hs, hhonest⟩, hn⟩ := Option.ite_none_right_eq_some.1 hn
      obtain ⟨run, hrun, rfl⟩ := Option.map_eq_some_iff.1 hn
      refine ⟨rfl, fun _ => ⟨h.wired.loop hl hrun fun events he => ?_, fun _ => hs⟩⟩
      subst he
      exact hhonest
  | dispatch e a granted => exact h.dispatch hnum hfault hn
  | pool l =>
      obtain ⟨⟨hu, -⟩, hn⟩ := Option.ite_none_right_eq_some.1 hn
      obtain ⟨server, hserver, rfl⟩ := Option.map_eq_some_iff.1 hn
      refine ⟨hserver, fun _ => ⟨?_, fun hph => absurd hph (not_loop_of_userCode hu)⟩⟩
      cases (Server.step_outcome hserver).2 with
      | pool => exact h.wired.keep fun _ _ _ _ => ⟨rfl, fun c hc => ⟨c, hc, rfl⟩⟩
  | body granted => exact h.body hfault hn
  | act a =>
      obtain ⟨⟨hu, ha⟩, hn⟩ := Option.ite_none_right_eq_some.1 hn
      obtain rfl := Option.some.inj hn
      exact ⟨rfl, fun _ => ⟨Wired.act h.wired ha, fun hph => absurd hph (not_loop_of_userCode hu)⟩⟩

theorem hosting_start {maxEvents : ℕ} (h : (hostedMachine J L maxEvents).init s) : s.Hosting := by
  obtain ⟨k, -, rfl⟩ := h
  refine ⟨⟨fun fd client op hcb => ?_, fun fd client op mask hcb => ?_, by simp [RunState.waiting,
    IOReactor.new], by simp [IOReactor.new], by simp [RunState.waiting, IOReactor.new]⟩, nofun⟩
  · cases (ThreadSafeMap.get_empty (k := fd)).symm.trans hcb
  · cases (ThreadSafeMap.get_empty (k := fd)).symm.trans hcb

theorem run_hosting {maxEvents : ℕ} {tr : List (Hosted J L × HostedLabel)}
    (h : (hostedMachine J L maxEvents).Run tr s) :
    (serverMachine J L).Run (tr.filterMap project) s.server ∧
      (s.server.fault = none → s.Hosting) := by
  refine h.refines (N := serverMachine J L) (I := fun s => s.server.fault = none → s.Hosting)
    Hosted.server serverLabel (fun s hs => ⟨?_, fun _ => hosting_start hs⟩)
    fun s l t hhosting hreach hn => ?_
  · obtain ⟨k, -, rfl⟩ := hs
    rfl
  · have hfault : s.server.fault = none := (Option.ite_none_right_eq_some.1 hn).1
    obtain ⟨hstep, hkept⟩ := (hhosting hfault).next (Server.reachable_numbered hreach) hn
    unfold Follows at hstep
    refine ⟨hkept, fun l' hl => ?_, fun hl => ?_⟩
    · rw [hl] at hstep
      exact hstep
    · rw [hl] at hstep
      exact hstep

end Hosted

/-- **The server on its reactor refines the server.** Whatever batches `epoll_wait` reports and in
    whatever order they are handled, whatever numbers new descriptors get and whatever `epoll_ctl`
    refuses: every run of the program on its reactor is, step by step, a run of the server. So an
    event that is taken from the queue for a client is always for the operation that this client has
    outstanding, and for one it asked for. -/
theorem hosted_refines {J : Json} {L : Llhttp} {maxEvents : ℕ}
    {tr : List (Hosted J L × HostedLabel)} {s : Hosted J L}
    (h : (hostedMachine J L maxEvents).Run tr s) :
    (serverMachine J L).Run (tr.filterMap Hosted.project) s.server := (Hosted.run_hosting h).1

/-- The answers to an event of the listening socket. -/
def accepts (fd : ℤ) (connectionId : String) : HostAnswers :=
  ⟨[], [], ⟨some fd, 0, .inet⟩, connectionId⟩

/-- Those to an event of a client. -/
def answers (recvs : List RecvResult) (sends : List SendResult) : HostAnswers :=
  ⟨recvs, sends, ⟨none, 0, .inet⟩, ""⟩

/-- A client is served. In the batch that brings its last event another one comes, and gets the
    number of the socket that has just been closed. -/
def reuse : List HostedLabel :=
  (List.range 10).map (fun _ => .pool (.construct 0 none)) ++
  [.pool .constructed, .serve ⟨some 4, 0, 0⟩ true, .loop .enter,
    .loop (.wait [⟨epollIn, 4⟩]), .dispatch (.listenSock, ⟨epollIn, 4⟩) (accepts 20 "c") true,
    .loop .finish, .loop (.wait [⟨epollIn, 20⟩]),
    .dispatch (.newSock, ⟨epollIn, 20⟩)
      (answers [.data ⟨clientRequest, by decide, by decide⟩] []) true,
    .loop .finish, .loop (.wait [⟨epollIn, 4⟩, ⟨epollOut, 20⟩]),
    .dispatch (.helperSock, ⟨epollOut, 20⟩) (answers [] [.sent 83]) true, .loop .finish,
    .dispatch (.listenSock, ⟨epollIn, 4⟩) (accepts 20 "d") true, .loop .finish]

theorem hosted_refines_reuse : ∃ tr, ∃ s : Hosted shelfJson headParser,
    (hostedMachine shelfJson headParser 8).Run tr s ∧
      (s.server.clients 1).map Clientconnection.socket = some 20 ∧
      s.server.sent 0 = httpResponse [] ∧
      (serverMachine shelfJson headParser).Run (tr.filterMap Hosted.project) s.server := by
  have hrun : ((hostedMachine shelfJson headParser 8).exec ⟨⟨.new 8 .start, .outside, []⟩, .start,
      false⟩ reuse).map (fun s => ((s.server.clients 1).map Clientconnection.socket,
        s.server.sent 0)) = some (some 20, httpResponse []) := by decide +kernel
  obtain ⟨s, hs, hstate⟩ := Option.map_eq_some_iff.1 hrun
  obtain ⟨hsocket, hsent⟩ := Prod.mk.inj hstate
  have hinit : (hostedMachine shelfJson headParser 8).Reachable
      ⟨⟨.new 8 .start, .outside, []⟩, .start, false⟩ := Reachable.start ⟨.start, rfl, rfl⟩
  obtain ⟨tr, hr⟩ := hinit.exec hs
  exact ⟨tr, s, hr, hsocket, hsent, hosted_refines hr⟩

end FiberConn
