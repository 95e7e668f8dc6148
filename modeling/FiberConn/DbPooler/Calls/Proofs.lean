import FiberConn.DbPooler.Calls

set_option autoImplicit false

/-! # Calls into the pool return

`Going` is what holds in the middle of a call: only the drain loop sees a free connection beside
waiting queries, and no more than the one that has just been given back. Each frame has less to do
than the one it came from, and a waiting query less than one that is still to be submitted, which
is the measure. -/

namespace FiberConn

open Machine

variable {w v v' : PoolState} {call : PoolCall} {s t : CallState} {l : PoolLabel}

namespace Dbconnection

/-- `sendQuery` calls back before it returns exactly if libpq fails it, and then with `is_error`
    set. -/
theorem sendQuery_callsBack (c : Dbconnection) (query : String) (a : SendAnswers) :
    CallsBack (c.sendQuery query a).2 = true ↔ a.sendQuery = 0 ∨ a.flush = -1 := by
  unfold sendQuery
  split
  · next hret => exact iff_of_true rfl (Or.inl hret)
  next hret =>
  split
  · next hflush => exact iff_of_true rfl (Or.inr hflush)
  next hflush =>
  have hfine : ¬ (a.sendQuery = 0 ∨ a.flush = -1) := fun hbad => hbad.elim hret hflush
  split
  · exact iff_of_false Bool.false_ne_true hfine
  split
  · exact iff_of_false Bool.false_ne_true hfine
  · exact iff_of_false Bool.false_ne_true hfine

theorem sendQuery_isError (c : Dbconnection) (query : String) {a : SendAnswers}
    (h : a.sendQuery = 0 ∨ a.flush = -1) : (c.sendQuery query a).1.isError = true := by
  unfold sendQuery
  split
  · rfl
  next hret =>
  rw [if_pos (h.resolve_left hret)]

end Dbconnection

namespace PoolState

/-- How many connections may be free beside waiting queries: one at the drain loop, else none. -/
def slack (v : PoolState) : ℕ :=
  match v.stack with
  | .drain :: _ => 1
  | _ => 0

/-- The pool in the middle of a call. -/
structure Midway (v : PoolState) : Prop where
  idle : v.pool.idleCount = v.pool.availableConns.length
  built : ∀ i, .construct i ∉ v.stack
  /-- `Dbconnection::sendQuery` calls nothing but a callback, so it is on top. -/
  below : ∀ f ∈ v.stack.tail, f.sending? = none
  law : v.pool.pendingQueries = [] ∨ v.pool.availableConns.length ≤ v.slack

end PoolState

/-! ## One step -/

/-- A step of a call is a step of the pool with its toll, and is entered in the account. -/
theorem CallState.next_cases (h : s.next l = some t) : ∃ n v, l.toll = some n ∧ n ≤ s.left ∧
    s.world.next l = some v ∧
    t = { world := v
          left := s.left - n
          submitted := s.submitted ++ s.world.submittedBy l
          dispatched := s.dispatched ++ s.world.dispatchedBy l
          failed := s.failed ++ s.world.failedBy l
          called := s.called ++ v.calledBy l } := by
  unfold CallState.next at h
  split at h
  · cases h
  next n hn =>
  obtain ⟨hle, h⟩ := Option.ite_none_right_eq_some.1 h
  obtain ⟨v, hv, rfl⟩ := Option.map_eq_some_iff.1 h
  exact ⟨n, v, hn, hle, hv, rfl⟩

/-- What a step of a call can do. -/
theorem PoolState.toll_outcome (hidle : v.pool.idleCount = v.pool.availableConns.length) {n : ℕ}
    (hn : l.toll = some n) (h : v.next l = some v') : v.Outcome l v' := by
  cases l with
  | submit query client => exact submit_outcome hidle h
  | accept connectionId => exact accept_outcome h
  | delete client => exact delete_outcome h
  | send a => exact send_outcome h
  | ret => exact ret_outcome h
  | loop => exact loop_outcome hidle h
  | construct memory start => cases hn
  | constructed => cases hn
  | connectEvent c ev a => cases hn
  | queryEvent c q ev a => cases hn

namespace PoolState

/-- The frame that comes to the top when the top one is popped is not about to send. -/
theorem Midway.pop {f : Frame} {rest : List Frame} (h : v.Midway) (hs : v.stack = f :: rest) :
    rest.head?.bind Frame.sending? = none ∧ ∀ g ∈ rest.tail, g.sending? = none := by
  have hbelow := h.below
  rw [hs, List.tail_cons] at hbelow
  refine ⟨?_, fun g hg => hbelow g (List.mem_of_mem_tail hg)⟩
  cases rest with
  | nil => rfl
  | cons g rest => exact hbelow g List.mem_cons_self

/-- User code runs on top of a frame that is not about to send. -/
theorem Midway.userCode (h : v.Midway) (hu : v.UserCode) :
    v.slack = 0 ∧ v.upcoming = [] ∧ ∀ f ∈ v.stack, f.sending? = none := by
  have hbelow := h.below
  unfold UserCode at hu
  unfold slack upcoming
  cases hs : v.stack with
  | nil => exact ⟨rfl, rfl, by simp⟩
  | cons f rest =>
      rw [hs] at hu hbelow
      cases f with
      | user c q =>
          refine ⟨rfl, rfl, fun g hg => ?_⟩
          rcases List.mem_cons.1 hg with rfl | hg
          · rfl
          · exact hbelow g hg
      | construct i => exact hu.elim
      | send c q => exact hu.elim
      | drain => exact hu.elim

theorem Midway.built_cons (h : v.Midway) {f : Frame} {rest : List Frame}
    (hf : ∀ i, .construct i ≠ f) (hrest : rest ⊆ v.stack) (i : ℕ) : .construct i ∉ f :: rest :=
  fun hi => h.built i (hrest ((List.mem_cons.1 hi).resolve_left (hf i)))

/-- **A step keeps the pool in order.** -/
theorem Midway.next (h : v.Midway) {n : ℕ} (hn : l.toll = some n) (hv : v.next l = some v') :
    v'.Midway := by
  have hidle := h.idle
  have hlaw := h.law
  have hbuilt := h.built
  cases toll_outcome hidle hn hv with
  | accept => exact ⟨hidle, hbuilt, h.below, hlaw⟩
  | delete => exact ⟨hidle, hbuilt, h.below, hlaw⟩
  | @grant q c rest hu hq hfree =>
      obtain ⟨hslack, -, hframes⟩ := h.userCode hu
      rw [hfree, List.length_cons] at hidle
      refine ⟨?_, h.built_cons (by simp) (List.Subset.refl _), hframes, Or.inl ?_⟩
      · show v.pool.idleCount - 1 = (rest.length : ℤ)
        omega
      · -- a connection is free, so no query waits
        refine hlaw.resolve_right ?_
        rw [hfree, hslack, List.length_cons]
        omega
  | defer hu hq hfree =>
      refine ⟨hidle, hbuilt, h.below, Or.inr ?_⟩
      show v.pool.availableConns.length ≤ _
      rw [hfree]
      exact Nat.zero_le _
  | @resume c cs q qs rest hs hfree hpending =>
      rw [hfree, List.length_cons] at hidle hlaw
      refine ⟨?_, h.built_cons (by simp) (List.Subset.refl _), ?_, Or.inr ?_⟩
      · show v.pool.idleCount - 1 = (cs.length : ℤ)
        omega
      · show ∀ f ∈ v.stack, f.sending? = none
        rw [hs]
        intro f hf
        rcases List.mem_cons.1 hf with rfl | hf
        · rfl
        · have hbelow := h.below
          rw [hs] at hbelow
          exact hbelow f hf
      · -- the loop hands on the one free connection
        have hone := hlaw.resolve_left (by simp [hpending])
        simp only [slack, hs] at hone
        show cs.length ≤ _
        omega
  | @drained rest hs hdone =>
      refine ⟨hidle, fun i hi => hbuilt i (hs ▸ List.mem_cons_of_mem _ hi), (h.pop hs).2, ?_⟩
      rcases hdone with hfree | hpending
      · refine Or.inr ?_
        show v.pool.availableConns.length ≤ _
        rw [hfree]
        exact Nat.zero_le _
      · exact Or.inl hpending
  | @sendCalls a c q rest r hs ho hcb =>
      have hbelow := h.below
      rw [hs] at hbelow
      refine ⟨hidle, h.built_cons (by simp) (hs ▸ List.subset_cons_self ..), hbelow,
        hlaw.imp_right fun hle => ?_⟩
      simp only [slack, hs] at hle
      exact hle.trans (Nat.zero_le _)
  | @sendWaits a c q rest r hs ho hcb =>
      refine ⟨hidle, fun i hi => hbuilt i (hs ▸ List.mem_cons_of_mem _ hi), (h.pop hs).2, ?_⟩
      refine hlaw.imp_right fun hle => ?_
      simp only [slack, hs] at hle
      exact hle.trans (Nat.zero_le _)
  | @ret c q rest hs =>
      have hbelow := h.below
      rw [hs] at hbelow
      refine ⟨?_, h.built_cons (by simp) (hs ▸ List.subset_cons_self ..), hbelow,
        hlaw.imp_right fun hle => ?_⟩
      · show v.pool.idleCount + 1 = ((v.pool.availableConns ++ [c]).length : ℤ)
        rw [List.length_append, hidle]
        rfl
      · simp only [slack, hs] at hle
        show (v.pool.availableConns ++ [c]).length ≤ 1
        rw [List.length_append, List.length_singleton]
        omega
  | _ => cases hn

/-- **A step keeps the order**: what is about to be dispatched and what waits, with what is
    submitted behind it, is what is dispatched and then about to be dispatched and waiting. -/
theorem Midway.order_next (h : v.Midway) {n : ℕ} (hn : l.toll = some n) (hv : v.next l = some v') :
    v.upcoming ++ v.pool.pendingQueries ++ v.submittedBy l =
      v.dispatchedBy l ++ (v'.upcoming ++ v'.pool.pendingQueries) := by
  cases toll_outcome h.idle hn hv with
  | accept => exact List.append_nil _
  | delete => exact List.append_nil _
  | @grant q c rest hu hq hfree =>
      obtain ⟨hslack, hupcoming, -⟩ := h.userCode hu
      have hnone : v.pool.pendingQueries = [] := by
        refine h.law.resolve_right ?_
        rw [hfree, hslack, List.length_cons]
        omega
      rw [hupcoming, hnone, submittedBy, ← hq]
      simp [dispatchedBy, upcoming, Frame.sending?]
  | @defer q hu hq hfree =>
      obtain ⟨-, hupcoming, -⟩ := h.userCode hu
      rw [submittedBy, ← hq]
      show v.upcoming ++ v.pool.pendingQueries ++ [q] =
        v.upcoming ++ (v.pool.pendingQueries ++ [q])
      rw [hupcoming]
      rfl
  | resume hs hfree hpending =>
      simp [upcoming, submittedBy, dispatchedBy, hs, hpending, Frame.sending?]
  | @drained rest hs hdone =>
      have hrest := (h.pop hs).1
      simp [upcoming, submittedBy, dispatchedBy, hs, hrest, Frame.sending?]
  | sendCalls hs ho hcb =>
      simp [upcoming, submittedBy, dispatchedBy, runSend, complete, hs, Frame.sending?]
  | @sendWaits a c q rest r hs ho hcb =>
      have hrest := (h.pop hs).1
      simp [upcoming, submittedBy, dispatchedBy, runSend, hs, hrest, Frame.sending?]
  | ret hs => simp [upcoming, submittedBy, dispatchedBy, giveBack, hs, Frame.sending?]
  | _ => cases hn

/-- **A callback is run in a step exactly for a query that failed in it**, with `is_error` set. -/
theorem called_next {n : ℕ} (hn : l.toll = some n) (hv : v.next l = some v') :
    v'.calledBy l = (v.failedBy l).map fun q => (q, true) := by
  cases l with
  | send a =>
      simp only [PoolState.next] at hv
      split at hv
      case h_2 => cases hv
      next c q rest hs =>
      obtain ⟨-, hv⟩ := Option.ite_none_right_eq_some.1 hv
      have hupcoming : v.upcoming = [q] := by simp [upcoming, hs, Frame.sending?]
      have hfails := (v.conns c).sendQuery_callsBack (cStr q.query) a
      split at hv
      · next hcb =>
          obtain rfl := Option.some.inj hv
          have herr := (v.conns c).sendQuery_isError (cStr q.query) (hfails.1 hcb)
          simp [calledBy, failedBy, runSend, complete, hupcoming, hfails.1 hcb, herr]
      · next hcb =>
          obtain rfl := Option.some.inj hv
          simp [calledBy, failedBy, runSend, mt hfails.2 hcb]
  | submit query client => rfl
  | accept connectionId => rfl
  | delete client => rfl
  | ret => rfl
  | loop => rfl
  | construct memory start => cases hn
  | constructed => cases hn
  | connectEvent c ev a => cases hn
  | queryEvent c q ev a => cases hn

theorem Midway.defined_next (h : v.Midway) {n : ℕ} (hn : l.toll = some n)
    (hv : v.next l = some v') : v'.undefined = v.undefined := by
  cases toll_outcome h.idle hn hv with
  | _ => rfl

end PoolState

/-! ## Termination -/

/-- How many steps a frame still leads to. -/
def Frame.toDo : Frame → ℕ
  | .send _ _ => 3
  | .user _ _ => 2
  | .drain => 1
  | .construct _ => 0

/-- How many steps the call can still take. -/
def CallState.toDo (s : CallState) : ℕ :=
  5 * s.left + 4 * s.world.pool.pendingQueries.length + (s.world.stack.map Frame.toDo).sum

/-- **Progress.** A call that has not returned can go on. -/
theorem PoolState.Midway.next_exists (h : v.Midway) (hs : v.stack ≠ []) :
    ∃ l, l.toll = some 0 ∧ ∃ v', v.next l = some v' := by
  obtain ⟨f, rest, hs⟩ := List.exists_cons_of_ne_nil hs
  cases f with
  | construct i => exact absurd (hs ▸ List.mem_cons_self) (h.built i)
  | send c q =>
      refine ⟨.send ⟨1, 0⟩, rfl, Option.isSome_iff_exists.1 ?_⟩
      simp only [PoolState.next, hs, true_or, if_true]
      split <;> rfl
  | user c q =>
      refine ⟨.ret, rfl, v.giveBack c rest, ?_⟩
      simp only [PoolState.next, hs]
  | drain =>
      refine ⟨.loop, rfl, Option.isSome_iff_exists.1 ?_⟩
      simp only [PoolState.next, hs]
      split
      · split <;> rfl
      · rfl

/-- **Every step leaves less to do**, or is one of the things user code still does. -/
theorem PoolState.Midway.toDo_next (h : v.Midway) {n : ℕ} (hn : l.toll = some n)
    (hv : v.next l = some v') :
    4 * v'.pool.pendingQueries.length + (v'.stack.map Frame.toDo).sum + 1 ≤
      4 * v.pool.pendingQueries.length + (v.stack.map Frame.toDo).sum + 5 * n := by
  cases toll_outcome h.idle hn hv with
  | accept =>
      obtain rfl := Option.some.inj hn
      dsimp only
      omega
  | delete =>
      obtain rfl := Option.some.inj hn
      dsimp only
      omega
  | grant =>
      obtain rfl := Option.some.inj hn
      simp only [List.map_cons, List.sum_cons, Frame.toDo]
      omega
  | defer =>
      obtain rfl := Option.some.inj hn
      simp only [List.length_append, List.length_singleton]
      omega
  | resume hs hfree hpending =>
      simp only [hpending, List.length_cons, List.map_cons, List.sum_cons, Frame.toDo]
      omega
  | drained hs hdone =>
      simp only [hs, List.map_cons, List.sum_cons, Frame.toDo]
      omega
  | sendCalls hs ho hcb =>
      simp only [complete, runSend, hs, List.map_cons, List.sum_cons, Frame.toDo]
      omega
  | sendWaits hs ho hcb =>
      simp only [runSend, hs, List.map_cons, List.sum_cons, Frame.toDo]
      omega
  | ret hs =>
      simp only [giveBack, hs, List.map_cons, List.sum_cons, Frame.toDo]
      omega
  | _ => cases hn

/-! ## Whole calls -/

/-- The call that began in `w`, up to now. -/
structure CallState.Going (w : PoolState) (call : PoolCall) (s : CallState) : Prop where
  midway : s.world.Midway
  order : w.pool.pendingQueries ++ s.submitted =
    s.dispatched ++ (s.world.upcoming ++ s.world.pool.pendingQueries)
  called : s.called = (w.enter 0 call).called ++ s.failed.map fun q => (q, true)
  defined : s.world.undefined = w.undefined

/-- A step goes on with the call and leaves less to do. -/
theorem CallState.Going.next (h : s.Going w call) (hn : s.next l = some t) :
    t.Going w call ∧ t.toDo < s.toDo := by
  obtain ⟨n, v, htoll, hle, hv, rfl⟩ := CallState.next_cases hn
  have horder := h.midway.order_next htoll hv
  have hless := h.midway.toDo_next htoll hv
  refine ⟨⟨h.midway.next htoll hv, ?_, ?_, (h.midway.defined_next htoll hv).trans h.defined⟩, ?_⟩
  · calc w.pool.pendingQueries ++ (s.submitted ++ s.world.submittedBy l)
        = s.dispatched ++ (s.world.upcoming ++ s.world.pool.pendingQueries ++
            s.world.submittedBy l) := by
          rw [← List.append_assoc, h.order, List.append_assoc]
      _ = s.dispatched ++ s.world.dispatchedBy l ++ (v.upcoming ++ v.pool.pendingQueries) := by
          rw [horder, List.append_assoc]
  · show s.called ++ v.calledBy l = _ ++ (s.failed ++ s.world.failedBy l).map _
    rw [h.called, PoolState.called_next htoll hv, List.map_append, List.append_assoc]
  · simp only [CallState.toDo]
    omega

/-- The outermost calls of the pool's machine: a submission from outside the reactor's handlers, and
    an event that ends a query. -/
theorem PoolState.submit_enters (hstack : w.stack = []) (query client : String) (n : ℕ) :
    w.next (.submit query client) = some (w.enter n (.sendQuery query client)).world := by
  have hu : w.UserCode := by
    rw [UserCode, hstack]
    trivial
  simp only [PoolState.next, if_pos hu, enter]

theorem PoolState.queryEvent_enters (hstack : w.stack = []) {c : ℕ} {q : PendingQuery}
    (hq : (c, q) ∈ w.flying) {ev : EpollEvent} {a : PqAnswers}
    (hcb : CallsBack ((w.conns c).handleEvent ev a).2 = true) (n : ℕ) :
    w.next (.queryEvent c q ev a) =
      some (({ w.runEvent c ev ((w.conns c).handleEvent ev a) with
        flying := w.flying.erase (c, q) }).enter n (.complete c q)).world := by
  simp only [PoolState.next, hstack, hq, and_self, if_true, hcb, enter]

/-- Every call begins in order. -/
theorem PoolState.going_enter (hstack : w.stack = [])
    (hidle : w.pool.idleCount = w.pool.availableConns.length)
    (hpending : 0 < w.pool.idleCount → w.pool.pendingQueries = []) (n : ℕ) (call : PoolCall) :
    (w.enter n call).Going w call := by
  cases call with
  | complete c q =>
      refine ⟨⟨hidle, by simp [enter, complete], by simp [enter, complete], ?_⟩, List.append_nil _,
        (List.append_nil _).symm, rfl⟩
      by_cases hfree : w.pool.availableConns = []
      · exact Or.inr (by simp [enter, complete, hfree])
      · refine Or.inl (hpending ?_)
        have := List.length_pos_of_ne_nil hfree
        omega
  | sendQuery query client =>
      rcases sendQuery_cases
        (w := { w with
          nextCb := w.nextCb + 1
          log := .submitted ⟨query, client, w.nextCb⟩ :: w.log })
        hidle ⟨query, client, w.nextCb⟩ with ⟨hfree, he⟩ | ⟨c, rest, hfree, he⟩
      · rw [enter, he]
        refine ⟨⟨hidle, by simp [hstack], by simp [hstack], Or.inr ?_⟩, ?_, rfl, rfl⟩
        · show w.pool.availableConns.length ≤ _
          rw [show w.pool.availableConns = [] from hfree]
          exact Nat.zero_le _
        · simp [upcoming, hstack]
      · have hfree : w.pool.availableConns = c :: rest := hfree
        rw [hfree, List.length_cons] at hidle
        have hnone : w.pool.pendingQueries = [] := hpending (by omega)
        rw [enter, he]
        refine ⟨⟨?_, by simp [hstack], by simp [hstack], Or.inl hnone⟩, ?_, rfl, rfl⟩
        · show w.pool.idleCount - 1 = (rest.length : ℤ)
          omega
        · simp [upcoming, Frame.sending?, hnone]

/-- When the stack is empty the call has returned. -/
theorem CallState.Going.returned (h : s.Going w call) (hs : s.world.stack = []) :
    s.Returned w call where
  stack := hs
  order := by
    have horder := h.order
    rw [PoolState.upcoming, hs] at horder
    exact horder
  called := h.called
  idle := h.midway.idle
  drained := by
    have hidle := h.midway.idle
    rcases h.midway.law with hnone | hle
    · exact Or.inr hnone
    · have hzero : s.world.slack = 0 := by rw [PoolState.slack, hs]
      exact Or.inl (by omega)
  defined := h.defined

/-- **Every call into the pool returns** and leaves nothing behind, from every state in which the
    counter is the size of the queue and no query waits beside a free connection, whatever libpq
    answers and whatever finitely many things the users' callbacks do. -/
theorem call_returns (hstack : w.stack = [])
    (hidle : w.pool.idleCount = w.pool.availableConns.length)
    (hpending : 0 < w.pool.idleCount → w.pool.pendingQueries = []) (n : ℕ) (call : PoolCall) :
    callMachine.MustReach (CallState.Returned w call) (w.enter n call) := by
  refine MustReach.of_measure (I := CallState.Going w call) CallState.toDo ?_ ?_
    (PoolState.going_enter hstack hidle hpending n call)
  · intro s h hP
    obtain ⟨l, htoll, v, hv⟩ := h.midway.next_exists fun hs => hP (h.returned hs)
    refine ⟨l, Option.isSome_iff_exists.1 ?_⟩
    show (CallState.next s l).isSome
    simp only [CallState.next, htoll, Nat.zero_le, if_true, hv]
    rfl
  · intro s l t h hP hn
    exact h.next hn

/-- The pool's only connection serves a query, and two more wait for it. -/
def oneBusy : PoolState :=
  { PoolState.start "db" 1 with
    pool := ⟨1, 1, 0, "db", [0], [], true, [⟨"q1", "a", 1⟩, ⟨"q2", "b", 2⟩]⟩
    built := 1
    flying := [(0, ⟨"q0", "a", 0⟩)]
    stack := []
    nextCb := 3 }

/-- The query completes, its callback submits another, and libpq takes none of the three. -/
def allRefused : List PoolLabel :=
  [.submit "q3" "c", .ret, .loop, .send ⟨0, 0⟩, .ret, .loop, .send ⟨0, 0⟩, .ret, .loop,
    .send ⟨0, 0⟩, .ret, .loop, .loop, .loop, .loop]

theorem call_returns_refused :
    callMachine.MustReach (CallState.Returned oneBusy (.complete 0 ⟨"q0", "a", 0⟩))
      (oneBusy.enter 1 (.complete 0 ⟨"q0", "a", 0⟩)) ∧
    (callMachine.exec (oneBusy.enter 1 (.complete 0 ⟨"q0", "a", 0⟩)) allRefused).map
        (fun s => (s.world.stack, s.dispatched, s.called)) =
      some ([], [⟨"q1", "a", 1⟩, ⟨"q2", "b", 2⟩, ⟨"q3", "c", 3⟩],
        [(⟨"q0", "a", 0⟩, false), (⟨"q1", "a", 1⟩, true), (⟨"q2", "b", 2⟩, true),
          (⟨"q3", "c", 3⟩, true)]) :=
  ⟨call_returns rfl rfl (fun h => absurd h (by decide)) 1 _, by decide +kernel⟩

end FiberConn
