import FiberConn.DbPooler.Proofs
import FiberConn.Lib.Fairness

set_option autoImplicit false

/-! # The pool works its queries off

A query that waits is handed to a connection by the loop that follows the completion of another, and
a query in flight is completed by an event, which only the database can bring about. So two things
are assumed (`Owed`, `Pays`): a function that has been called goes on, and every query in flight
gets an event that calls back. Then each waiting query has four more things to happen to it, and no
connection that is given back leaves a query waiting without another one in use. Once a connection
has been made, and unless queries wait with no completion to come, every such execution in which no
more queries are submitted from some time on gets all of them completed. -/

namespace FiberConn

open Machine

/-- The functions that have been called take a step. -/
def PoolLabel.GoesOn : PoolLabel → Prop
  | .construct _ _ => True
  | .constructed => True
  | .send _ => True
  | .ret => True
  | .loop => True
  | _ => False

/-- A query is submitted. -/
def PoolLabel.Submits : PoolLabel → Prop
  | .submit _ _ => True
  | _ => False

/-- What is owed to the pool: that a call goes on, and the answer to a query in flight. -/
inductive PoolDebt
  | call
  | answer (c : ℕ) (q : PendingQuery)

namespace PoolState

variable {w w' : PoolState} {l : PoolLabel} {d : PoolDebt}

/-- Nothing waits, and no connection is in use. -/
def Done (w : PoolState) : Prop := w.pool.pendingQueries = [] ∧ w.inUse = []

def Owed (w : PoolState) : PoolDebt → Prop
  | .call => w.stack ≠ []
  | .answer c q => (c, q) ∈ w.flying

/-- The answer to a query is an event that calls its callback. -/
def Pays (w : PoolState) (l : PoolLabel) : PoolDebt → Prop
  | .call => l.GoesOn
  | .answer c q => ∃ ev a, l = .queryEvent c q ev a ∧
      CallsBack ((w.conns c).handleEvent ev a).2 = true

/-! ## The measure -/

/-- What the pool still does for the query a frame is about. -/
def Frame.work : Frame → ℕ
  | .construct _ => 0
  | .send _ _ => 4
  | .user _ _ => 2
  | .drain => 1

/-- A waiting query is to be sent, a sent query to be completed, a completed one's callback to
    return, and the loop after it to end. -/
def work (w : PoolState) : ℕ :=
  5 * w.pool.pendingQueries.length + (w.stack.map Frame.work).sum + 3 * w.flying.length

/-- A query that is answered is one step further. -/
theorem work_answered {c : ℕ} {q : PendingQuery} (hs : w.stack = []) (hq : (c, q) ∈ w.flying)
    (ev : EpollEvent) (r : Dbconnection × List Effect) :
    ({ w.runEvent c ev r with flying := w.flying.erase (c, q) }.complete c q []).work < w.work := by
  have hlen := List.length_erase_of_mem hq
  have hpos := List.length_pos_of_mem hq
  simp only [work, complete, runEvent, hs, List.map_cons, List.map_nil, List.sum_cons,
    List.sum_nil, Frame.work, hlen]
  omega

/-- No step but a submission adds to what is left to do, -/
theorem Consistent.work_le (h : w.Consistent) (hl : ¬ l.Submits) (hn : w.next l = some w') :
    w'.work ≤ w.work := by
  cases h.outcome hn with
  | construct hs => simp [work, hs, Frame.work]
  | constructed hs => simp [work, hs, Frame.work]
  | accept => rfl
  | delete => rfl
  | grant => exact absurd trivial hl
  | defer => exact absurd trivial hl
  | resume hs hfree hpending =>
      simp [work, Frame.work, hs, hpending]
      omega
  | drained hs => simp [work, Frame.work, hs]
  | sendCalls hs => simp [work, Frame.work, hs, complete, runSend]
  | sendWaits hs =>
      simp [work, Frame.work, hs, runSend]
      omega
  | ret hs => simp [work, Frame.work, hs, giveBack]
  | connectWaits => rfl
  | connectFails => rfl
  | connects hs hc hyes hpoll herr => simp [work, runEvent, DBpooler.onConnect, herr]
  | queryWaits => rfl
  | @queryCalls c q ev a r hs hq => exact (work_answered hs hq ev r).le

/-- a submission adds at most one query, -/
theorem Consistent.work_submit (h : w.Consistent) {query client : String}
    (hn : w.next (.submit query client) = some w') : w'.work ≤ w.work + 5 := by
  cases h.outcome hn with
  | grant =>
      simp [work, Frame.work]
      omega
  | defer =>
      simp [work]
      omega

/-- and whatever is paid takes something off it. -/
theorem Consistent.work_lt (h : w.Consistent) (hbuilt : ∀ i, .construct i ∉ w.stack)
    (hp : w.Pays l d) (hn : w.next l = some w') : w'.work < w.work := by
  cases d with
  | call =>
      cases h.outcome hn with
      | construct hs => exact absurd (hs ▸ List.mem_cons_self) (hbuilt w.built)
      | constructed hs => exact absurd (hs ▸ List.mem_cons_self) (hbuilt w.built)
      | resume hs hfree hpending =>
          simp [work, Frame.work, hs, hpending]
          omega
      | drained hs => simp [work, Frame.work, hs]
      | sendCalls hs => simp [work, Frame.work, hs, complete, runSend]
      | sendWaits hs =>
          simp [work, Frame.work, hs, runSend]
          omega
      | ret hs => simp [work, Frame.work, hs, giveBack]
      | _ => exact hp.elim
  | answer c q =>
      obtain ⟨ev, a, rfl, hcb⟩ := hp
      simp only [PoolState.next] at hn
      split at hn
      case isFalse => cases hn
      next hc =>
      obtain rfl := Option.some.inj hn
      exact work_answered hc.1 hc.2 ev _

/-! ## Debts -/

/-- Only its payment ends a debt. -/
theorem Consistent.owed_next (h : w.Consistent) (hn : w.next l = some w') (hd : w.Owed d) :
    w.Pays l d ∨ w'.Owed d := by
  cases d with
  | call =>
      cases h.outcome hn with
      | accept => exact Or.inr hd
      | delete => exact Or.inr hd
      | grant => exact Or.inr (List.cons_ne_nil _ _)
      | defer => exact Or.inr hd
      | connectWaits hs => exact absurd hs hd
      | connectFails hs => exact absurd hs hd
      | connects hs => exact absurd hs hd
      | queryWaits hs => exact absurd hs hd
      | queryCalls hs => exact absurd hs hd
      | _ => exact Or.inl trivial
  | answer c q =>
      have hq : (c, q) ∈ w.flying := hd
      cases hl : l with
      | queryEvent c' q' ev a =>
          subst hl
          simp only [PoolState.next] at hn
          split at hn
          case isFalse => cases hn
          split at hn
          · next hcb =>
              obtain rfl := Option.some.inj hn
              by_cases he : (c, q) = (c', q')
              · obtain ⟨rfl, rfl⟩ := Prod.mk.inj he
                exact Or.inl ⟨ev, a, rfl, hcb⟩
              · exact Or.inr ((List.mem_erase_of_ne he).2 hq)
          · obtain rfl := Option.some.inj hn
            exact Or.inr hq
      | send a =>
          subst hl
          cases h.outcome hn with
          | sendCalls => exact Or.inr hq
          | sendWaits => exact Or.inr (List.mem_cons_of_mem _ hq)
      | _ =>
          subst hl
          cases h.outcome hn <;> exact Or.inr hq

/-- An error on the socket completes a query. -/
theorem callsBack_err (c : Dbconnection) (fd : ℤ) (a : PqAnswers) :
    CallsBack (c.handleEvent ⟨epollErr, fd⟩ a).2 = true := by
  have herr : (⟨epollErr, fd⟩ : EpollEvent).has epollErr = true := by
    simp [EpollEvent.has, epollErr]
  rw [Dbconnection.handleEvent, if_pos herr]
  rfl

/-- While anything is owed, something can be paid. -/
theorem payable (hbuilt : ∀ i, .construct i ∉ w.stack) (hd : w.Owed d) :
    ∃ l d' w', w.Pays l d' ∧ w.next l = some w' := by
  have hpays (l : PoolLabel) (d' : PoolDebt) (hp : w.Pays l d') (hn : (w.next l).isSome) :
      ∃ l d' w', w.Pays l d' ∧ w.next l = some w' := by
    obtain ⟨w', hw'⟩ := Option.isSome_iff_exists.1 hn
    exact ⟨l, d', w', hp, hw'⟩
  cases hs : w.stack with
  | nil =>
      cases d with
      | call => exact absurd hs hd
      | answer c q =>
          have hq : (c, q) ∈ w.flying := hd
          have hcb := callsBack_err (w.conns c) 0 queryOk
          refine hpays _ (.answer c q) ⟨⟨epollErr, 0⟩, queryOk, rfl, hcb⟩ ?_
          simp only [next, hs, hq, and_self, if_true, hcb]
          rfl
  | cons f rest =>
      cases f with
      | construct i => exact absurd (hs ▸ List.mem_cons_self) (hbuilt i)
      | send c q =>
          refine hpays (.send ⟨1, 0⟩) .call trivial ?_
          simp only [next, hs, true_or, if_true]
          split <;> rfl
      | user c q =>
          refine hpays .ret .call trivial ?_
          simp only [next, hs]
          rfl
      | drain =>
          refine hpays .loop .call trivial ?_
          simp only [next, hs]
          split
          · split <;> rfl
          · rfl

/-! ## What keeps the pool working -/

/-- A connection stays connected. -/
theorem Consistent.member_next (h : w.Consistent) (hmember : w.pool.connectedConns ≠ [])
    (hn : w.next l = some w') : w'.pool.connectedConns ≠ [] := by
  cases h.outcome hn with
  | connects hs hc hyes hpoll herr => simp [DBpooler.onConnect, herr]
  | _ => exact hmember

theorem reachable_drainsMember (h : poolMachine.Reachable w) : w.DrainsMember := by
  have hinv : w.Consistent ∧ w.DrainsMember := by
    refine h.invariant (I := fun w => w.Consistent ∧ w.DrainsMember) ?_ ?_
    · rintro s ⟨connectionInfo, poolSize, rfl⟩
      exact ⟨consistent_start connectionInfo poolSize, fun hmem => by simp [start] at hmem⟩
    · rintro s l t ⟨hs, hd⟩ hn
      exact ⟨hs.next hn, hd.next hs hn⟩
  exact hinv.2

/-- Nothing is connected while the constructor runs. -/
theorem reachable_built (h : poolMachine.Reachable w) (hmember : w.pool.connectedConns ≠ [])
    (i : ℕ) : .construct i ∉ w.stack := by
  have hinv : w.Consistent ∧ (w.pool.connectedConns ≠ [] → ∀ i, .construct i ∉ w.stack) := by
    refine h.invariant ?_ ?_ (I := fun w => w.Consistent ∧
      (w.pool.connectedConns ≠ [] → ∀ i, .construct i ∉ w.stack))
    · rintro s ⟨connectionInfo, poolSize, rfl⟩
      exact ⟨consistent_start connectionInfo poolSize, fun hne => absurd rfl hne⟩
    · rintro s l t ⟨hs, hbuilt⟩ hn
      refine ⟨hs.next hn, fun hmember i hmem => ?_⟩
      cases hs.outcome hn with
      | construct hs => exact hbuilt hmember s.built (hs ▸ List.mem_cons_self)
      | constructed hs => cases hmem
      | accept => exact hbuilt hmember i hmem
      | delete => exact hbuilt hmember i hmem
      | grant => exact hbuilt hmember i (by simpa using hmem)
      | defer => exact hbuilt hmember i hmem
      | resume => exact hbuilt hmember i (by simpa using hmem)
      | drained hs => exact hbuilt hmember i (hs ▸ List.mem_cons_of_mem _ hmem)
      | sendCalls hs =>
          exact hbuilt hmember i (hs ▸ List.mem_cons_of_mem _ (by simpa [complete] using hmem))
      | sendWaits hs => exact hbuilt hmember i (hs ▸ List.mem_cons_of_mem _ hmem)
      | ret hs =>
          exact hbuilt hmember i (hs ▸ List.mem_cons_of_mem _ (by simpa [giveBack] using hmem))
      | connectWaits => exact hbuilt hmember i hmem
      | connectFails => exact hbuilt hmember i hmem
      | connects hs => simp [runEvent, hs] at hmem
      | queryWaits => exact hbuilt hmember i hmem
      | queryCalls => simp [complete] at hmem
  exact hinv.2 hmember i

/-- A pool with a connection, in which no query waits for nothing. -/
structure Serving (w : PoolState) : Prop where
  reachable : poolMachine.Reachable w
  member : w.pool.connectedConns ≠ []
  attended : w.Attended

theorem Serving.consistent (h : w.Serving) : w.Consistent := reachable_consistent h.reachable

theorem Serving.built (h : w.Serving) (i : ℕ) : .construct i ∉ w.stack :=
  reachable_built h.reachable h.member i

theorem Serving.next (h : w.Serving) (hn : w.next l = some w') : w'.Serving := by
  have hc := h.consistent
  have hd := reachable_drainsMember h.reachable
  refine ⟨h.reachable.step hn, hc.member_next h.member hn, ?_⟩
  cases l with
  | submit query client => exact (hc.attended_submit hd hn).2 h.member
  | _ => exact (hc.attended_next hd (by simp) hn).2 h.attended

/-- Short of being done, something is owed. -/
theorem Serving.owed (h : w.Serving) (hno : ¬ w.Done) : ∃ d, w.Owed d := by
  by_contra hnone
  have hs : w.stack = [] := by_contra fun hne => hnone ⟨.call, hne⟩
  have hflying : w.flying = [] := by
    rw [List.eq_nil_iff_forall_not_mem]
    exact fun x hx => hnone ⟨.answer x.1 x.2, hx⟩
  have hidle : w.inUse = [] := by simp [inUse, sending, calling, hs, hflying]
  rcases h.attended with hpending | huse | hdrain
  · exact hno ⟨hpending, hidle⟩
  · exact huse hidle
  · rw [hs] at hdrain
    cases hdrain

/-- What is done stays done until a query is submitted. -/
theorem Consistent.done_next (h : w.Consistent) (hdone : w.Done) (hl : ¬ l.Submits)
    (hn : w.next l = some w') : w'.Done := by
  obtain ⟨hpending, hidle⟩ := hdone
  have hunused {x : ℕ × PendingQuery} (hx : x ∈ w.inUse) : w'.Done := by
    rw [hidle] at hx
    cases hx
  cases h.outcome hn with
  | construct hs =>
      exact ⟨hpending, by simpa [inUse, sending, calling, hs, Frame.sending?, Frame.calling?]
        using hidle⟩
  | constructed hs =>
      exact ⟨hpending, by simpa [inUse, sending, calling, hs, Frame.sending?, Frame.calling?]
        using hidle⟩
  | accept => exact ⟨hpending, hidle⟩
  | delete => exact ⟨hpending, hidle⟩
  | grant => exact absurd trivial hl
  | defer => exact absurd trivial hl
  | resume hs hfree hwaits =>
      rw [hpending] at hwaits
      cases hwaits
  | drained hs =>
      exact ⟨hpending, by simpa [inUse, sending, calling, hs, Frame.sending?, Frame.calling?]
        using hidle⟩
  | sendCalls hs => exact hunused (mem_inUse_of_sending (hs ▸ List.mem_cons_self))
  | sendWaits hs => exact hunused (mem_inUse_of_sending (hs ▸ List.mem_cons_self))
  | ret hs => exact hunused (mem_inUse_of_calling (hs ▸ List.mem_cons_self))
  | connectWaits => exact ⟨hpending, hidle⟩
  | connectFails => exact ⟨hpending, hidle⟩
  | connects hs hc hyes hpoll herr =>
      exact ⟨by simpa [DBpooler.onConnect, herr] using hpending, hidle⟩
  | queryWaits => exact ⟨hpending, hidle⟩
  | queryCalls hs hq => exact hunused (mem_inUse_of_flying hq)

/-- From every working state the pool can be given what it is owed. -/
theorem Serving.exists_fair (h : w.Serving) : ∃ e : poolMachine.Execution w,
    e.Fair Owed Pays ∧ e.Finitely PoolLabel.Submits := by
  refine Machine.exists_fair (I := Serving) work h ?_ ?_
  · exact fun s l t hs hn => ⟨hs.next hn, fun d hd => hs.consistent.owed_next hn hd⟩
  · intro s d hs hd
    obtain ⟨l, d', t, hpays, hn⟩ := payable hs.built hd
    exact ⟨l, t, hn, hs.consistent.work_lt hs.built hpays hn⟩

/-! ## A pool without a connection -/

/-- The constructor can end with every connect failing at once. -/
theorem exists_constructed (h : w.Consistent) (hs : w.stack = [.construct w.built])
    (hmember : w.pool.connectedConns = []) : ∃ ls w', poolMachine.exec w ls = some w' ∧
      w'.Consistent ∧ w'.stack = [] ∧ w'.pool.connectedConns = [] := by
  induction hk : w.pool.poolSize.toNat - w.built generalizing w with
  | zero =>
      have hle : ¬ (w.built : ℤ) < w.pool.poolSize := by omega
      have hn : w.next .constructed = some { w with stack := [] } := by
        simp only [PoolState.next, hs, if_neg hle]
      exact ⟨[.constructed], _, Option.bind_eq_some_iff.2 ⟨_, hn, rfl⟩, h.next hn, rfl, hmember⟩
  | succ k ih =>
      have hlt : (w.built : ℤ) < w.pool.poolSize := by omega
      have hn : w.next (.construct 0 none) =
          some { w.construct 0 none with stack := [.construct (w.built + 1)] } := by
        simp only [PoolState.next, hs, if_pos hlt]
      obtain ⟨ls, w', he, hw'⟩ := ih (h.next hn) rfl hmember (by
        show w.pool.poolSize.toNat - (w.built + 1) = k
        omega)
      exact ⟨.construct 0 none :: ls, w', Option.bind_eq_some_iff.2 ⟨_, hn, he⟩, hw'⟩

/-- A query that is submitted while there is no connection waits. -/
theorem Consistent.submit_waits (h : w.Consistent) (hmember : w.pool.connectedConns = [])
    {query client : String} (hn : w.next (.submit query client) = some w') :
    w'.pool.pendingQueries ≠ [] ∧ w'.stack = w.stack ∧ w'.flying = w.flying := by
  cases h.outcome hn with
  | grant _ _ hfree =>
      have hmem := h.mem_of_available (hfree ▸ List.mem_cons_self)
      rw [hmember] at hmem
      cases hmem
  | defer => exact ⟨by simp, rfl, rfl⟩

/-- So from a state without a connection a query can get to wait with nothing owed for it. -/
theorem exists_stranded (h : poolMachine.Reachable w) (hmember : w.pool.connectedConns = []) :
    ∃ ls w', poolMachine.exec w ls = some w' ∧ (∀ d, ¬ w'.Owed d) ∧ ¬ w'.Done := by
  have hc := reachable_consistent h
  -- first the constructor ends
  have hbuilt : ∃ ls u, poolMachine.exec w ls = some u ∧ u.Consistent ∧ u.stack = [] ∧
      u.pool.connectedConns = [] := by
    cases hs : w.stack with
    | nil => exact ⟨[], w, rfl, hc, hs, hmember⟩
    | cons f rest =>
        have hunused {x : ℕ × PendingQuery} (hx : x ∈ w.inUse) : False := by
          rw [hc.inUse_eq_nil hmember] at hx
          cases hx
        cases f with
        | construct i =>
            have htop := hc.construct_top hs
            rw [htop.1, htop.2] at hs
            exact exists_constructed hc hs hmember
        | send c q => exact (hunused (mem_inUse_of_sending (hs ▸ List.mem_cons_self))).elim
        | user c q => exact (hunused (mem_inUse_of_calling (hs ▸ List.mem_cons_self))).elim
        | drain =>
            exact absurd hmember (reachable_drainsMember h (hs ▸ List.mem_cons_self))
  obtain ⟨ls, u, he, hu, hs, hmember⟩ := hbuilt
  have huser : u.UserCode := by simp [UserCode, hs]
  obtain ⟨t, hn⟩ : ∃ t, u.next (.submit "" "") = some t := ⟨_, if_pos huser⟩
  obtain ⟨hpending, hstack, hflying⟩ := hu.submit_waits hmember hn
  have hidle := hu.inUse_eq_nil hmember
  simp only [inUse, List.append_eq_nil_iff] at hidle
  have hexec : poolMachine.exec u [.submit "" ""] = some t :=
    Option.bind_eq_some_iff.2 ⟨t, hn, rfl⟩
  refine ⟨ls ++ [.submit "" ""], t, (exec_append he _).trans hexec, ?_, fun hd => hpending hd.1⟩
  rintro (_ | ⟨c, q⟩) hd
  · exact hd (hstack.trans hs)
  · have hq : (c, q) ∈ t.flying := hd
    rw [hflying, hidle.1.2] at hq
    cases hq

end PoolState

open PoolState

/-- **The pool works its queries off**, exactly once it has a connection and unless queries wait
    with no completion to come: if the functions it calls go on, every query in flight gets an event
    that calls back, and only finitely many queries are submitted, then from some time on nothing
    waits and no connection is in use. -/
theorem works_off_iff {w : PoolState} (h : poolMachine.Reachable w) :
    (∀ e : poolMachine.Execution w, e.Fair Owed Pays → e.Finitely PoolLabel.Submits →
      e.Settles Done) ↔ w.pool.connectedConns ≠ [] ∧ w.Attended := by
  have hkeep (s : PoolState) (l : PoolLabel) (t : PoolState) (hs : poolMachine.Reachable s)
      (hn : s.next l = some t) :
      poolMachine.Reachable t ∧ ∀ d, s.Owed d → s.Pays l d ∨ t.Owed d :=
    ⟨hs.step hn, fun d hd => (reachable_consistent hs).owed_next hn hd⟩
  constructor
  · intro hall
    -- an execution that ends short of being done
    have hno (ls : List PoolLabel) {t : PoolState} (he : poolMachine.exec w ls = some t)
        (hnone : ∀ d, ¬ t.Owed d) : t.Done := by
      obtain ⟨e, hfair, hfin, hsettles⟩ := exists_fair_exec he h hkeep hnone
      exact hsettles.1 (hall e hfair hfin)
    have hmember : w.pool.connectedConns ≠ [] := by
      intro hmember
      obtain ⟨ls, t, he, hnone, hwaits⟩ := exists_stranded h hmember
      exact hwaits (hno _ he hnone)
    refine ⟨hmember, ?_⟩
    by_contra hunattended
    obtain ⟨hpending, hidle, hdrain⟩ : w.pool.pendingQueries ≠ [] ∧ w.inUse = [] ∧
        .drain ∉ w.stack := by simpa [Attended] using hunattended
    have hunused {x : ℕ × PendingQuery} : x ∉ w.inUse := by
      rw [hidle]
      exact List.not_mem_nil
    refine hpending (hno [] rfl ?_).1
    rintro (_ | ⟨c, q⟩) hd
    · obtain ⟨f, hf⟩ := List.exists_mem_of_ne_nil _ hd
      cases f with
      | construct i => exact reachable_built h hmember i hf
      | send c q => exact hunused (mem_inUse_of_sending hf)
      | user c q => exact hunused (mem_inUse_of_calling hf)
      | drain => exact hdrain hf
    · exact hunused (mem_inUse_of_flying hd)
  · rintro ⟨hmember, hattended⟩ e hfair hfin
    refine Execution.settles hfair hfin (I := Serving) ⟨h, hmember, hattended⟩ ?_ ?_ ?_ work ?_ ?_
    · exact fun s l t hs hn => hs.next hn
    · exact fun s l t hs hdone hl hn => hs.consistent.done_next hdone hl hn
    · exact fun s hs hno => hs.owed hno
    · exact fun s l t hs hl hn => hs.consistent.work_le hl hn
    · exact fun s l t d hs hpays hn => hs.consistent.work_lt hs.built hpays hn

/-- One query is in flight, another waits for its connection: both get completed. -/
theorem works_off_one : ∃ w, poolMachine.Reachable w ∧
    w.pool.pendingQueries = [⟨"q1", "b", 1⟩] ∧ w.inUse = [(0, ⟨"q0", "a", 0⟩)] ∧
    ∃ e : poolMachine.Execution w,
      e.Fair Owed Pays ∧ e.Finitely PoolLabel.Submits ∧ e.Settles Done := by
  have hrun : ((poolMachine.exec (.start "db" 1) (oneConnection.take 6)).map
      fun w => (w.pool.pendingQueries, w.inUse, w.pool.connectedConns))
      = some ([⟨"q1", "b", 1⟩], [(0, ⟨"q0", "a", 0⟩)], [0]) := by decide +kernel
  obtain ⟨w, hw, hstate⟩ := Option.map_eq_some_iff.1 hrun
  simp only [Prod.mk.injEq] at hstate
  obtain ⟨hpending, hinUse, hmember⟩ := hstate
  have hreach := reachable_exec "db" 1 hw
  have hmember : w.pool.connectedConns ≠ [] := by
    rw [hmember]
    exact List.cons_ne_nil _ _
  have hattended : w.Attended := by
    refine Or.inr (Or.inl ?_)
    rw [hinUse]
    exact List.cons_ne_nil _ _
  obtain ⟨e, hfair, hfin⟩ := Serving.exists_fair ⟨hreach, hmember, hattended⟩
  exact ⟨w, hreach, hpending, hinUse, e, hfair, hfin,
    (works_off_iff hreach).2 ⟨hmember, hattended⟩ e hfair hfin⟩

end FiberConn
