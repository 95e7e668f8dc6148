import FiberConn.DbPooler.Progress
import FiberConn.Lib.Termination
import FiberConn.Server.Proofs

set_option autoImplicit false

/-! # The server comes to rest

Whatever is registered or waiting is worked off: a client is read, its queries are executed one
after the other, its response is sent. Each of these ends with an event that calls back, and such an
event is not the server's doing: that a client sends the rest of its request or hangs up, takes its
response or fails, and that the database answers, is assumed of the world (`Owed`, `Pays`). The
measure adds up what is left for every client and every query; only new clients add to it. -/

namespace FiberConn

open Machine

/-- What is left to do when a handler is registered: to read a client may lead to an `INSERT`. -/
def ClientOp.work : ClientOp → ℕ
  | .read => 14
  | .write => 1

/-- What is left to do when the lambda of a query runs: it may write, or submit the `SELECT`. -/
def QueryCallback.work : QueryCallback → ℕ
  | .inserted => 8
  | .selected => 2

/-- A client connects. -/
def ServerLabel.Accepts : ServerLabel → Prop
  | .accept _ _ _ => True
  | _ => False

/-- What is owed to the server: what its pool is owed, and an event for a handler that is
    registered. -/
inductive ServerDebt
  | pool (d : PoolDebt)
  | event (client : ℕ)

namespace Server

variable {J : Json} {L : Llhttp} {s t : Server J L} {l : ServerLabel} {client : ℕ} {d : ServerDebt}

/-- No handler is registered, and no query waits or is executed; or the program has failed. -/
def AtRest (s : Server J L) : Prop :=
  s.fault ≠ none ∨ s.pool.stack = [] ∧ s.pool.Done ∧ ∀ client, s.outstanding client = none

/-- A program that has failed is owed nothing. -/
def Owed (s : Server J L) (d : ServerDebt) : Prop :=
  s.fault = none ∧
    match d with
    | .pool d => s.pool.Owed d
    | .event client => (s.outstanding client).isSome

/-- The step ends the program. -/
def Fails (s : Server J L) (l : ServerLabel) : Prop := ∃ t ∈ s.next l, t.fault ≠ none

/-- A handler is to get an event that calls its callback, and the callback on top of the stack is to
    do its work. -/
def Pays (s : Server J L) (l : ServerLabel) (d : ServerDebt) : Prop :=
  s.Fails l ∨
    match d with
    | .pool d => (∃ l', l = .pool l' ∧ s.pool.Pays l' d) ∨ d = .call ∧ ∃ granted, l = .body granted
    | .event client => ∃ ev recvs sends granted, l = .event client ev recvs sends granted ∧
        ∀ c ∈ s.clients client, CallsBack (c.handleEvent ev recvs sends).effects = true

/-! ## The measure -/

def work (s : Server J L) : ℕ :=
  s.pool.work + tableWork ClientOp.work s.outstanding s.pool.accepted +
    tableWork QueryCallback.work s.callback s.pool.nextCb + s.fault.elim 1 fun _ => 0

/-- Clients and queries are numbered as they come. -/
structure Numbered (s : Server J L) : Prop where
  clients : ∀ client, s.pool.accepted ≤ client → s.clients client = none
  outstanding : ∀ client, s.pool.accepted ≤ client → s.outstanding client = none
  callback : ∀ cb, s.pool.nextCb ≤ cb → s.callback cb = none

/-- What an operation leaves: at most `k` more to do. -/
structure Within (s t : Server J L) (k : ℕ) : Prop where
  numbered : t.Numbered
  work_le : t.work ≤ s.work + k

theorem Within.mono {k k' : ℕ} (h : s.Within t k) (hle : k ≤ k') : s.Within t k' :=
  ⟨h.numbered, h.work_le.trans (Nat.add_le_add_left hle _)⟩

theorem Numbered.lt_accepted (h : s.Numbered) {c : Clientconnection L}
    (hc : s.clients client = some c) : client < s.pool.accepted := by
  by_contra hno
  rw [h.clients client (Nat.le_of_not_lt hno)] at hc
  cases hc

theorem numbered_start : (start : Server J L).Numbered :=
  ⟨fun _ _ => rfl, fun _ _ => rfl, fun _ _ => rfl⟩

theorem Numbered.fail (h : s.Numbered) (f : Fault) : s.Within (s.fail f) 0 := by
  refine ⟨⟨h.clients, h.outstanding, h.callback⟩, ?_⟩
  rw [work, work, Server.fail]
  simp

theorem Numbered.note (h : s.Numbered) (o : ServerObs) : (s.note o).Numbered :=
  ⟨h.clients, h.outstanding, h.callback⟩

/-- A step of the pool by itself. -/
theorem Permits.numbers {l : PoolLabel} {w : PoolState} (hp : s.Permits l)
    (ho : PoolState.Outcome s.pool l w) :
    w.accepted = s.pool.accepted ∧ w.nextCb = s.pool.nextCb := by
  cases ho with
  | accept => exact hp.elim
  | delete => exact hp.elim
  | grant => exact hp.elim
  | defer => exact hp.elim
  | _ => exact ⟨rfl, rfl⟩

theorem Permits.not_submits {l : PoolLabel} (hp : s.Permits l) : ¬ l.Submits := by
  cases l with
  | submit => exact hp.elim
  | _ => exact id

theorem Numbered.delete (h : s.Numbered) (hc : s.pool.Consistent) (client : ℕ) :
    s.Within (s.delete client) 0 := by
  unfold Server.delete
  split
  · next w hw =>
      have hle := hc.work_le id hw
      have hframe : w.accepted = s.pool.accepted ∧ w.nextCb = s.pool.nextCb := by
        cases hc.outcome hw
        exact ⟨rfl, rfl⟩
      obtain ⟨haccepted, hnext⟩ := hframe
      refine ⟨⟨fun client' hle => ?_, ?_, ?_⟩, ?_⟩
      · have hle : w.accepted ≤ client' := hle
        by_cases he : client' = client
        · rw [he]
          exact Function.update_self ..
        · exact (Function.update_of_ne he _ _).trans (h.clients client' (haccepted ▸ hle))
      · exact fun client' hle => h.outstanding client' (haccepted ▸ hle)
      · exact fun cb hle => h.callback cb (hnext ▸ hle)
      · simp only [work, haccepted, hnext]
        omega
  · exact h.fail _

/-- What a handler that may have been refused leaves to do. -/
theorem work_held (op : ClientOp) (granted : Bool) :
    (heldIf granted op).elim 0 ClientOp.work ≤ op.work := by
  cases granted
  · exact Nat.zero_le _
  · exact le_rfl

theorem Numbered.respond (h : s.Numbered) (hlt : client < s.pool.accepted)
    (c : Clientconnection L) (body : Bytes) (granted : Bool) :
    s.Within (s.respond client c body granted) 1 := by
  unfold Server.respond
  split
  · next hnone =>
      have htable := tableWork_update ClientOp.work s.outstanding hlt (heldIf granted .write)
      have hheld := work_held .write granted
      rw [hnone] at htable
      refine ⟨⟨fun client' hle => ?_, fun client' hle => ?_, h.callback⟩, ?_⟩
      · have hne : client' ≠ client := (hlt.trans_le hle).ne'
        exact (Function.update_of_ne hne _ _).trans (h.clients client' hle)
      · have hne : client' ≠ client := (hlt.trans_le hle).ne'
        exact (Function.update_of_ne hne _ _).trans (h.outstanding client' hle)
      · have hwrite : ClientOp.work .write = 1 := rfl
        simp only [Option.elim_none] at htable
        simp only [work]
        omega
  · exact (h.fail _).mono (Nat.zero_le 1)

theorem accepted_sendQuery (w : PoolState) (q : PendingQuery) :
    (w.sendQuery q).accepted = w.accepted ∧ (w.sendQuery q).nextCb = w.nextCb := by
  unfold PoolState.sendQuery
  split
  · split <;> exact ⟨rfl, rfl⟩
  · exact ⟨rfl, rfl⟩

theorem Numbered.sendQuery (h : s.Numbered) (hc : s.pool.Consistent) (hu : s.pool.UserCode)
    (query connectionId : String) (cb : QueryCallback) :
    s.Within (s.sendQuery query connectionId cb) (5 + cb.work) := by
  have hle := hc.work_submit (sendQuery_next hu query connectionId cb)
  obtain ⟨haccepted, hnext⟩ :
      (s.sendQuery query connectionId cb).pool.accepted = s.pool.accepted ∧
        (s.sendQuery query connectionId cb).pool.nextCb = s.pool.nextCb + 1 :=
    accepted_sendQuery _ _
  refine ⟨⟨?_, ?_, fun n hle => ?_⟩, ?_⟩
  · exact fun client' hle => h.clients client' (haccepted ▸ hle)
  · exact fun client' hle => h.outstanding client' (haccepted ▸ hle)
  · rw [hnext] at hle
    have hne : n ≠ s.pool.nextCb := Nat.ne_of_gt hle
    exact (Function.update_of_ne hne _ _).trans (h.callback n (Nat.le_of_succ_le hle))
  · have htable := tableWork_succ QueryCallback.work s.callback s.pool.nextCb (some cb)
    have hcallback : (s.sendQuery query connectionId cb).callback =
        Function.update s.callback s.pool.nextCb (some cb) := rfl
    have hsame : (s.sendQuery query connectionId cb).outstanding = s.outstanding ∧
        (s.sendQuery query connectionId cb).fault = s.fault := ⟨rfl, rfl⟩
    simp only [Option.elim_some] at htable
    rw [work, work, haccepted, hnext, hcallback, hsame.1, hsame.2, htable]
    omega

/-! ## The lambdas -/

theorem Numbered.run (h : s.Numbered) (hc : s.pool.Consistent) (hu : s.pool.UserCode)
    {c : Clientconnection L} (hclient : s.clients client = some c) (granted : Bool)
    (op : ClientOp) : s.Within (s.run client c granted op) (op.work - 1) := by
  cases op with
  | read =>
      have ho := onRead_outcome s client c granted
      rw [Server.run]
      generalize s.onRead client c granted = t at ho
      cases ho with
      | deletes => exact (h.delete hc client).mono (Nat.zero_le _)
      | responds => exact (h.respond (h.lt_accepted hclient) c _ _).mono (by decide)
      | asks => exact (h.sendQuery hc hu _ _ .inserted).mono (by decide)
      | throws => exact (h.fail _).mono (Nat.zero_le _)
  | write =>
      have hd := (h.note (.written client c.isError)).delete hc client
      exact ⟨hd.numbered, hd.work_le⟩

theorem Numbered.withParent (h : s.Numbered) {k : ℕ} {conn : ℕ}
    {f : ℕ → Clientconnection L → Server J L}
    (hf : ∀ client c, s.clients client = some c → s.Within (f client c) k) :
    s.Within (s.withParent conn f) k := by
  have hstays : s.Within s k := ⟨h, Nat.le_add_right _ _⟩
  unfold Server.withParent
  split
  · exact hstays
  split
  · exact hstays
  split
  · next hclient => exact hf _ _ hclient
  · exact (h.fail _).mono (Nat.zero_le k)

theorem Numbered.runQuery (h : s.Numbered) (hc : s.pool.Consistent) (hu : s.pool.UserCode)
    (conn : ℕ) (granted : Bool) (cb : QueryCallback) :
    s.Within (s.runQuery conn granted cb) (cb.work - 1) := by
  cases cb with
  | inserted => exact h.withParent fun _ c _ => h.sendQuery hc hu _ _ .selected
  | selected =>
      refine h.withParent fun client c hclient => ?_
      split
      · exact (h.fail _).mono (Nat.zero_le _)
      split
      · exact h.respond (h.lt_accepted hclient) c _ _
      · exact (h.fail _).mono (Nat.zero_le _)

/-! ## One step -/

theorem Numbered.lt_of_outstanding (h : s.Numbered) {op : ClientOp}
    (hop : s.outstanding client = some op) : client < s.pool.accepted := by
  by_contra hno
  rw [h.outstanding client (Nat.le_of_not_lt hno)] at hop
  cases hop

theorem Numbered.lt_of_callback (h : s.Numbered) {n : ℕ} {cb : QueryCallback}
    (hcb : s.callback n = some cb) : n < s.pool.nextCb := by
  by_contra hno
  rw [h.callback n (Nat.le_of_not_lt hno)] at hcb
  cases hcb

theorem Numbered.handled (h : s.Numbered) (hlt : client < s.pool.accepted)
    (r : Receipt (Clientconnection L)) : (s.handled client r).Numbered := by
  refine ⟨fun client' hle => ?_, h.outstanding, h.callback⟩
  have hne : client' ≠ client := (hlt.trans_le hle).ne'
  exact (Function.update_of_ne hne _ _).trans (h.clients client' hle)

/-- What the handler was registered for is left to the lambda. -/
theorem Numbered.calledBack (h : s.Numbered) {op : ClientOp}
    (hop : s.outstanding client = some op) (r : Receipt (Clientconnection L)) :
    (s.calledBack client r).Numbered ∧ (s.calledBack client r).work + op.work = s.work := by
  have hlt := h.lt_of_outstanding hop
  have hhandled := h.handled hlt r
  constructor
  · refine ⟨hhandled.clients, fun client' hle => ?_, h.callback⟩
    have hne : client' ≠ client := (hlt.trans_le hle).ne'
    exact (Function.update_of_ne hne _ _).trans (h.outstanding client' hle)
  · have htable := tableWork_update ClientOp.work s.outstanding hlt none
    rw [hop] at htable
    simp only [Option.elim_none, Option.elim_some] at htable
    simp only [work, Server.calledBack, Server.handled]
    omega

theorem Numbered.entered (h : s.Numbered) {q : PendingQuery} {cb : QueryCallback}
    (hcb : s.callback q.cb = some cb) :
    (s.entered q).Numbered ∧ (s.entered q).work + cb.work = s.work := by
  have hlt := h.lt_of_callback hcb
  constructor
  · refine ⟨h.clients, h.outstanding, fun n hle => ?_⟩
    have hne : n ≠ q.cb := (hlt.trans_le hle).ne'
    exact (Function.update_of_ne hne _ _).trans (h.callback n hle)
  · have htable := tableWork_update QueryCallback.work s.callback hlt none
    rw [hcb] at htable
    simp only [Option.elim_none, Option.elim_some] at htable
    simp only [work, Server.entered]
    omega

theorem Numbered.pool (h : s.Numbered) (hc : s.pool.Consistent) {l : PoolLabel} {w : PoolState}
    (hp : s.Permits l) (hn : s.pool.next l = some w) :
    Numbered (J := J) { s with pool := w } ∧
      work (J := J) { s with pool := w } + s.pool.work = s.work + w.work := by
  obtain ⟨haccepted, hnext⟩ := hp.numbers (hc.outcome hn)
  refine ⟨⟨?_, ?_, ?_⟩, ?_⟩
  · exact fun client hle => h.clients client (haccepted ▸ hle)
  · exact fun client hle => h.outstanding client (haccepted ▸ hle)
  · exact fun cb hle => h.callback cb (hnext ▸ hle)
  · simp only [work, haccepted, hnext]
    omega

theorem Numbered.welcome (h : s.Numbered) {sockfd : ℤ} {connectionId : String} {granted : Bool}
    {w : PoolState} (hn : s.pool.next (.accept connectionId) = some w) :
    (s.welcome sockfd connectionId granted w).Numbered := by
  obtain rfl := Option.some.inj hn
  have hnew {client : ℕ} (hle : s.pool.accepted + 1 ≤ client) :
      client ≠ s.pool.accepted ∧ s.pool.accepted ≤ client := by
    omega
  refine ⟨fun client hle => ?_, fun client hle => ?_, h.callback⟩
  · obtain ⟨hne, hle⟩ := hnew hle
    exact (Function.update_of_ne hne _ _).trans (h.clients client hle)
  · obtain ⟨hne, hle⟩ := hnew hle
    exact (Function.update_of_ne hne _ _).trans (h.outstanding client hle)

/-- An event that calls back takes more off the measure than its lambda adds. -/
theorem Numbered.called (h : s.Numbered) (hc : s.pool.Consistent) (hs : s.pool.stack = [])
    {op : ClientOp} (hop : s.outstanding client = some op) (r : Receipt (Clientconnection L))
    (granted : Bool) :
    ((s.calledBack client r).run client r.conn granted op).Numbered ∧
      ((s.calledBack client r).run client r.conn granted op).work < s.work := by
  obtain ⟨hnumbered, hwork⟩ := h.calledBack hop r
  have hrun := hnumbered.run hc (userCode_of_empty hs) (Function.update_self ..) granted op
  have hpos : 0 < op.work := by cases op <;> decide
  have hle := hrun.work_le
  exact ⟨hrun.numbered, by omega⟩

/-- So does the lambda of a query. -/
theorem Numbered.bodyRun (h : s.Numbered) (hc : s.pool.Consistent) {conn : ℕ} {q : PendingQuery}
    {rest : List Frame} (hs : s.pool.stack = .user conn q :: rest) {cb : QueryCallback}
    (hcb : s.callback q.cb = some cb) (granted : Bool) :
    ((s.entered q).runQuery conn granted cb).Numbered ∧
      ((s.entered q).runQuery conn granted cb).work < s.work := by
  obtain ⟨hnumbered, hwork⟩ := h.entered hcb
  have hrun := hnumbered.runQuery hc (userCode_of_top hs) conn granted cb
  have hpos : 0 < cb.work := by cases cb <;> decide
  have hle := hrun.work_le
  exact ⟨hrun.numbered, by omega⟩

theorem work_fail (hfault : s.fault = none) (f : Fault) : (s.fail f).work < s.work := by
  rw [work, work, Server.fail, hfault]
  exact Nat.lt_succ_self _

theorem Numbered.next (h : s.Numbered) (hc : s.pool.Consistent) (hn : s.next l = some t) :
    t.Numbered := by
  cases (step_outcome hn).2 with
  | pool hp hpool => exact (h.pool hc hp hpool).1
  | accept hs hpool => exact h.welcome hpool
  | waits hs hop => exact h.handled (h.lt_of_outstanding hop) _
  | calls hs hop => exact (h.called hc hs hop _ _).1
  | stale => exact (h.fail _).numbered
  | body hs hcb => exact (h.bodyRun hc hs hcb _).1

/-- Only a new client adds to what is left to do, -/
theorem Numbered.work_le (h : s.Numbered) (hc : s.pool.Consistent) (hl : ¬ l.Accepts)
    (hn : s.next l = some t) : t.work ≤ s.work := by
  obtain ⟨hfault, ho⟩ := step_outcome hn
  cases ho with
  | pool hp hpool =>
      have hle := hc.work_le hp.not_submits hpool
      have hsame := (h.pool hc hp hpool).2
      omega
  | accept => exact absurd trivial hl
  | waits => exact le_rfl
  | calls hs hop => exact (h.called hc hs hop _ _).2.le
  | stale => exact (work_fail hfault _).le
  | body hs hcb => exact (h.bodyRun hc hs hcb _).2.le

/-- and whatever is paid takes something off it. -/
theorem Numbered.work_lt (h : s.Numbered) (hc : s.pool.Consistent)
    (hbuilt : ∀ i, .construct i ∉ s.pool.stack) (hp : s.Pays l d) (hn : s.next l = some t) :
    t.work < s.work := by
  obtain ⟨hfault, ho⟩ := step_outcome hn
  have hfails (hsame : t.fault = s.fault) : ¬ s.Fails l := by
    rintro ⟨t', ht', hne⟩
    obtain rfl := Option.some.inj (hn.symm.trans ht')
    exact hne (hsame.trans hfault)
  cases ho with
  | @pool l' w hpermits hpool =>
      have hsame := (h.pool hc hpermits hpool).2
      have hpays : ∃ d', s.pool.Pays l' d' := by
        have hp := hp.resolve_left (hfails rfl)
        cases d with
        | pool d =>
            obtain ⟨l'', he, hpays⟩ | ⟨-, granted, he⟩ := hp
            · exact ⟨d, ServerLabel.pool.inj he ▸ hpays⟩
            · cases he
        | event client =>
            obtain ⟨ev, recvs, sends, granted, he, -⟩ := hp
            cases he
      obtain ⟨d', hpays⟩ := hpays
      have hlt := hc.work_lt hbuilt hpays hpool
      omega
  | accept =>
      have hp := hp.resolve_left (hfails rfl)
      cases d with
      | pool d =>
          obtain ⟨l', he, -⟩ | ⟨-, granted, he⟩ := hp <;> cases he
      | event client =>
          obtain ⟨ev, recvs, sends, granted, he, -⟩ := hp
          cases he
  | waits hs hop hclient hr hh hcb =>
      have hp := hp.resolve_left (hfails rfl)
      cases d with
      | pool d =>
          obtain ⟨l', he, -⟩ | ⟨-, granted, he⟩ := hp <;> cases he
      | event client =>
          obtain ⟨ev, recvs, sends, granted, he, hcalls⟩ := hp
          cases he
          cases hcb.symm.trans (hcalls _ hclient)
  | calls hs hop => exact (h.called hc hs hop _ _).2
  | stale => exact work_fail hfault _
  | body hs hcb => exact (h.bodyRun hc hs hcb _).2

theorem reachable_numbered (h : (serverMachine J L).Reachable s) : s.Numbered := by
  obtain ⟨tr, hr⟩ := h
  induction hr with
  | start h =>
      obtain rfl : _ = Server.start := h
      exact numbered_start
  | step hr hn ih =>
      exact ih.next (PoolState.reachable_consistent (reachable_pool ⟨_, hr⟩)) hn

/-! ## Debts -/

/-- A handler that was registered still is, or the program has failed. -/
def Holds (s t : Server J L) (client : ℕ) : Prop :=
  (s.outstanding client).isSome → t.fault ≠ none ∨ (t.outstanding client).isSome

theorem holds_fail (f : Fault) : s.Holds (s.fail f) client :=
  fun _ => Or.inl (Option.some_ne_none f)

theorem holds_delete (client' : ℕ) : s.Holds (s.delete client') client := by
  unfold Server.delete
  split
  · exact Or.inr
  · exact holds_fail _

/-- Only a client without an operation is answered. -/
theorem holds_respond (client' : ℕ) (c : Clientconnection L) (body : Bytes) (granted : Bool) :
    s.Holds (s.respond client' c body granted) client := by
  unfold Server.respond
  split
  · next hnone =>
      intro hout
      have hne : client ≠ client' := by
        rintro rfl
        rw [hnone] at hout
        cases hout
      exact Or.inr ((congrArg Option.isSome (Function.update_of_ne hne _ _)).trans hout)
  · exact holds_fail _

theorem holds_run (client' : ℕ) (c : Clientconnection L) (granted : Bool) (op : ClientOp) :
    s.Holds (s.run client' c granted op) client := by
  cases op with
  | read =>
      have ho := onRead_outcome s client' c granted
      rw [Server.run]
      generalize s.onRead client' c granted = t at ho
      cases ho with
      | deletes => exact holds_delete client'
      | responds => exact holds_respond client' c _ granted
      | asks => exact Or.inr
      | throws => exact holds_fail _
  | write => exact holds_delete (s := s.note _) client'

theorem holds_withParent {conn : ℕ} {f : ℕ → Clientconnection L → Server J L}
    (hf : ∀ client' c, s.Holds (f client' c) client) :
    s.Holds (s.withParent conn f) client := by
  unfold Server.withParent
  split
  · exact Or.inr
  split
  · exact Or.inr
  split
  · exact hf _ _
  · exact holds_fail _

theorem holds_runQuery (conn : ℕ) (granted : Bool) (cb : QueryCallback) :
    s.Holds (s.runQuery conn granted cb) client := by
  cases cb with
  | inserted => exact holds_withParent fun _ _ => Or.inr
  | selected =>
      refine holds_withParent fun client' c => ?_
      split
      · exact holds_fail _
      split
      · exact holds_respond client' c _ granted
      · exact holds_fail _

/-- A registered handler stays until its callback is called. -/
theorem Numbered.held_next (h : s.Numbered) (hout : (s.outstanding client).isSome)
    (hn : s.next l = some t) : s.Pays l (.event client) ∨ (t.outstanding client).isSome := by
  have hholds (hh : t.fault ≠ none ∨ (t.outstanding client).isSome) :
      s.Pays l (.event client) ∨ (t.outstanding client).isSome :=
    hh.imp_left fun hne => Or.inl ⟨t, hn, hne⟩
  cases (step_outcome hn).2 with
  | pool => exact Or.inr hout
  | accept =>
      refine Or.inr ?_
      obtain ⟨op, hop⟩ := Option.isSome_iff_exists.1 hout
      have hne := (h.lt_of_outstanding hop).ne
      exact (congrArg Option.isSome (Function.update_of_ne hne _ _)).trans hout
  | waits => exact Or.inr hout
  | @calls client' op c ev recvs sends granted hs hop hclient hr hh hcb =>
      by_cases he : client = client'
      · subst he
        refine Or.inl (Or.inr ⟨ev, recvs, sends, granted, rfl, fun c' hc' => ?_⟩)
        obtain rfl := Option.some.inj (hclient.symm.trans hc')
        exact hcb
      · refine hholds (holds_run client' _ granted op ?_)
        exact (congrArg Option.isSome (Function.update_of_ne he _ _)).trans hout
  | stale => exact hholds (holds_fail _ hout)
  | body => exact hholds (holds_runQuery _ _ _ hout)

/-- What the users of the pool do pays nothing that is owed to it. -/
theorem owed_quiet {w w' : PoolState} (hc : w.Consistent) (hq : Quiet w w') {d : PoolDebt}
    (hd : w.Owed d) : w'.Owed d := by
  obtain rfl | ⟨l, hn, huser⟩ := hq
  · exact hd
  · refine (hc.owed_next hn hd).resolve_left fun hpays => ?_
    cases d with
    | call => cases l <;> first | exact huser.elim | exact hpays.elim
    | answer c q =>
        obtain ⟨ev, a, rfl, -⟩ := hpays
        exact huser.elim

/-- **Only its payment ends a debt**, or the failure of the program. -/
theorem Numbered.owed_next (h : s.Numbered) (hc : s.pool.Consistent) (hd : s.Owed d)
    (hn : s.next l = some t) : s.Pays l d ∨ t.Owed d := by
  by_cases hfault : t.fault = none
  · cases d with
    | event client => exact (h.held_next hd.2 hn).imp_right fun hout => ⟨hfault, hout⟩
    | pool d =>
        have hd : s.pool.Owed d := hd.2
        have ho := (step_outcome hn).2
        by_cases hl : ∃ l', l = .pool l'
        · obtain ⟨l', rfl⟩ := hl
          cases ho with
          | pool hp hpool =>
              obtain hpays | howed := hc.owed_next hpool hd
              · exact Or.inl (Or.inr (Or.inl ⟨l', rfl, hpays⟩))
              · exact Or.inr ⟨hfault, howed⟩
        · exact Or.inr ⟨hfault, owed_quiet hc (ho.quiet (not_exists.1 hl)) hd⟩
  · exact Or.inl (Or.inl ⟨t, hn, hfault⟩)

/-- An error on a client's socket calls it back. -/
theorem payable_event (hfault : s.fault = none) (hs : s.pool.stack = [])
    (hout : (s.outstanding client).isSome) :
    ∃ l t, s.Pays l (.event client) ∧ s.next l = some t := by
  obtain ⟨op, hop⟩ := Option.isSome_iff_exists.1 hout
  have heffects (c : Clientconnection L) :
      (c.handleEvent ⟨epollErr, 0⟩ [] []).effects = [.removeTrack c.socket, .callback] := by
    have herr : (⟨epollErr, 0⟩ : EpollEvent).has epollErr = true := by decide
    rw [Clientconnection.handleEvent, if_pos herr]
  have hreports : op.Reports ⟨epollErr, 0⟩ := by cases op <;> decide
  have hsome : (s.next (.event client ⟨epollErr, 0⟩ [] [] true)).isSome := by
    rw [Server.next, if_pos hfault]
    simp only [step, hop, hs, hreports, and_self, if_true]
    split
    · rfl
    next c hc =>
    have hhonest : HonestSends (c.handleEvent ⟨epollErr, 0⟩ [] []).effects := by
      rw [heffects]
      exact List.forall_mem_nil _
    rw [if_pos hhonest]
    split <;> rfl
  obtain ⟨t, ht⟩ := Option.isSome_iff_exists.1 hsome
  refine ⟨_, t, Or.inr ⟨_, _, _, _, rfl, fun c _ => ?_⟩, ht⟩
  rw [heffects]
  rfl

/-- What can be paid to the pool the server can let it be paid. -/
theorem payable_pool (hfault : s.fault = none) (hbuilt : ∀ i, .construct i ∉ s.pool.stack)
    {d : PoolDebt} (hd : s.pool.Owed d) : ∃ l d' t, s.Pays l d' ∧ s.next l = some t := by
  have hnext {l : ServerLabel} (hsome : (s.step l).isSome) : ∃ t, s.next l = some t := by
    rw [Server.next, if_pos hfault]
    exact Option.isSome_iff_exists.1 hsome
  obtain ⟨l, d', w, hpays, hw⟩ := PoolState.payable hbuilt hd
  by_cases hpermits : s.Permits l
  · obtain ⟨t, ht⟩ := hnext (l := .pool l) (by rw [step, if_pos hpermits, hw]; rfl)
    exact ⟨_, .pool d', t, Or.inr (Or.inl ⟨l, rfl, hpays⟩), ht⟩
  · -- the callback on top of the stack has not been run
    obtain rfl : l = .ret := by
      cases d' with
      | call =>
          cases l with
          | ret => rfl
          | accept => exact hpays.elim
          | delete => exact hpays.elim
          | submit => exact hpays.elim
          | _ => exact absurd trivial hpermits
      | answer c q =>
          obtain ⟨ev, a, rfl, -⟩ := hpays
          exact absurd trivial hpermits
    simp only [PoolState.next] at hw
    split at hw
    case h_2 => cases hw
    next conn q rest hs =>
    rw [Permits, Returning, hs] at hpermits
    obtain ⟨cb, hcb⟩ := Option.ne_none_iff_exists'.1 hpermits
    obtain ⟨t, ht⟩ := hnext (l := .body true) (by simp only [step, hs, hcb]; rfl)
    exact ⟨_, .pool .call, t, Or.inr (Or.inr ⟨rfl, true, rfl⟩), ht⟩

/-- While anything is owed, something can be paid. -/
theorem payable (hbuilt : ∀ i, .construct i ∉ s.pool.stack) (hd : s.Owed d) :
    ∃ l d' t, s.Pays l d' ∧ s.next l = some t := by
  obtain ⟨hfault, hd⟩ := hd
  cases d with
  | pool d => exact payable_pool hfault hbuilt hd
  | event client =>
      by_cases hs : s.pool.stack = []
      · obtain ⟨l, t, hpays, hn⟩ := payable_event hfault hs hd
        exact ⟨l, _, t, hpays, hn⟩
      · exact payable_pool hfault hbuilt (d := .call) hs

/-! ## Rest -/

/-- Short of rest, something is owed. -/
theorem owed_of_not_atRest (hw : s.pool.Serving) (hno : ¬ s.AtRest) : ∃ d, s.Owed d := by
  have hfault : s.fault = none := by_contra fun hne => hno (Or.inl hne)
  by_contra hnone
  have hpool (d : PoolDebt) : ¬ s.pool.Owed d := fun hd => hnone ⟨.pool d, hfault, hd⟩
  have hdone : s.pool.Done := by_contra fun hne =>
    let ⟨d, hd⟩ := hw.owed hne
    hpool d hd
  refine hno (Or.inr ⟨by_contra (hpool .call), hdone, fun client => ?_⟩)
  rw [← Option.not_isSome_iff_eq_none]
  exact fun hout => hnone ⟨.event client, hfault, hout⟩

/-- A server at rest stays there until a client comes. -/
theorem AtRest.next (h : s.AtRest) (hc : s.pool.Consistent) (hl : ¬ l.Accepts)
    (hn : s.next l = some t) : t.AtRest := by
  obtain ⟨hfault, ho⟩ := step_outcome hn
  obtain ⟨hs, hdone, hout⟩ := h.resolve_left fun hne => hne hfault
  cases ho with
  | pool hp hpool =>
      refine Or.inr ⟨?_, hc.done_next hdone hp.not_submits hpool, hout⟩
      cases hc.outcome hpool with
      | accept => exact hs
      | delete => exact hs
      | grant => exact hp.elim
      | defer => exact hs
      | connectWaits => exact hs
      | connectFails => exact hs
      | connects => exact hs
      | queryWaits => exact hs
      | queryCalls _ hq =>
          have hmem := PoolState.mem_inUse_of_flying hq
          rw [hdone.2] at hmem
          cases hmem
      | construct hs' => cases hs.symm.trans hs'
      | constructed hs' => cases hs.symm.trans hs'
      | resume hs' => cases hs.symm.trans hs'
      | drained hs' => cases hs.symm.trans hs'
      | sendCalls hs' => cases hs.symm.trans hs'
      | sendWaits hs' => cases hs.symm.trans hs'
      | ret hs' => cases hs.symm.trans hs'
  | accept => exact absurd trivial hl
  | waits _ hop => cases (hout _).symm.trans hop
  | calls _ hop => cases (hout _).symm.trans hop
  | stale hop => cases (hout _).symm.trans hop
  | body hs' => cases hs.symm.trans hs'

/-- At rest, everybody who has been looked after is gone. -/
theorem Attended.gone (h : s.Attended) (ha : s.Accounted) (hp : s.pool.Consistent)
    (hrest : s.AtRest) (client : ℕ) : s.clients client = none := by
  obtain ⟨hs, ⟨hpending, hidle⟩, hout⟩ := hrest.resolve_left fun hne => hne h.fault
  by_contra hne
  obtain ⟨c, hc⟩ := Option.ne_none_iff_exists'.1 hne
  obtain hop | ⟨q, ⟨hsubmitted, hcb⟩, -⟩ := h.clients client c hc
  · rw [hout] at hop
    cases hop
  · have huncompleted : s.pool.uncompleted = [] := by
      rw [PoolState.inUse, List.append_eq_nil_iff] at hidle
      rw [PoolState.uncompleted, PoolState.held, hpending, hidle.1]
      rfl
    obtain hwaits | hcalled := hp.place hsubmitted
    · rw [huncompleted] at hwaits
      cases hwaits
    · rw [ha.returned hs hcalled] at hcb
      cases hcb

/-- A server whose pool is working. -/
structure Serving (s : Server J L) : Prop where
  reachable : (serverMachine J L).Reachable s
  pool : s.pool.Serving

theorem Serving.next (h : s.Serving) (hn : s.next l = some t) : t.Serving := by
  refine ⟨h.reachable.step hn, ?_⟩
  obtain hsame | ⟨l', hn', -⟩ := (step_outcome hn).2.pool_step
  · rw [hsame]
    exact h.pool
  · exact h.pool.next hn'

/-- From every such state the server can be given what it is owed. -/
theorem Serving.exists_fair (h : s.Serving) : ∃ e : (serverMachine J L).Execution s,
    e.Fair Owed Pays ∧ e.Finitely ServerLabel.Accepts := by
  refine Machine.exists_fair (I := Serving) work h ?_ ?_
  · intro s l t hs hn
    refine ⟨hs.next hn, fun d hd => ?_⟩
    exact (reachable_numbered hs.reachable).owed_next hs.pool.consistent hd hn
  · intro s d hs hd
    obtain ⟨l, d', t, hpays, hn⟩ := payable hs.pool.built hd
    exact ⟨l, t, hn, (reachable_numbered hs.reachable).work_lt hs.pool.consistent hs.pool.built
      hpays hn⟩

end Server

open Server

/-- **The server comes to rest.** Let a connection to the database be there, and no query wait with
    no completion to come. If functions that have been called go on, every registered handler gets
    an event that calls back, every query in flight gets its answer, and only finitely many clients
    come, then from some time on no handler is registered and no query waits or is executed, or the
    program has failed. If no `connectionId` has been given out twice and nobody has been forgotten,
    every client is gone then. -/
theorem comes_to_rest {J : Json} {L : Llhttp} {s : Server J L}
    (h : (serverMachine J L).Reachable s) (hmember : s.pool.pool.connectedConns ≠ [])
    (hattended : s.pool.Attended) {e : (serverMachine J L).Execution s}
    (hfair : e.Fair Owed Pays) (hfin : e.Finitely ServerLabel.Accepts) :
    e.Settles fun s => s.AtRest ∧
      (s.pool.DistinctIds → s.Attended → ∀ client, s.clients client = none) := by
  have hserving : s.Serving := ⟨h, reachable_pool h, hmember, hattended⟩
  obtain ⟨n, hrest⟩ : e.Settles AtRest := by
    refine Execution.settles hfair hfin (I := Serving) hserving ?_ ?_ ?_ work ?_ ?_
    · exact fun s l t hs hn => hs.next hn
    · exact fun s l t hs hrest hl hn => hrest.next hs.pool.consistent hl hn
    · exact fun s hs hno => owed_of_not_atRest hs.pool hno
    · exact fun s l t hs hl hn =>
        (reachable_numbered hs.reachable).work_le hs.pool.consistent hl hn
    · exact fun s l t d hs hpays hn =>
        (reachable_numbered hs.reachable).work_lt hs.pool.consistent hs.pool.built hpays hn
  refine ⟨n, fun i hi => ⟨hrest i hi, fun hids hattended client => ?_⟩⟩
  have hreach :=
    e.throughout (I := (serverMachine J L).Reachable) h (fun s l t hs hn => hs.step hn) i
  exact hattended.gone (reachable_accounted hreach hids)
    (PoolState.reachable_consistent (reachable_pool hreach)) (hrest i hi) client

/-- The `SELECT` waits, and the loop is about to hand it over. -/
theorem comes_to_rest_post : ∃ s : Server shelfJson postParser,
    (serverMachine shelfJson postParser).Reachable s ∧
      s.pool.pool.pendingQueries = [⟨selectQuery, "c", 1⟩] ∧
      ∃ e : (serverMachine shelfJson postParser).Execution s,
        e.Fair Owed Pays ∧ e.Finitely ServerLabel.Accepts ∧
        e.Settles fun s => s.AtRest ∧
          (s.pool.DistinctIds → s.Attended → ∀ client, s.clients client = none) := by
  have hrun : ((serverMachine shelfJson postParser).exec .start (postBook.take 18)).map
      (fun s => (s.pool.pool.pendingQueries, s.pool.pool.connectedConns, s.pool.stack)) =
      some ([⟨selectQuery, "c", 1⟩], [0], [.drain]) := by decide +kernel
  obtain ⟨s, hs, hstate⟩ := Option.map_eq_some_iff.1 hrun
  simp only [Prod.mk.injEq] at hstate
  obtain ⟨hpending, hmember, hstack⟩ := hstate
  have hreach : (serverMachine shelfJson postParser).Reachable s :=
    Reachable.exec (Reachable.start (M := serverMachine shelfJson postParser) rfl) hs
  have hmember : s.pool.pool.connectedConns ≠ [] := by
    rw [hmember]
    exact List.cons_ne_nil _ _
  have hattended : s.pool.Attended := by
    refine Or.inr (Or.inr ?_)
    rw [hstack]
    exact List.mem_cons_self
  obtain ⟨e, hfair, hfin⟩ := Serving.exists_fair ⟨hreach, reachable_pool hreach, hmember, hattended⟩
  exact ⟨s, hreach, hpending, e, hfair, hfin, comes_to_rest hreach hmember hattended hfair hfin⟩

end FiberConn
