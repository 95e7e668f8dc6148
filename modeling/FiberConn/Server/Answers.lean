import FiberConn.Server.Responses
import Mathlib.Data.List.TakeWhile

set_option autoImplicit false

/-! # What the responses of the server say

A response made from the database is made by the callback of a `SELECT`, long after its client's
request was read. `Asked` is what is known of a query from the moment it is submitted: whose request
it is for and, for a `SELECT`, that the `INSERT` of this request had been executed by then. With the
isolation of queries in the pool, `Answers` then says what the response was made from. Both are
about the log of the pool, and a longer log says the same about them (`Later`). -/

namespace FiberConn

open Machine

/-! ## Completed queries -/

theorem history_append {α : Type} (select : Obs → Option α) (newer older : List Obs) :
    history select (newer ++ older) = history select older ++ history select newer := by
  induction newer with
  | nil => exact (List.append_nil _).symm
  | cons o newer ih =>
      rw [List.cons_append, history, history]
      split
      · rw [ih, List.append_assoc]
      · exact ih

theorem exists_called {q : PendingQuery} {log : List Obs} (h : q ∈ history Obs.called? log) :
    ∃ conn, .called conn q ∈ log := by
  induction log with
  | nil => cases h
  | cons o log ih =>
      have hold (h : q ∈ history Obs.called? log) : ∃ conn, .called conn q ∈ o :: log :=
        let ⟨conn, hmem⟩ := ih h
        ⟨conn, List.mem_cons_of_mem _ hmem⟩
      cases o with
      | called conn q' =>
          rcases List.mem_append.1 h with h | h
          · exact hold h
          · exact ⟨conn, by rw [List.mem_singleton.1 h]; exact List.mem_cons_self⟩
      | _ => exact hold h

theorem resultOf_eq_some {n : ℕ} {x : Option ℕ × Effect} {res : PGresult}
    (h : resultOf n x = some res) : x = (some n, .pq (.getResult (some res))) := by
  unfold resultOf at h
  split at h
  · next tag res' =>
      obtain ⟨rfl, hres⟩ := Option.ite_none_right_eq_some.1 h
      rw [Option.some.inj hres]
  · cases h

/-- A query that has not failed has no bad result. -/
theorem okStatus_of_not_failed {n : ℕ} {log : List Obs} (h : ¬ Failed n log) {res : PGresult}
    (hres : res ∈ resultsOf n log) : Dbconnection.okStatus res := by
  by_contra hbad
  obtain ⟨o, ho, hmem⟩ := List.mem_flatMap.1 hres
  obtain ⟨x, hx, hof⟩ := List.mem_filterMap.1 hmem
  rw [resultOf_eq_some hof] at hx
  exact h ⟨o, List.mem_reverse.1 ho, Or.inl ⟨_, hx, hbad⟩⟩

/-- Without an error, the connection shows every result of the query. -/
theorem Answered.results_eq {conn : Dbconnection} {n : ℕ} {log : List Obs}
    (h : Answered conn n log) (herr : conn.isError = false) :
    ¬ Failed n log ∧ conn.results = (resultsOf n log).map Dbconnection.copyResult := by
  have hok : ¬ Failed n log := fun hf => by
    rw [h.isError.2 hf] at herr
    cases herr
  refine ⟨hok, ?_⟩
  rw [h.results, List.takeWhile_eq_self_iff.2 fun res hres => ?_]
  exact decide_eq_true (okStatus_of_not_failed hok hres)

/-- The callback of the query has been called, and nothing failed. -/
structure Executed (log : List Obs) (q : PendingQuery) : Prop where
  called : q ∈ history Obs.called? log
  ok : ¬ Failed q.cb log

/-- A longer log that says nothing new about completed queries. -/
structure Later (log log' : List Obs) : Prop where
  suffix : log <:+ log'
  same : ∀ q ∈ history Obs.called? log, SameFor q.cb log log'

theorem Later.refl (log : List Obs) : Later log log := ⟨List.suffix_rfl, fun _ _ => .refl _ _⟩

theorem Later.mem_history {log log' : List Obs} (h : Later log log') {α : Type}
    {select : Obs → Option α} {x : α} (hx : x ∈ history select log) : x ∈ history select log' := by
  obtain ⟨newer, rfl⟩ := h.suffix
  rw [history_append]
  exact List.mem_append_left _ hx

theorem Executed.later {log log' : List Obs} (h : Later log log') {q : PendingQuery}
    (hq : Executed log q) : Executed log' q :=
  ⟨h.mem_history hq.called, fun hf => hq.ok ((h.same q hq.called).failed.1 hf)⟩

/-- A step of the pool is about a query that is not completed, if it is about one. -/
theorem PoolState.Served.later {w w' : PoolState} {l : PoolLabel} (hs : w.Served)
    (h : w.Consistent) (ho : Outcome w l w') (hG : w.CommandFree l) : Later w.log w'.log where
  suffix := by
    cases ho with
    | grant => exact ⟨[_, _], rfl⟩
    | defer => exact ⟨[_, _], rfl⟩
    | sendCalls => exact ⟨[_, _], rfl⟩
    | queryCalls => exact ⟨[_, _], rfl⟩
    | constructed => exact List.suffix_rfl
    | drained => exact List.suffix_rfl
    | ret => exact List.suffix_rfl
    | _ => exact List.suffix_cons _ _
  same q hq := by
    obtain hsame | ⟨x, hx, hcb, -⟩ := hs.touched h hG ho q.cb
    · exact hsame
    · have hmem := mem_uncompleted hx
      obtain rfl := hs.serial q (h.submitted_of_called hq) x.2 (h.submitted_of_uncompleted hmem) hcb
      exact absurd hq (h.completed_disjoint hmem)

/-! ## What responses are made from -/

namespace Json

variable (J : Json)

/-- What is known of an open query, for a client with this request. -/
inductive Asked (log : List Obs) (request : HttpRequest) (q : PendingQuery) : QueryCallback → Prop
  | insert {book : ℤ × String} (h : J.Inserts request book)
      (hq : q.query = insertQuery book.1 book.2) : Asked log request q .inserted
  /-- The `INSERT` was executed, and its callback called, before this query was submitted. -/
  | select {conn : ℕ} {i : PendingQuery} {book : ℤ × String} (h : J.Inserts request book)
      (hi : i.query = insertQuery book.1 book.2) (hclient : i.client = q.client)
      (hdone : Executed log i) (horder : [.submitted q, .called conn i].Sublist log)
      (hq : q.query = selectQuery) : Asked log request q .selected

/-- How the response with this body, to the client with this `connectionId`, came about. -/
inductive Answers (log : List Obs) (connectionId : String) (request : HttpRequest) (body : Bytes) :
    Prop
  | atOnce (h : J.AtOnce request body)
  /-- From what libpq returned for the client's own `SELECT`. -/
  | fromTable {q : PendingQuery} (h : J.Asked log request q .selected)
      (hclient : q.client = connectionId) (hdone : Executed log q)
      (hbody : J.listing ((resultsOf q.cb log).map Dbconnection.copyResult) = some body)

variable {J : Json} {log log' : List Obs} {request : HttpRequest}

theorem Asked.later (h : Later log log') {q : PendingQuery} {cb : QueryCallback}
    (ha : J.Asked log request q cb) : J.Asked log' request q cb := by
  cases ha with
  | insert hbook hq => exact .insert hbook hq
  | select hbook hi hclient hdone horder hq =>
      exact .select hbook hi hclient (hdone.later h) (horder.trans h.suffix.sublist) hq

theorem Answers.later (h : Later log log') {connectionId : String} {body : Bytes}
    (ha : J.Answers log connectionId request body) : J.Answers log' connectionId request body := by
  cases ha with
  | atOnce hat => exact .atOnce hat
  | @fromTable q hq hclient hdone hbody =>
      refine .fromTable (hq.later h) hclient (hdone.later h) ?_
      rw [(h.same q hdone.called).results]
      exact hbody

end Json

/-! ## The invariant -/

namespace Server

variable {J : Json} {L : Llhttp} {s t : Server J L} {l : ServerLabel}
  {client : ℕ} {c : Clientconnection L}

structure Truthful (s : Server J L) : Prop where
  told : ∀ client request body, (request, body) ∈ s.answers client →
    ∃ connectionId, (client, connectionId) ∈ history Obs.accepted? s.pool.log ∧
      J.Answers s.pool.log connectionId request body
  asked : ∀ q cb client c, s.Open q → s.callback q.cb = some cb → s.clients client = some c →
    c.connectionId = q.client → J.Asked s.pool.log c.request q cb

theorem truthful_start : (start : Server J L).Truthful := by
  constructor <;> simp [start, answers]

/-- The log has become longer: only what is new needs to be shown. -/
theorem Truthful.later (h : s.Truthful) (hl : Later s.pool.log t.pool.log)
    (htold : ∀ client request body, (request, body) ∈ t.answers client →
      (request, body) ∈ s.answers client ∨
        ∃ connectionId, (client, connectionId) ∈ history Obs.accepted? s.pool.log ∧
          J.Answers s.pool.log connectionId request body)
    (hasked : ∀ q cb client c, t.Open q → t.callback q.cb = some cb → t.clients client = some c →
      c.connectionId = q.client →
      s.Open q ∧ s.callback q.cb = some cb ∧ s.clients client = some c ∨
        J.Asked t.pool.log c.request q cb) : t.Truthful where
  told client request body hmem := by
    obtain ⟨connectionId, hacc, hans⟩ := (htold client request body hmem).elim
      (h.told client request body) id
    exact ⟨connectionId, hl.mem_history hacc, hans.later hl⟩
  asked q cb client c hq hcb hc hid := by
    obtain ⟨hq, hcb, hc⟩ | hnew := hasked q cb client c hq hcb hc hid
    · exact (h.asked q cb client c hq hcb hc hid).later hl
    · exact hnew

theorem Truthful.delete (h : s.Truthful) (hs : s.pool.Served) (hp : s.pool.Consistent)
    (ha : s.Accounted) (hr : s.Running client c) : (s.delete client).Truthful := by
  have hn : s.pool.next (.delete client) = some (s.delete client).pool := by
    rw [delete_eq (ha.live_of hr.there), PoolState.next, ha.live_of hr.there]
  have hl := hs.later hp (hp.outcome hn) trivial
  refine h.later hl (fun client' request body hmem => Or.inl ?_)
    fun q cb client' c' hq hcb hc' hid => Or.inl ?_
  · rw [delete_eq (ha.live_of hr.there)] at hmem
    exact hmem
  · rw [delete_eq (ha.live_of hr.there)] at hq hcb hc'
    dsimp only at hc'
    by_cases he : client' = client
    · rw [he, Function.update_self] at hc'
      cases hc'
    · rw [Function.update_of_ne he] at hc'
      exact ⟨hq, hcb, hc'⟩

theorem Truthful.respond (h : s.Truthful) (hr : s.Running client c)
    (hacc : (client, c.connectionId) ∈ history Obs.accepted? s.pool.log) {body : Bytes}
    (hans : J.Answers s.pool.log c.connectionId c.request body) (granted : Bool) :
    (s.respond client c body granted).Truthful := by
  have hl : Later s.pool.log (s.respond client c body granted).pool.log := by
    rw [pool_respond]
    exact .refl _
  refine h.later hl (fun client' request body' hmem => ?_)
    fun q cb client' c' hq hcb hc' hid => Or.inl ?_
  · by_cases he : client' = client
    · rw [he, answers_respond_self hr] at hmem
      obtain hnew | hold := List.mem_cons.1 hmem
      · obtain ⟨rfl, rfl⟩ := Prod.mk.inj hnew
        exact Or.inr ⟨_, he ▸ hacc, hans⟩
      · exact Or.inl (he ▸ hold)
    · rw [answers_respond_of_ne hr body granted he] at hmem
      exact Or.inl hmem
  · rw [open_respond hr] at hq
    rw [clients_respond hr] at hc'
    by_cases he : client' = client
    · rw [he, Function.update_self] at hc'
      obtain rfl := Option.some.inj hc'
      exact absurd hid.symm (hr.noQuery q hq)
    · rw [Function.update_of_ne he] at hc'
      rw [respond_eq hr] at hcb
      exact ⟨hq, hcb, hc'⟩

theorem later_sendQuery (hs : s.pool.Served) (hp : s.pool.Consistent) (hr : s.Running client c)
    (query : String) (cb : QueryCallback) :
    Later s.pool.log (s.sendQuery query c.connectionId cb).pool.log :=
  hs.later hp (hp.outcome (sendQuery_next hr.userCode query c.connectionId cb)) trivial

theorem Truthful.sendQuery (h : s.Truthful) (hs : s.pool.Served) (hp : s.pool.Consistent)
    (hr : s.Running client c)
    (hone : ∀ client' c', s.clients client' = some c' → c'.connectionId = c.connectionId →
      client' = client) {query : String} {cb : QueryCallback}
    (hasked : J.Asked (s.sendQuery query c.connectionId cb).pool.log c.request
      ⟨query, c.connectionId, s.pool.nextCb⟩ cb) :
    (s.sendQuery query c.connectionId cb).Truthful := by
  refine h.later (later_sendQuery hs hp hr query cb) (fun _ _ _ hmem => Or.inl hmem)
    fun q cb' client' c' hq hcb hc' hid => ?_
  rw [callback_sendQuery] at hcb
  rcases (open_sendQuery hp hr.userCode).1 hq with hold | rfl
  · rw [Function.update_of_ne (hp.fresh q hold.1).ne] at hcb
    exact Or.inl ⟨hold, hcb, hc'⟩
  · obtain rfl := hone client' c' hc' hid
    obtain rfl := Option.some.inj (hr.there.symm.trans hc')
    rw [Function.update_self] at hcb
    obtain rfl := Option.some.inj hcb
    exact Or.inr hasked

/-- Failing and history change nothing. -/
theorem Truthful.fail (h : s.Truthful) (f : Fault) : (s.fail f).Truthful := ⟨h.told, h.asked⟩

theorem Truthful.note (h : s.Truthful) (client : ℕ) (isError : Bool) :
    (s.note (.written client isError)).Truthful := ⟨h.told, h.asked⟩

/-- No query is open for a client whose handler runs. -/
theorem Truthful.handled (h : s.Truthful) (ha : s.Accounted) (hreg : s.pool.Registered)
    (hids : s.pool.DistinctIds) (hc : s.clients client = some c)
    (hop : s.outstanding client ≠ none) {r : Receipt (Clientconnection L)}
    (hr : r.conn.connectionId = c.connectionId) : (s.handled client r).Truthful := by
  refine h.later (.refl _) (fun _ _ _ hmem => Or.inl hmem)
    fun q cb client' c' hq hcb hc' hid => Or.inl ⟨hq, hcb, ?_⟩
  by_cases he : client' = client
  · rw [he] at hc'
    obtain rfl := Option.some.inj ((Function.update_self client _ s.clients).symm.trans hc')
    exact absurd (hid.symm.trans hr) (ha.ne_of_outstanding hreg hids hc hop hq)
  · exact (Function.update_of_ne he _ _).symm.trans hc'

theorem Truthful.entered (h : s.Truthful) (q : PendingQuery) : (s.entered q).Truthful := by
  refine h.later (.refl _) (fun _ _ _ hmem => Or.inl hmem)
    fun q' cb client c hq hcb hc hid => Or.inl ?_
  have hold : s.callback q'.cb = some cb := by
    have hcb : Function.update s.callback q.cb none q'.cb = some cb := hcb
    by_cases he : q'.cb = q.cb
    · rw [he, Function.update_self] at hcb
      cases hcb
    · rwa [Function.update_of_ne he] at hcb
  exact ⟨⟨hq.1, by rw [hold]; rfl⟩, hold, hc⟩

theorem Truthful.pool (h : s.Truthful) (hs : s.pool.Served) (hp : s.pool.Consistent)
    {l : PoolLabel} {w : PoolState} (hG : s.pool.CommandFree l) (hpermits : s.Permits l)
    (hn : s.pool.next l = some w) : Truthful (J := J) { s with pool := w } := by
  obtain ⟨hsub, -⟩ := hpermits.frame (hp.outcome hn)
  refine h.later (hs.later hp (hp.outcome hn) hG) (fun _ _ _ hmem => Or.inl hmem)
    fun q cb client c hq hcb hc hid => Or.inl ⟨⟨hsub ▸ hq.1, hq.2⟩, hcb, hc⟩

/-- A new client has no queries. -/
theorem Truthful.accept (h : s.Truthful) (hs : s.pool.Served) (hp : s.pool.Consistent)
    (ha : s.Accounted) (hreg : s.pool.Registered) {sockfd : ℤ} {connectionId : String}
    {granted : Bool} {w : PoolState} (hids : w.DistinctIds)
    (hn : s.pool.next (.accept connectionId) = some w) :
    (s.welcome sockfd connectionId granted w).Truthful := by
  have hl := hs.later hp (hp.outcome hn) trivial
  have hwelcome : (s.welcome sockfd connectionId granted w).Accounted := ha.accept hreg hn
  have hregw := hreg.next hp hn hids
  obtain rfl := Option.some.inj hn
  refine h.later hl (fun _ _ _ hmem => Or.inl hmem)
    fun q cb client c hq hcb hc hid => Or.inl ⟨hq, hcb, ?_⟩
  obtain ⟨client', c', hc', hid', -⟩ := ha.waiting q ⟨hq.1, hq.2⟩
  have hne : client' ≠ s.pool.accepted := (ha.lt_accepted hreg hc').ne
  obtain rfl := hwelcome.same_client hregw hids hc ((Function.update_of_ne hne _ _).trans hc')
    (hid.trans hid'.symm)
  exact (Function.update_of_ne hne _ _).symm.trans hc

theorem Accounted.mem_accepted (ha : s.Accounted) (hreg : s.pool.Registered)
    (hc : s.clients client = some c) :
    (client, c.connectionId) ∈ history Obs.accepted? s.pool.log :=
  ((hreg.live _ _).1 (ha.live_of hc)).1

theorem Truthful.run (h : s.Truthful) (hs : s.pool.Served) (hp : s.pool.Consistent)
    (ha : s.Accounted) (hreg : s.pool.Registered) (hids : s.pool.DistinctIds)
    (hr : s.Running client c) (granted : Bool) (op : ClientOp) :
    (s.run client c granted op).Truthful := by
  cases op with
  | read =>
      have ho := onRead_outcome s client c granted
      rw [Server.run]
      generalize s.onRead client c granted = t at ho
      cases ho with
      | deletes => exact h.delete hs hp ha hr
      | responds hat => exact h.respond hr (ha.mem_accepted hreg hr.there) (.atOnce hat) granted
      | asks hbook =>
          exact h.sendQuery hs hp hr
            (fun client' c' hc' he => ha.same_client hreg hids hc' hr.there he)
            (.insert hbook rfl)
      | throws => exact h.fail _
  | write => exact (h.note client c.isError).delete hs hp (ha.note _) (hr.note _)

/-- The lambda of a query uses what its connection shows, which is what libpq returned for it. -/
theorem Truthful.runQuery (h : s.Truthful) (hs : s.pool.Served) (hp : s.pool.Consistent)
    (ha : s.Accounted) (hreg : s.pool.Registered) (hids : s.pool.DistinctIds)
    (hr : s.Running client c) {conn : ℕ} {q : PendingQuery} (hcalling : (conn, q) ∈ s.pool.calling)
    (hid : c.connectionId = q.client)
    (hparent : (s.pool.conns conn).getParent s.pool.isAlive = some client) {cb : QueryCallback}
    (hasked : J.Asked s.pool.log c.request q cb) (granted : Bool) :
    (s.runQuery conn granted cb).Truthful := by
  have hans := hs.answered (conn, q) hcalling
  have hcalled := hp.called_of_calling hcalling
  have ho := runQuery_outcome hparent hr.there granted cb
  generalize s.runQuery conn granted cb = t at ho
  cases ho with
  | returns => exact h
  | asks herr =>
      have hl := later_sendQuery hs hp hr selectQuery .selected
      have hdone : Executed s.pool.log q := ⟨hcalled, (hans.results_eq herr).1⟩
      obtain ⟨conn', hmem⟩ := exists_called hcalled
      obtain ⟨-, -, -, -, newer, hlog⟩ :=
        (hp.outcome (sendQuery_next hr.userCode selectQuery c.connectionId .selected)).submits
      refine h.sendQuery hs hp hr
        (fun client' c' hc' he => ha.same_client hreg hids hc' hr.there he) ?_
      have horder : [.submitted ⟨selectQuery, c.connectionId, s.pool.nextCb⟩,
          .called conn' q].Sublist (s.sendQuery selectQuery c.connectionId .selected).pool.log := by
        rw [hlog]
        exact ((List.singleton_sublist.2 hmem).cons_cons _).trans (List.sublist_append_right _ _)
      obtain ⟨hbook, hq⟩ := hasked
      exact .select hbook hq hid.symm (hdone.later hl) horder rfl
  | responds herr hbody =>
      obtain ⟨hok, hresults⟩ := hans.results_eq herr
      rw [hresults] at hbody
      exact h.respond hr (ha.mem_accepted hreg hr.there)
        (.fromTable hasked hid.symm ⟨hcalled, hok⟩ hbody) granted
  | fails => exact h.fail _

theorem Truthful.next (h : s.Truthful) (hs : s.pool.Served) (ha : s.Accounted)
    (hreach : poolMachine.Reachable s.pool) (hids : t.pool.DistinctIds) (hids' : s.pool.DistinctIds)
    (hG : s.CommandFree l) (hn : s.next l = some t) : t.Truthful := by
  have hp := PoolState.reachable_consistent hreach
  have hreg := PoolState.reachable_registered hreach hids'
  cases (step_outcome hn).2 with
  | pool hpermits hpool => exact h.pool hs hp hG hpermits hpool
  | accept hempty hpool => exact h.accept hs hp ha hreg hids hpool
  | waits hempty hop hclient =>
      exact h.handled ha hreg hids' hclient (by rw [hop]; simp)
        (Clientconnection.handleEvent_connectionId ..)
  | @calls client op c ev recvs sends granted hempty hop hclient hr hh hcb =>
      have hname := Clientconnection.handleEvent_connectionId c ev recvs sends
      have hhandled := h.handled ha hreg hids' hclient (by rw [hop]; simp) hname
      obtain ⟨hcalled, hrunning⟩ := ha.calledBack hreg hids' hempty hop hclient hname
      have ht : (s.calledBack client (c.handleEvent ev recvs sends)).Truthful :=
        ⟨hhandled.told, hhandled.asked⟩
      exact ht.run hs hp hcalled hreg hids' hrunning granted op
  | stale => exact h.fail _
  | @body conn q cb rest granted hstack hcb =>
      obtain ⟨hentered, client, c, hid, hparent, hrunning⟩ := ha.entered hreach hids' hstack hcb
      have hcalling : (conn, q) ∈ s.pool.calling :=
        List.mem_filterMap.2 ⟨.user conn q, by rw [hstack]; exact List.mem_cons_self, rfl⟩
      exact (h.entered q).runQuery hs hp hentered hreg hids' hrunning hcalling hid hparent
        (h.asked q cb client c (open_of_top hp hstack hcb) hcb hrunning.there hid) granted

theorem run_truthful {tr : List (Server J L × ServerLabel)} (h : (serverMachine J L).Run tr s)
    (hG : Guarded CommandFree tr) (hids : s.pool.DistinctIds) : s.Truthful := by
  have hinv : s.Truthful ∧ s.pool.Served := by
    refine h.invariant_under (D := fun s => s.pool.DistinctIds)
      (I := fun s => s.Truthful ∧ s.pool.Served) hids
      (fun s l t hs hn hids => distinctIds_back hs hn hids) ?_ ?_ hG
    · rintro s rfl
      exact ⟨truthful_start, PoolState.served_start conninfo 10⟩
    · rintro s l t hs hids ⟨ht, hserved⟩ hG hn
      have hids' := distinctIds_back hs hn hids
      have hreach := reachable_pool hs
      refine ⟨ht.next hserved (reachable_accounted hs hids') hreach hids hids' hG hn, ?_⟩
      obtain hsame | ⟨l', hn', hfree⟩ := (step_outcome hn).2.pool_step
      · exact hsame ▸ hserved
      · exact hserved.next (PoolState.reachable_consistent hreach) (hfree hG) hn'
  exact hinv.1

end Server

open Server

/-- **Every response is delivered, and is the right one.** If libpq starts no command while one is
    in progress and no `connectionId` is given out twice, then in every state of a run a client has
    been sent nothing and not been answered, or it has been answered once. The response was made
    from its own request: at once, or from everything libpq returned for its own `SELECT`, which was
    submitted after its own `INSERT` had been executed. What it has been sent is a prefix of this
    response, and all of it once the `write` has been called back without an error. -/
theorem response_exact {J : Json} {L : Llhttp} {tr : List (Server J L × ServerLabel)}
    {s : Server J L} (h : (serverMachine J L).Run tr s) (hG : Guarded CommandFree tr)
    (hids : s.pool.DistinctIds) (client : ℕ) :
    s.answers client = [] ∧ s.sent client = [] ∧ .written client false ∉ s.log ∨
      ∃ connectionId request body, s.answers client = [(request, body)] ∧
        (client, connectionId) ∈ history Obs.accepted? s.pool.log ∧
        J.Answers s.pool.log connectionId request body ∧ s.sent client <+: httpResponse body ∧
        (.written client false ∈ s.log → s.sent client = httpResponse body) := by
  have ht := run_truthful h hG hids
  have hd := (reachable_delivering ⟨tr, h⟩ hids).1
  obtain ⟨hnone, hsent⟩ | ⟨request, body, hone, howed, hsent⟩ := hd.once client
  · exact Or.inl ⟨hnone, hsent, fun hmem => (hd.finished client hmem).1 hnone⟩
  · obtain ⟨connectionId, hacc, hans⟩ :=
      ht.told client request body (by rw [hone]; exact List.mem_cons_self)
    exact Or.inr ⟨connectionId, request, body, hone, hacc, hans, hsent,
      fun hmem => howed ▸ (hd.finished client hmem).2⟩

/-- What the table shows after `postBook`. -/
def bookBody : Bytes := ascii "[\x7b\"id\":\"0\",\"title\":\"\"\x7d]"

theorem response_exact_post : ∃ tr, ∃ s : Server shelfJson postParser,
    (serverMachine shelfJson postParser).Run tr s ∧ Guarded CommandFree tr ∧
      .written 0 false ∈ s.log ∧ (∃ request connectionId, s.answers 0 = [(request, bookBody)] ∧
        shelfJson.Answers s.pool.log connectionId request bookBody) ∧
      s.sent 0 = httpResponse bookBody := by
  have hrun : (((serverMachine shelfJson postParser).restrict CommandFree).exec .start
      postBook).map (fun s => ((s.answers 0).map Prod.snd, decide (.written 0 false ∈ s.log),
        history Obs.accepted? s.pool.log)) = some ([bookBody], true, [(0, "c")]) := by
    decide +kernel
  obtain ⟨s, hs, hstate⟩ := Option.map_eq_some_iff.1 hrun
  simp only [Prod.mk.injEq, decide_eq_true_eq] at hstate
  obtain ⟨hbody, hwritten, hacc⟩ := hstate
  obtain ⟨tr, hr, hG⟩ :=
    Machine.exists_guarded_run (M := serverMachine shelfJson postParser) rfl hs
  have hids : s.pool.DistinctIds := by
    rw [PoolState.DistinctIds, hacc]
    simp
  obtain ⟨-, -, hno⟩ | ⟨connectionId, request, body, hone, -, hans, -, hall⟩ :=
    response_exact hr hG hids 0
  · exact absurd hwritten hno
  · rw [hone] at hbody
    obtain rfl : body = bookBody := by simpa using hbody
    exact ⟨tr, s, hr, hG, hwritten, ⟨request, connectionId, hone, hans⟩, hall hwritten⟩

end FiberConn
