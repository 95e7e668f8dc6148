import FiberConn.Assembly.Proofs
import FiberConn.Sending.Proofs
import FiberConn.Server.Steps

set_option autoImplicit false

/-! # Where the clients of the server are

A client that is there is in one place: the reactor holds its handler, or the pool holds one query
of it (`Accounted`). A lambda starts with its client in neither (`Running`) and puts it into one of
them or deletes it, unless it returns after a database error, something throws or `epoll_ctl`
refuses; `attended_iff` says that these are the only ways to forget a client. -/

namespace FiberConn

open Machine

/-! ## Steps of the pool -/

namespace PoolState

variable {w w' : PoolState} {l : PoolLabel}

/-- A callback that is called is on top of the stack. -/
theorem Outcome.called (ho : Outcome w l w') {q : PendingQuery}
    (hq : q ∈ history Obs.called? w'.log) :
    q ∈ history Obs.called? w.log ∨ ∃ conn rest, w'.stack = .user conn q :: rest := by
  have hnew {q' : PendingQuery} {log : List Obs} {conn : ℕ} {rest : List Frame}
      (hq : q ∈ history Obs.called? log ++ [q'])
      (hlog : history Obs.called? log = history Obs.called? w.log) :
      q ∈ history Obs.called? w.log ∨
        ∃ conn' rest', Frame.user conn q' :: rest = .user conn' q :: rest' := by
    rcases List.mem_append.1 hq with hq | hq
    · exact Or.inl (hlog ▸ hq)
    · exact Or.inr ⟨conn, rest, by rw [List.mem_singleton.1 hq]⟩
  cases ho with
  | sendCalls => exact hnew hq rfl
  | queryCalls => exact hnew hq rfl
  | _ => exact Or.inl hq

/-- While a callback is on top of the stack, the pool waits for it to submit a query or return. -/
theorem Outcome.of_user (ho : Outcome w l w') {conn : ℕ} {q : PendingQuery} {rest : List Frame}
    (hs : w.stack = .user conn q :: rest) :
    (∃ id, l = .accept id) ∨ (∃ client, l = .delete client) ∨
      (∃ query client, l = .submit query client) ∨ l = .ret := by
  cases ho with
  | accept => exact Or.inl ⟨_, rfl⟩
  | delete => exact Or.inr (Or.inl ⟨_, rfl⟩)
  | grant => exact Or.inr (Or.inr (Or.inl ⟨_, _, rfl⟩))
  | defer => exact Or.inr (Or.inr (Or.inl ⟨_, _, rfl⟩))
  | ret => exact Or.inr (Or.inr (Or.inr rfl))
  | construct hs' => cases hs'.symm.trans hs
  | constructed hs' => cases hs'.symm.trans hs
  | resume hs' => cases hs'.symm.trans hs
  | drained hs' => cases hs'.symm.trans hs
  | sendCalls hs' => cases hs'.symm.trans hs
  | sendWaits hs' => cases hs'.symm.trans hs
  | connectWaits hs' => cases hs'.symm.trans hs
  | connectFails hs' => cases hs'.symm.trans hs
  | connects hs' => cases hs'.symm.trans hs
  | queryWaits hs' => cases hs'.symm.trans hs
  | queryCalls hs' => cases hs'.symm.trans hs

/-- What a submission changes. -/
theorem Outcome.submits {query client : String} (ho : Outcome w (.submit query client) w') :
    history Obs.submitted? w'.log = history Obs.submitted? w.log ++ [⟨query, client, w.nextCb⟩] ∧
      history Obs.called? w'.log = history Obs.called? w.log ∧ w'.live = w.live ∧
      w'.accepted = w.accepted ∧
      ∃ log, w'.log = log ++ .submitted ⟨query, client, w.nextCb⟩ :: w.log := by
  generalize hl : PoolLabel.submit query client = l at ho
  cases ho with
  | @grant q c rest hu hq hfree =>
      obtain ⟨rfl, rfl⟩ := PoolLabel.submit.inj hl
      exact ⟨by rw [← hq]; rfl, rfl, rfl, rfl, [.handed c q], by rw [← hq]; rfl⟩
  | @defer q hu hq hfree =>
      obtain ⟨rfl, rfl⟩ := PoolLabel.submit.inj hl
      exact ⟨by rw [← hq]; rfl, rfl, rfl, rfl, [.queued q], by rw [← hq]; rfl⟩
  | _ => cases hl

/-- A query is not completed until its callback is called. -/
theorem Consistent.place (h : w.Consistent) {q : PendingQuery}
    (hq : q ∈ history Obs.submitted? w.log) :
    q ∈ w.uncompleted ∨ q ∈ history Obs.called? w.log := by
  have hmem : q ∈ (w.abs.submitted : Multiset PendingQuery) := hq
  rw [h.lawful.submitted_eq, Multiset.mem_add, Multiset.mem_add] at hmem
  rcases hmem with (hq | hq) | hq
  · exact Or.inl (List.mem_append_left _ hq)
  · exact Or.inl (List.mem_append_right _ hq)
  · exact Or.inr hq

end PoolState

/-- No event changes the name of a client. -/
theorem Clientconnection.handleEvent_connectionId {L : Llhttp} (c : Clientconnection L)
    (ev : EpollEvent) (recvs : List RecvResult) (sends : List SendResult) :
    (c.handleEvent ev recvs sends).conn.connectionId = c.connectionId := by
  unfold handleEvent
  split
  · rfl
  split
  · have hframe : parsing.Frame (connectionId (L := L)) := parsing_frame fun _ _ _ _ _ _ => rfl
    exact hframe.receive receiver rfl (fun _ => rfl) (fun _ _ => rfl) (fun _ => rfl)
      { c with recvBuffer := .cleared } recvs
  split
  · exact (c.transmit_pass sends).frame (fun _ _ => rfl) (fun _ => rfl) fun _ => rfl
  · rfl

namespace Server

variable {J : Json} {L : Llhttp} {s t : Server J L} {l : ServerLabel}
  {client : ℕ} {c : Clientconnection L}

/-! ## The invariant -/

/-- The query has been submitted, and its lambda has not been run. -/
def Open (s : Server J L) (q : PendingQuery) : Prop :=
  q ∈ history Obs.submitted? s.pool.log ∧ (s.callback q.cb).isSome

/-- What holds in every reachable state. -/
structure Accounted (s : Server J L) : Prop where
  live : ∀ client, s.pool.live client = (s.clients client).map Clientconnection.connectionId
  outstanding : ∀ client, (s.outstanding client).isSome → (s.clients client).isSome
  serial : ∀ q ∈ history Obs.submitted? s.pool.log, ∀ q' ∈ history Obs.submitted? s.pool.log,
    q.cb = q'.cb → q = q'
  stored : ∀ q ∈ s.pool.uncompleted, (s.callback q.cb).isSome
  onTop : ∀ q ∈ history Obs.called? s.pool.log, (s.callback q.cb).isSome →
    ∃ conn rest, s.pool.stack = .user conn q :: rest
  waiting : ∀ q, s.Open q →
    ∃ client c, s.clients client = some c ∧ c.connectionId = q.client ∧
      s.outstanding client = none
  unique : ∀ q q', s.Open q → s.Open q' → q.client = q'.client → q = q'
  fault : ∀ f ∈ s.fault, f = .exception ∨ f = .outOfRange

/-- User code runs for a client that nobody is going to call back. -/
structure Running (s : Server J L) (client : ℕ) (c : Clientconnection L) : Prop where
  there : s.clients client = some c
  outstanding : s.outstanding client = none
  noQuery : ∀ q, s.Open q → q.client ≠ c.connectionId
  userCode : s.pool.UserCode
  returned : ∀ q ∈ history Obs.called? s.pool.log, s.callback q.cb = none

theorem accounted_start : (start : Server J L).Accounted := by
  constructor <;>
    simp [start, PoolState.start, DBpooler.new, history, PoolState.uncompleted, PoolState.held,
      PoolState.sending, Frame.sending?, Open]

theorem Accounted.live_of (h : s.Accounted) (hc : s.clients client = some c) :
    s.pool.live client = some c.connectionId := by
  rw [h.live, hc]
  rfl

theorem Accounted.lt_accepted (h : s.Accounted) (hreg : s.pool.Registered)
    (hc : s.clients client = some c) : client < s.pool.accepted :=
  hreg.accepted_lt _ ((hreg.live _ _).1 (h.live_of hc)).1

/-- Two clients that are there have different names. -/
theorem Accounted.same_client (h : s.Accounted) (hreg : s.pool.Registered)
    (hids : s.pool.DistinctIds) {client' : ℕ} {c' : Clientconnection L}
    (hc : s.clients client = some c) (hc' : s.clients client' = some c')
    (he : c.connectionId = c'.connectionId) : client = client' := by
  have hacc {k : ℕ} {conn : Clientconnection L} (hk : s.clients k = some conn) :
      (k, conn.connectionId) ∈ history Obs.accepted? s.pool.log :=
    ((hreg.live _ _).1 (h.live_of hk)).1
  have hpair : (client, c.connectionId) = (client', c'.connectionId) :=
    List.inj_on_of_nodup_map hids (hacc hc) (hacc hc') he
  exact congrArg Prod.fst hpair

/-! ## What the pool does by itself -/

theorem Permits.frame {l : PoolLabel} {w : PoolState} (hp : s.Permits l)
    (ho : PoolState.Outcome s.pool l w) :
    history Obs.submitted? w.log = history Obs.submitted? s.pool.log ∧ w.live = s.pool.live ∧
      w.accepted = s.pool.accepted := by
  cases ho with
  | accept => exact hp.elim
  | delete => exact hp.elim
  | grant => exact hp.elim
  | defer => exact hp.elim
  | _ => exact ⟨rfl, rfl, rfl⟩

/-- While a lambda has not run, the pool does nothing. -/
theorem Permits.not_onTop {l : PoolLabel} {w : PoolState} (hp : s.Permits l)
    (ho : PoolState.Outcome s.pool l w) {conn : ℕ} {q : PendingQuery} {rest : List Frame}
    (hs : s.pool.stack = .user conn q :: rest) : s.callback q.cb = none := by
  obtain ⟨id, rfl⟩ | ⟨client, rfl⟩ | ⟨query, client, rfl⟩ | rfl := ho.of_user hs
  · exact hp.elim
  · exact hp.elim
  · exact hp.elim
  · rw [Permits, Returning, hs] at hp
    exact hp

theorem Accounted.pool (h : s.Accounted) {l : PoolLabel} {w : PoolState}
    (hc : s.pool.Consistent) (hp : s.Permits l) (hn : s.pool.next l = some w) :
    ({ s with pool := w } : Server J L).Accounted := by
  have ho := hc.outcome hn
  obtain ⟨hsub, hlive, -⟩ := hp.frame ho
  have hopen (q : PendingQuery) : ({ s with pool := w } : Server J L).Open q ↔ s.Open q := by
    rw [Open, Open, hsub]
  refine ⟨?_, h.outstanding, ?_, fun q hq => ?_, fun q hq hstored => ?_, fun q hq => ?_,
    fun q q' hq hq' => ?_, h.fault⟩
  · rw [hlive]
    exact h.live
  · rw [hsub]
    exact h.serial
  · rcases ho.uncompleted hq with hold | hnew
    · exact h.stored q hold
    · have hfresh := hc.fresh q (hsub ▸ (hc.next hn).submitted_of_uncompleted hq)
      omega
  · rcases ho.called hq with hold | htop
    · obtain ⟨conn, rest, hs⟩ := h.onTop q hold hstored
      have hnone : s.callback q.cb = none := hp.not_onTop ho hs
      have hstored : (s.callback q.cb).isSome := hstored
      rw [hnone] at hstored
      cases hstored
    · exact htop
  · exact h.waiting q ((hopen q).1 hq)
  · exact h.unique q q' ((hopen q).1 hq) ((hopen q').1 hq')

/-! ## What a lambda does -/

/-- History does not matter. -/
theorem Accounted.note (h : s.Accounted) (o : ServerObs) : (s.note o).Accounted :=
  ⟨h.live, h.outstanding, h.serial, h.stored, h.onTop, h.waiting, h.unique, h.fault⟩

theorem Running.note (hr : s.Running client c) (o : ServerObs) : (s.note o).Running client c :=
  ⟨hr.there, hr.outstanding, hr.noQuery, hr.userCode, hr.returned⟩

theorem delete_eq {connectionId : String} (hlive : s.pool.live client = some connectionId) :
    s.delete client = { s with
      pool := { s.pool with
        isAlive := s.pool.isAlive.erase connectionId
        live := Function.update s.pool.live client none
        log := .deleted client :: s.pool.log }
      clients := Function.update s.clients client none } := by
  rw [delete, PoolState.next, hlive]

theorem respond_eq (hr : s.Running client c) (body : Bytes) (granted : Bool) :
    s.respond client c body granted = { s with
      clients := Function.update s.clients client
        (some { c with sendBuffer := c.sendBuffer ++ httpResponse body })
      outstanding := Function.update s.outstanding client (heldIf granted .write)
      log := .answered client c.request body :: s.log } :=
  if_pos hr.outstanding

/-- No query waits for the client of the lambda that runs. -/
theorem Running.ne_of_open (hr : s.Running client c) {q : PendingQuery} (hq : s.Open q)
    {client' : ℕ} {c' : Clientconnection L} (hc' : s.clients client' = some c')
    (he : c'.connectionId = q.client) : client' ≠ client := by
  rintro rfl
  obtain rfl := Option.some.inj (hr.there.symm.trans hc')
  exact hr.noQuery q hq he.symm

theorem Accounted.delete (h : s.Accounted) (hr : s.Running client c) :
    (s.delete client).Accounted := by
  rw [delete_eq (h.live_of hr.there)]
  refine ⟨fun client' => ?_, fun client' hout => ?_, h.serial, h.stored, h.onTop, fun q hq => ?_,
    h.unique, h.fault⟩
  · dsimp only
    by_cases he : client' = client
    · rw [he, Function.update_self, Function.update_self]
      rfl
    · rw [Function.update_of_ne he, Function.update_of_ne he]
      exact h.live client'
  · have hne : client' ≠ client := by
      rintro rfl
      exact absurd hout (by rw [hr.outstanding]; decide)
    dsimp only
    rw [Function.update_of_ne hne]
    exact h.outstanding client' hout
  · obtain ⟨client', c', hc', hid, hout⟩ := h.waiting q hq
    have hne := hr.ne_of_open hq hc' hid
    exact ⟨client', c', (Function.update_of_ne hne _ _).trans hc', hid, hout⟩

theorem Accounted.respond (h : s.Accounted) (hr : s.Running client c) (body : Bytes)
    (granted : Bool) : (s.respond client c body granted).Accounted := by
  rw [respond_eq hr]
  refine ⟨fun client' => ?_, fun client' hout => ?_, h.serial, h.stored, h.onTop, fun q hq => ?_,
    h.unique, h.fault⟩
  · dsimp only
    by_cases he : client' = client
    · rw [he, Function.update_self, h.live, hr.there]
      rfl
    · rw [Function.update_of_ne he]
      exact h.live client'
  · dsimp only at hout ⊢
    by_cases he : client' = client
    · rw [he, Function.update_self]
      rfl
    · rw [Function.update_of_ne he] at hout ⊢
      exact h.outstanding client' hout
  · obtain ⟨client', c', hc', hid, hout⟩ := h.waiting q hq
    have hne := hr.ne_of_open hq hc' hid
    exact ⟨client', c', (Function.update_of_ne hne _ _).trans hc', hid,
      (Function.update_of_ne hne _ _).trans hout⟩

theorem Accounted.fail (h : s.Accounted) {f : Fault} (hf : f = .exception ∨ f = .outOfRange) :
    (s.fail f).Accounted :=
  ⟨h.live, h.outstanding, h.serial, h.stored, h.onTop, h.waiting, h.unique,
    fun f' hf' => by obtain rfl := Option.some.inj hf'; exact hf⟩

theorem callback_sendQuery (s : Server J L) (query connectionId : String) (cb : QueryCallback) :
    (s.sendQuery query connectionId cb).callback =
      Function.update s.callback s.pool.nextCb (some cb) := rfl

/-- The queries that wait after a submission: the old ones, and the new one. -/
theorem open_sendQuery (hc : s.pool.Consistent) (hu : s.pool.UserCode)
    {query connectionId : String} {cb : QueryCallback} {q : PendingQuery} :
    (s.sendQuery query connectionId cb).Open q ↔
      s.Open q ∨ q = ⟨query, connectionId, s.pool.nextCb⟩ := by
  obtain ⟨hsub, -⟩ := (hc.outcome (sendQuery_next hu query connectionId cb)).submits
  rw [Open, hsub, List.mem_append, List.mem_singleton, callback_sendQuery]
  constructor
  · rintro ⟨hq | hq, hstored⟩
    · rw [Function.update_of_ne (hc.fresh q hq).ne] at hstored
      exact Or.inl ⟨hq, hstored⟩
    · exact Or.inr hq
  · rintro (⟨hq, hstored⟩ | rfl)
    · exact ⟨Or.inl hq, by rwa [Function.update_of_ne (hc.fresh q hq).ne]⟩
    · exact ⟨Or.inr rfl, by rw [Function.update_self]; rfl⟩

theorem Accounted.sendQuery (h : s.Accounted) (hc : s.pool.Consistent) (hr : s.Running client c)
    (query : String) (cb : QueryCallback) :
    (s.sendQuery query c.connectionId cb).Accounted := by
  have ho := hc.outcome (sendQuery_next hr.userCode query c.connectionId cb)
  obtain ⟨hsub, hcalled, hlive, -⟩ := ho.submits
  have hfresh {q : PendingQuery} (hq : q ∈ history Obs.submitted? s.pool.log) :
      q.cb ≠ s.pool.nextCb := (hc.fresh q hq).ne
  refine ⟨?_, h.outstanding, fun q hq q' hq' he => ?_, fun q hq => ?_, fun q hq hstored => ?_,
    fun q hq => ?_, fun q q' hq hq' he => ?_, h.fault⟩
  · rw [hlive]
    exact h.live
  · rw [hsub, List.mem_append, List.mem_singleton] at hq hq'
    rcases hq with hq | rfl <;> rcases hq' with hq' | rfl
    · exact h.serial q hq q' hq' he
    · exact absurd he (hfresh hq)
    · exact absurd he.symm (hfresh hq')
    · rfl
  · rw [callback_sendQuery]
    by_cases he : q.cb = s.pool.nextCb
    · rw [he, Function.update_self]
      rfl
    · rw [Function.update_of_ne he]
      exact h.stored q ((ho.uncompleted hq).resolve_right he)
  · rw [hcalled] at hq
    have hne := hfresh (hc.submitted_of_called hq)
    rw [callback_sendQuery, Function.update_of_ne hne, hr.returned q hq] at hstored
    cases hstored
  · rcases (open_sendQuery hc hr.userCode).1 hq with hold | rfl
    · exact h.waiting q hold
    · exact ⟨client, c, hr.there, rfl, hr.outstanding⟩
  · rcases (open_sendQuery hc hr.userCode).1 hq with hold | rfl <;>
      rcases (open_sendQuery hc hr.userCode).1 hq' with hold' | rfl
    · exact h.unique q q' hold hold' he
    · exact absurd he (hr.noQuery q hold)
    · exact absurd he.symm (hr.noQuery q' hold')
    · rfl

/-! ## Where lambdas are run -/

/-- A handler keeps the client's name. -/
theorem Accounted.handled (h : s.Accounted) (hc : s.clients client = some c)
    {r : Receipt (Clientconnection L)} (hr : r.conn.connectionId = c.connectionId) :
    (s.handled client r).Accounted := by
  have hclients (client' : ℕ) :
      ((s.handled client r).clients client').map Clientconnection.connectionId =
        (s.clients client').map Clientconnection.connectionId := by
    rw [Server.handled]
    dsimp only
    by_cases he : client' = client
    · rw [he, Function.update_self, hc, Option.map_some, Option.map_some, hr]
    · rw [Function.update_of_ne he]
  refine ⟨fun client' => (h.live client').trans (hclients client').symm, fun client' hout => ?_,
    h.serial, h.stored, h.onTop, fun q hq => ?_, h.unique, h.fault⟩
  · have hsome := congrArg Option.isSome (hclients client')
    rw [Option.isSome_map, Option.isSome_map] at hsome
    exact hsome.trans (h.outstanding client' hout)
  · obtain ⟨client', c', hc', hid, hout⟩ := h.waiting q hq
    have hname := hclients client'
    rw [hc', Option.map_some] at hname
    obtain ⟨c'', hc'', hname⟩ := Option.map_eq_some_iff.1 hname
    exact ⟨client', c'', hc'', hname.trans hid, hout⟩

/-- No query is open for a client whose handler the reactor holds. -/
theorem Accounted.ne_of_outstanding (h : s.Accounted) (hreg : s.pool.Registered)
    (hids : s.pool.DistinctIds) (hc : s.clients client = some c)
    (hop : s.outstanding client ≠ none) {q : PendingQuery} (hq : s.Open q) :
    q.client ≠ c.connectionId := by
  intro he
  obtain ⟨client', c', hc', hid, hout⟩ := h.waiting q hq
  obtain rfl := h.same_client hreg hids hc hc' (he.symm.trans hid.symm)
  exact hop hout

/-- Nor for a new one: the clients that queries wait for have other names. -/
theorem Accounted.ne_of_new (h : s.Accounted) (hreg : s.pool.Registered) {connectionId : String}
    {w : PoolState} (hids : w.DistinctIds) (hn : s.pool.next (.accept connectionId) = some w)
    {q : PendingQuery} (hq : s.Open q) : q.client ≠ connectionId := by
  obtain rfl := Option.some.inj hn
  rintro rfl
  obtain ⟨client, c, hc, hid, -⟩ := h.waiting q hq
  have hacc := ((hreg.live _ _).1 (h.live_of hc)).1
  have hnodup : ((history Obs.accepted? s.pool.log ++
    [(s.pool.accepted, q.client)]).map Prod.snd).Nodup := hids
  rw [List.map_append] at hnodup
  refine List.disjoint_of_nodup_append hnodup (List.mem_map_of_mem hacc) ?_
  rw [hid]
  exact List.mem_singleton_self _

/-- Between two events every lambda has been run. -/
theorem Accounted.returned (h : s.Accounted) (hs : s.pool.stack = []) {q : PendingQuery}
    (hq : q ∈ history Obs.called? s.pool.log) : s.callback q.cb = none := by
  cases hcb : s.callback q.cb with
  | none => rfl
  | some cb =>
      obtain ⟨conn, rest, htop⟩ := h.onTop q hq (by rw [hcb]; rfl)
      cases hs.symm.trans htop

theorem Accounted.calledBack (h : s.Accounted) (hreg : s.pool.Registered)
    (hids : s.pool.DistinctIds) (hs : s.pool.stack = []) {op : ClientOp}
    (hop : s.outstanding client = some op) (hc : s.clients client = some c)
    {r : Receipt (Clientconnection L)} (hr : r.conn.connectionId = c.connectionId) :
    (s.calledBack client r).Accounted ∧ (s.calledBack client r).Running client r.conn := by
  have hhandled := h.handled hc hr
  constructor
  · refine ⟨hhandled.live, fun client' hout => ?_, h.serial, h.stored, h.onTop, fun q hq => ?_,
      h.unique, h.fault⟩
    · refine hhandled.outstanding client' ?_
      have hne : client' ≠ client := by
        rintro rfl
        rw [show (s.calledBack client' r).outstanding client' = none from
          Function.update_self ..] at hout
        cases hout
      exact (congrArg Option.isSome (Function.update_of_ne hne _ _)).symm.trans hout
    · obtain ⟨client', c', hc', hid, hout⟩ := hhandled.waiting q hq
      refine ⟨client', c', hc', hid, ?_⟩
      by_cases he : client' = client
      · rw [he]
        exact Function.update_self ..
      · exact (Function.update_of_ne he _ _).trans hout
  · refine ⟨Function.update_self .., Function.update_self .., fun q hq => ?_,
      userCode_of_empty hs, fun q hq => h.returned hs hq⟩
    rw [hr]
    exact h.ne_of_outstanding hreg hids hc (by rw [hop]; simp) hq

/-- The callback on top of the stack is that of a query that has been submitted. -/
theorem open_of_top (hc : s.pool.Consistent) {conn : ℕ} {q : PendingQuery} {rest : List Frame}
    (hs : s.pool.stack = .user conn q :: rest) {cb : QueryCallback}
    (hcb : s.callback q.cb = some cb) : s.Open q := by
  have htop : (Frame.user conn q) ∈ s.pool.stack := by rw [hs]; exact List.mem_cons_self
  have hcalled := hc.called_of_calling (x := (conn, q)) (List.mem_filterMap.2 ⟨_, htop, rfl⟩)
  exact ⟨hc.submitted_of_called hcalled, by rw [hcb]; rfl⟩

/-- The callback of a query that is called is about a client that is there. -/
theorem Accounted.entered (h : s.Accounted) (hp : poolMachine.Reachable s.pool)
    (hids : s.pool.DistinctIds) {conn : ℕ} {q : PendingQuery} {rest : List Frame}
    (hs : s.pool.stack = .user conn q :: rest) {cb : QueryCallback}
    (hcb : s.callback q.cb = some cb) :
    (s.entered q).Accounted ∧ ∃ client c, c.connectionId = q.client ∧
      (s.pool.conns conn).getParent s.pool.isAlive = some client ∧
      (s.entered q).Running client c := by
  have hc := PoolState.reachable_consistent hp
  have htop : (Frame.user conn q) ∈ s.pool.stack := by rw [hs]; exact List.mem_cons_self
  have hcalled : q ∈ history Obs.called? s.pool.log :=
    hc.called_of_calling (x := (conn, q)) (List.mem_filterMap.2 ⟨_, htop, rfl⟩)
  have hself : s.Open q := open_of_top hc hs hcb
  have hopen {q' : PendingQuery} (hq' : (s.entered q).Open q') : s.Open q' ∧ q'.cb ≠ q.cb := by
    obtain ⟨hmem, hstored⟩ := hq'
    have hne : q'.cb ≠ q.cb := by
      intro he
      rw [he, show (s.entered q).callback q.cb = none from Function.update_self ..] at hstored
      cases hstored
    exact ⟨⟨hmem, (congrArg Option.isSome (Function.update_of_ne hne _ _)).symm.trans hstored⟩, hne⟩
  have hnone {q' : PendingQuery} (hq' : q' ∈ history Obs.called? s.pool.log) :
      (s.entered q).callback q'.cb = none := by
    by_cases he : q'.cb = q.cb
    · rw [he]
      exact Function.update_self ..
    · refine (Function.update_of_ne he _ _).trans ?_
      cases hcb' : s.callback q'.cb with
      | none => rfl
      | some cb' =>
          obtain ⟨conn', rest', htop'⟩ := h.onTop q' hq' (by rw [hcb']; rfl)
          obtain ⟨hframe, -⟩ := List.cons.inj (hs.symm.trans htop')
          exact absurd (by rw [(Frame.user.inj hframe).2]) he
  obtain ⟨client, c, hclient, hid, hout⟩ := h.waiting q hself
  have hlive : s.pool.live client = some q.client := hid ▸ h.live_of hclient
  obtain ⟨hacc, hdel⟩ := ((PoolState.reachable_registered hp hids).live _ _).1 hlive
  have hparent := reply_routing hp hids htop hacc
  rw [if_neg hdel] at hparent
  refine ⟨⟨h.live, h.outstanding, h.serial, fun q' hq' => ?_, fun q' hq' hstored => ?_,
    fun q' hq' => h.waiting q' (hopen hq').1,
    fun q' q'' hq' hq'' => h.unique q' q'' (hopen hq').1 (hopen hq'').1, h.fault⟩,
    client, c, hid, hparent, hclient, hout, fun q' hq' he => ?_, userCode_of_top hs,
    fun q' hq' => hnone hq'⟩
  · have hne : q'.cb ≠ q.cb := by
      intro he
      obtain rfl := h.serial q' (hc.submitted_of_uncompleted hq') q hself.1 he
      exact hc.completed_disjoint hq' hcalled
    exact (congrArg Option.isSome (Function.update_of_ne hne _ _)).trans (h.stored q' hq')
  · rw [hnone hq'] at hstored
    cases hstored
  · obtain ⟨hold, hne⟩ := hopen hq'
    obtain rfl := h.unique q' q hold hself (he.trans hid)
    exact hne rfl

theorem Accounted.run (h : s.Accounted) (hc : s.pool.Consistent) (hr : s.Running client c)
    (granted : Bool) (op : ClientOp) : (s.run client c granted op).Accounted := by
  cases op with
  | read =>
      have ho := onRead_outcome s client c granted
      rw [Server.run]
      generalize s.onRead client c granted = t at ho
      cases ho with
      | deletes => exact h.delete hr
      | responds => exact h.respond hr _ _
      | asks => exact h.sendQuery hc hr _ _
      | throws => exact h.fail (Or.inl rfl)
  | write =>
      exact (h.note _).delete (hr.note _)

theorem Accounted.runQuery (h : s.Accounted) (hc : s.pool.Consistent) (hr : s.Running client c)
    {conn : ℕ} (hparent : (s.pool.conns conn).getParent s.pool.isAlive = some client)
    (granted : Bool) (cb : QueryCallback) : (s.runQuery conn granted cb).Accounted := by
  have ho := runQuery_outcome hparent hr.there granted cb
  generalize s.runQuery conn granted cb = t at ho
  cases ho with
  | returns => exact h
  | asks => exact h.sendQuery hc hr _ _
  | responds => exact h.respond hr _ _
  | fails herr hf => exact h.fail hf

theorem Accounted.accept (h : s.Accounted) (hreg : s.pool.Registered) {sockfd : ℤ}
    {connectionId : String} {granted : Bool} {w : PoolState}
    (hn : s.pool.next (.accept connectionId) = some w) :
    (s.welcome sockfd connectionId granted w).Accounted := by
  obtain rfl := Option.some.inj hn
  have hnew : s.clients s.pool.accepted = none := by
    cases hc : s.clients s.pool.accepted with
    | none => rfl
    | some c => exact absurd (h.lt_accepted hreg hc) (lt_irrefl _)
  refine ⟨fun client => ?_, fun client hout => ?_, h.serial, h.stored, h.onTop, fun q hq => ?_,
    h.unique, h.fault⟩
  · rw [welcome]
    dsimp only
    by_cases he : client = s.pool.accepted
    · rw [he, Function.update_self, Function.update_self]
      rfl
    · rw [Function.update_of_ne he, Function.update_of_ne he]
      exact h.live client
  · rw [welcome] at hout ⊢
    dsimp only at hout ⊢
    by_cases he : client = s.pool.accepted
    · rw [he, Function.update_self]
      rfl
    · rw [Function.update_of_ne he] at hout ⊢
      exact h.outstanding client hout
  · obtain ⟨client, c, hc, hid, hout⟩ := h.waiting q hq
    have hne : client ≠ s.pool.accepted := by
      rintro rfl
      cases hnew.symm.trans hc
    exact ⟨client, c, (Function.update_of_ne hne _ _).trans hc, hid,
      (Function.update_of_ne hne _ _).trans hout⟩

/-! ## Every run -/

/-- Names that are distinct now were distinct before. -/
theorem distinctIds_back (hr : (serverMachine J L).Reachable s) (hn : s.next l = some t)
    (hids : t.pool.DistinctIds) : s.pool.DistinctIds := by
  obtain hsame | ⟨l', hn', -⟩ := (step_outcome hn).2.pool_step
  · rwa [← hsame]
  · exact ((PoolState.reachable_consistent (reachable_pool hr)).outcome hn').distinctIds hids

theorem Accounted.next (h : s.Accounted) (hp : poolMachine.Reachable s.pool)
    (hids : s.pool.DistinctIds) (hn : s.next l = some t) : t.Accounted := by
  have hc := PoolState.reachable_consistent hp
  have hreg := PoolState.reachable_registered hp hids
  cases (step_outcome hn).2 with
  | pool hpermits hpool => exact h.pool hc hpermits hpool
  | accept hs hpool => exact h.accept hreg hpool
  | waits hs hop hclient =>
      exact h.handled hclient (Clientconnection.handleEvent_connectionId ..)
  | calls hs hop hclient =>
      obtain ⟨hcalled, hrunning⟩ := h.calledBack hreg hids hs hop hclient
        (Clientconnection.handleEvent_connectionId ..)
      exact hcalled.run hc hrunning _ _
  | @stale client op ev recvs sends granted hop hclient =>
      have hsome := h.outstanding client (by rw [hop]; rfl)
      rw [hclient] at hsome
      cases hsome
  | body hs hcb =>
      obtain ⟨hentered, client, c, -, hparent, hrunning⟩ := h.entered hp hids hs hcb
      exact hentered.runQuery hc hrunning hparent _ _

theorem reachable_accounted (h : (serverMachine J L).Reachable s) (hids : s.pool.DistinctIds) :
    s.Accounted := by
  obtain ⟨tr, hr⟩ := h
  refine hr.invariant_under (D := fun s => s.pool.DistinctIds) (G := fun _ _ => True) hids
    (fun s l t hs hn hids => distinctIds_back hs hn hids) ?_ ?_ fun _ _ => trivial
  · rintro s rfl
    exact accounted_start
  · intro s l t hs hids h _ hn
    exact h.next (reachable_pool hs) (distinctIds_back hs hn hids) hn

/-! ## Nobody is forgotten -/

/-- The program runs, and every client has a handler registered or a query to be answered. -/
structure Attended (s : Server J L) : Prop where
  fault : s.fault = none
  clients : ∀ client c, s.clients client = some c →
    (s.outstanding client).isSome ∨ ∃ q, s.Open q ∧ q.client = c.connectionId

/-- For every client but this one. -/
structure AttendedBut (s : Server J L) (client : ℕ) : Prop where
  fault : s.fault = none
  clients : ∀ client' c, client' ≠ client → s.clients client' = some c →
    (s.outstanding client').isSome ∨ ∃ q, s.Open q ∧ q.client = c.connectionId

/-- Nothing is thrown at a request or at the results of a `SELECT`, no query fails, and no `read` or
    `write` is refused. -/
def Benign (s : Server J L) : ServerLabel → Prop
  | .accept _ _ granted => granted = true
  | .event client ev recvs sends granted =>
      ∀ c ∈ s.clients client, s.outstanding client = some .read →
        CallsBack (c.handleEvent ev recvs sends).effects = true →
        (c.handleEvent ev recvs sends).conn.isError = false →
        J.Readable (c.handleEvent ev recvs sends).conn.request ∧
          ((c.handleEvent ev recvs sends).conn.request.url = ascii "/" → granted = true)
  | .body granted =>
      ∀ x ∈ s.pool.stack.head?.bind Frame.calling?, (s.pool.conns x.1).isError = false ∧
        (s.callback x.2.cb = some .selected →
          (J.listing (s.pool.conns x.1).results).isSome ∧ granted = true)
  | .pool _ => True

instance (s : Server J L) (l : ServerLabel) : Decidable (s.Benign l) :=
  match l with
  | .accept _ _ granted => inferInstanceAs (Decidable (granted = true))
  | .event client _ _ _ _ =>
      inferInstanceAs (Decidable (∀ c ∈ s.clients client, _ → _ → _ → _ ∧ (_ → _)))
  | .body _ =>
      inferInstanceAs (Decidable (∀ x ∈ s.pool.stack.head?.bind Frame.calling?, _ ∧ (_ → _ ∧ _)))
  | .pool _ => instDecidableTrue

theorem attended_start : (start : Server J L).Attended := ⟨rfl, by simp [start]⟩

theorem AttendedBut.delete (h : s.AttendedBut client) (ha : s.Accounted)
    (hr : s.Running client c) : (s.delete client).Attended := by
  rw [delete_eq (ha.live_of hr.there)]
  refine ⟨h.fault, fun client' c' hc' => ?_⟩
  by_cases he : client' = client
  · rw [he] at hc'
    cases (Function.update_self client _ s.clients).symm.trans hc'
  · exact h.clients client' c' he ((Function.update_of_ne he _ _).symm.trans hc')

/-- A client that is answered is forgotten if its `write` is refused. -/
theorem AttendedBut.respond_iff (h : s.AttendedBut client) (hr : s.Running client c) (body : Bytes)
    (granted : Bool) : (s.respond client c body granted).Attended ↔ granted = true := by
  rw [respond_eq hr]
  constructor
  · intro hat
    by_contra hrefused
    obtain rfl : granted = false := by simpa using hrefused
    obtain hout | ⟨q, hq, hid⟩ := hat.clients client _ (Function.update_self ..)
    · dsimp only at hout
      rw [Function.update_self] at hout
      cases hout
    · exact hr.noQuery q hq hid
  · rintro rfl
    refine ⟨h.fault, fun client' c' hc' => ?_⟩
    dsimp only at hc' ⊢
    by_cases he : client' = client
    · rw [he, Function.update_self]
      exact Or.inl rfl
    · rw [Function.update_of_ne he] at hc' ⊢
      exact h.clients client' c' he hc'

theorem AttendedBut.sendQuery (h : s.AttendedBut client) (hc : s.pool.Consistent)
    (hr : s.Running client c) (query : String) (cb : QueryCallback) :
    (s.sendQuery query c.connectionId cb).Attended := by
  refine ⟨h.fault, fun client' c' hc' => ?_⟩
  by_cases he : client' = client
  · rw [he] at hc'
    obtain rfl := Option.some.inj (hr.there.symm.trans hc')
    exact Or.inr ⟨_, (open_sendQuery hc hr.userCode).2 (Or.inr rfl), rfl⟩
  · obtain hout | ⟨q, hq, hid⟩ := h.clients client' c' he hc'
    · exact Or.inl hout
    · exact Or.inr ⟨q, (open_sendQuery hc hr.userCode).2 (Or.inl hq), hid⟩

theorem Attended.not_running (h : s.Attended) (hr : s.Running client c) : False := by
  obtain hout | ⟨q, hq, hid⟩ := h.clients client c hr.there
  · rw [hr.outstanding] at hout
    cases hout
  · exact hr.noQuery q hq hid

theorem not_attended_fail {f : Fault} : ¬ (s.fail f).Attended :=
  fun h => by cases h.fault

/-- The lambda of `read` forgets its client when something is thrown or `write` is refused. -/
theorem AttendedBut.run_iff (h : s.AttendedBut client) (ha : s.Accounted)
    (hc : s.pool.Consistent) (hr : s.Running client c) (granted : Bool) (op : ClientOp) :
    (s.run client c granted op).Attended ↔ (op = .read → c.isError = false →
      J.Readable c.request ∧ (c.request.url = ascii "/" → granted = true)) := by
  cases op with
  | read =>
      have ho := onRead_outcome s client c granted
      rw [Server.run]
      generalize s.onRead client c granted = t at ho
      cases ho with
      | deletes hok =>
          refine ⟨fun _ _ herr => ⟨fun j hj => ?_, fun hurl => absurd hurl (hok herr).1⟩,
            fun _ => h.delete ha hr⟩
          rw [(hok herr).2] at hj
          cases hj
      | responds honce hok herr =>
          rw [h.respond_iff hr]
          exact ⟨fun hg _ _ => ⟨hok, fun _ => hg⟩, fun hall => (hall rfl herr).2 honce.1⟩
      | asks hbook hok =>
          exact ⟨fun _ _ _ => ⟨hok, fun hurl => absurd hurl hbook.1⟩,
            fun _ => h.sendQuery hc hr _ _⟩
      | throws herr hno =>
          exact ⟨fun hat => absurd hat not_attended_fail, fun hok => absurd (hok rfl herr).1 hno⟩
  | write =>
      refine ⟨fun _ hop => absurd hop (by decide), fun _ => ?_⟩
      have hnoted : (s.note (.written client c.isError)).AttendedBut client :=
        ⟨h.fault, h.clients⟩
      exact hnoted.delete (ha.note _) (hr.note _)

/-- The lambda of a query forgets its client when the query failed, something is thrown or `write`
    is refused. -/
theorem AttendedBut.runQuery_iff (h : s.AttendedBut client) (hc : s.pool.Consistent)
    (hr : s.Running client c) {conn : ℕ}
    (hparent : (s.pool.conns conn).getParent s.pool.isAlive = some client) (granted : Bool)
    (cb : QueryCallback) :
    (s.runQuery conn granted cb).Attended ↔ (s.pool.conns conn).isError = false ∧
      (cb = .selected → (J.listing (s.pool.conns conn).results).isSome ∧ granted = true) := by
  have ho := runQuery_outcome hparent hr.there granted cb
  generalize s.runQuery conn granted cb = t at ho
  cases ho with
  | returns herr =>
      refine ⟨fun hat => (hat.not_running hr).elim, fun hok => ?_⟩
      rw [herr] at hok
      exact absurd hok.1 (by decide)
  | asks herr => exact ⟨fun _ => ⟨herr, fun hcb => by cases hcb⟩, fun _ => h.sendQuery hc hr _ _⟩
  | responds herr hbody =>
      rw [h.respond_iff hr]
      exact ⟨fun hg => ⟨herr, fun _ => ⟨by rw [hbody]; rfl, hg⟩⟩, fun hok => (hok.2 rfl).2⟩
  | fails herr hf hnone =>
      refine ⟨fun hat => absurd hat not_attended_fail, fun hok => ?_⟩
      have hsome := (hok.2 rfl).1
      rw [hnone] at hsome
      cases hsome

theorem Attended.handled (h : s.Attended) (hc : s.clients client = some c)
    {r : Receipt (Clientconnection L)} (hr : r.conn.connectionId = c.connectionId) :
    (s.handled client r).Attended := by
  refine ⟨h.fault, fun client' c' hc' => ?_⟩
  by_cases he : client' = client
  · rw [he] at hc' ⊢
    obtain rfl := Option.some.inj ((Function.update_self client _ s.clients).symm.trans hc')
    rw [hr]
    exact h.clients client c hc
  · exact h.clients client' c' ((Function.update_of_ne he _ _).symm.trans hc')

theorem Attended.calledBack (h : s.Attended) (r : Receipt (Clientconnection L)) :
    (s.calledBack client r).AttendedBut client := by
  refine ⟨h.fault, fun client' c' he hc' => ?_⟩
  have hsame : (s.calledBack client r).outstanding client' = s.outstanding client' :=
    Function.update_of_ne he _ _
  rw [hsame]
  exact h.clients client' c' ((Function.update_of_ne he _ _).symm.trans hc')

/-- A lambda that is run is the one its client has been waiting for. -/
theorem Attended.entered (h : s.Attended) (ha : s.Accounted) (hreg : s.pool.Registered)
    (hids : s.pool.DistinctIds) {q : PendingQuery} (hc : s.clients client = some c)
    (hid : c.connectionId = q.client)
    (hq : ∀ q', s.Open q' → q'.cb = q.cb → q' = q) : (s.entered q).AttendedBut client := by
  refine ⟨h.fault, fun client' c' he hc' => ?_⟩
  obtain hout | ⟨q', hq', hid'⟩ := h.clients client' c' hc'
  · exact Or.inl hout
  · refine Or.inr ⟨q', ⟨hq'.1, ?_⟩, hid'⟩
    have hne : q'.cb ≠ q.cb := by
      intro hcb
      obtain rfl := hq q' hq' hcb
      exact he (ha.same_client hreg hids hc' hc (hid'.symm.trans hid.symm))
    exact (congrArg Option.isSome (Function.update_of_ne hne _ _)).trans hq'.2

theorem Attended.pool (h : s.Attended) {l : PoolLabel} {w : PoolState}
    (hc : s.pool.Consistent) (hp : s.Permits l) (hn : s.pool.next l = some w) :
    ({ s with pool := w } : Server J L).Attended := by
  obtain ⟨hsub, -⟩ := hp.frame (hc.outcome hn)
  refine ⟨h.fault, fun client c hclient => ?_⟩
  obtain hout | ⟨q, hq, hid⟩ := h.clients client c hclient
  · exact Or.inl hout
  · exact Or.inr ⟨q, ⟨hsub ▸ hq.1, hq.2⟩, hid⟩

/-- A new client is forgotten if its `read` is refused. -/
theorem Attended.accept_iff (h : s.Attended) (ha : s.Accounted) (hreg : s.pool.Registered)
    {sockfd : ℤ} {connectionId : String} {granted : Bool} {w : PoolState} (hids : w.DistinctIds)
    (hn : s.pool.next (.accept connectionId) = some w) :
    (s.welcome sockfd connectionId granted w).Attended ↔ granted = true := by
  have hnew {q : PendingQuery} (hq : s.Open q) := ha.ne_of_new hreg hids hn hq
  obtain rfl := Option.some.inj hn
  rw [welcome]
  constructor
  · intro hat
    by_contra hrefused
    obtain rfl : granted = false := by simpa using hrefused
    obtain hout | ⟨q, hq, hid⟩ := hat.clients s.pool.accepted _ (Function.update_self ..)
    · dsimp only at hout
      rw [Function.update_self] at hout
      cases hout
    · exact hnew ⟨hq.1, hq.2⟩ hid
  · rintro rfl
    refine ⟨h.fault, fun client c hc => ?_⟩
    dsimp only at hc ⊢
    by_cases he : client = s.pool.accepted
    · rw [he, Function.update_self]
      exact Or.inl rfl
    · rw [Function.update_of_ne he] at hc ⊢
      exact h.clients client c hc

/-- A step keeps everybody attended exactly if it is benign. -/
theorem Attended.next_iff (h : s.Attended) (ha : s.Accounted) (hp : poolMachine.Reachable s.pool)
    (hids : s.pool.DistinctIds) (hids' : t.pool.DistinctIds) (hn : s.next l = some t) :
    t.Attended ↔ s.Benign l := by
  have hc := PoolState.reachable_consistent hp
  have hreg := PoolState.reachable_registered hp hids
  cases (step_outcome hn).2 with
  | pool hpermits hpool => exact ⟨fun _ => trivial, fun _ => h.pool hc hpermits hpool⟩
  | accept hs hpool => exact h.accept_iff ha hreg hids' hpool
  | @waits client op c ev recvs sends granted hs hop hclient hr hh hcb =>
      refine ⟨fun _ c' hc' _ hcb' => ?_, fun _ => h.handled hclient ?_⟩
      · obtain rfl := Option.some.inj (hclient.symm.trans hc')
        exact absurd (hcb.symm.trans hcb') (by decide)
      · exact Clientconnection.handleEvent_connectionId ..
  | @calls client op c ev recvs sends granted hs hop hclient hr hh hcb =>
      obtain ⟨hcalled, hrunning⟩ := ha.calledBack hreg hids hs hop hclient
        (Clientconnection.handleEvent_connectionId c ev recvs sends)
      rw [(h.calledBack _).run_iff hcalled hc hrunning granted op]
      constructor
      · intro hok c' hc' hread _ herr
        obtain rfl := Option.some.inj (hclient.symm.trans hc')
        exact hok (Option.some.inj (hop.symm.trans hread)) herr
      · intro hok hread herr
        exact hok c hclient (by rw [hop, hread]) hcb herr
  | @stale client op ev recvs sends granted hop hclient =>
      have hsome := ha.outstanding client (by rw [hop]; rfl)
      rw [hclient] at hsome
      cases hsome
  | @body conn q cb rest granted hs hcb =>
      obtain ⟨hentered, client, c, hid, hparent, hrunning⟩ := ha.entered hp hids hs hcb
      have hsub := (open_of_top hc hs hcb).1
      have hbut := h.entered ha hreg hids hrunning.there hid
        fun q' hq' he => ha.serial q' hq'.1 q hsub he
      rw [hbut.runQuery_iff hc hrunning hparent granted cb, Benign, hs]
      dsimp only [List.head?_cons, Option.bind_some, Frame.calling?]
      simp only [Option.mem_def, Option.some.injEq, forall_eq']
      rw [hcb]
      exact and_congr_right fun _ => imp_congr_left Option.some_inj.symm

end Server

open Server

/-! ## A request for a book -/

/-- The request line, and the rest, which reads like that of a response. -/
inductive PostState
  | line (s : HeadState)
  | rest (s : ReplyState)

def PostState.react : PostState → UInt8 → Reaction PostState
  | .line s, b =>
      let r := s.react b
      ⟨r.before, r.span, r.after,
        if r.next = .fieldStart false then .rest ⟨.fieldStart false, none⟩ else .line r.next⟩
  | .rest s, b =>
      let r := s.react b
      ⟨r.before, r.span, r.after, .rest r.next⟩

/-- A parser for requests whose only header field is `Content-Length`. -/
def postParser : Llhttp where
  State := PostState
  init := .line .first
  isError
    | .line s => s = .failed
    | .rest s => s.phase = .failed
  init_ok := rfl
  restarts
    | .line _, _ => false
    | .rest s, b => s.phase = .between && b != 13 && b != 10
  restart _ := .line .first
  react := PostState.react

/-- The JSON values of this run: an empty object comes in, an array of books goes out. -/
inductive Shelf
  | null
  | object
  | array (books : List (String × String))
deriving DecidableEq

def Shelf.dump : Shelf → String
  | .null => "null"
  | .object => "\x7b\x7d"
  | .array books =>
      let text (book : String × String) : String :=
        "\x7b\"id\":\"" ++ book.1 ++ "\",\"title\":\"" ++ book.2 ++ "\"\x7d"
      "[" ++ String.intercalate "," (books.map text) ++ "]"

def shelfJson : Json where
  Value := Shelf
  parse bs := if bs = ascii "\x7b\x7d" then some .object else none
  valueInt j _ default := if j = .object then some default else none
  valueString j _ default := if j = .object then some default else none
  dump j := some (ascii j.dump)
  null := .null
  pushBack
    | .array books, id, title => .array (books ++ [(id, title)])
    | _, id, title => .array [(id, title)]

def postRequest : Bytes := ascii "POST /books HTTP/1.1\r\nContent-Length: 2\r\n\r\n\x7b\x7d"

/-- One of ten connections is up when the client asks for a book to be inserted; it serves the
    `INSERT`, then the `SELECT`, which finds one row. The response leaves in two pieces. -/
def postBook : List ServerLabel :=
  (List.range 10).map (fun (i : ℕ) => .pool (.construct 0 (some (5 + i)))) ++
  [.pool .constructed, .pool (.connectEvent 0 ⟨epollOut, 5⟩ connectOk), .accept 20 "c" true,
    .event 0 ⟨epollIn, 20⟩ [.data ⟨postRequest, by decide, by decide⟩] [] true,
    .pool (.send ⟨1, 0⟩),
    .pool (.queryEvent 0 ⟨insertQuery 0 "", "c", 0⟩ ⟨epollIn, 5⟩
      { queryOk with results := [⟨.commandOk, 0, 0, fun _ _ => ""⟩] }),
    .body true, .pool .ret, .pool .loop, .pool (.send ⟨1, 0⟩), .pool .loop,
    .pool (.queryEvent 0 ⟨selectQuery, "c", 1⟩ ⟨epollIn, 5⟩
      { queryOk with results := [⟨.tuplesOk, 1, 2, fun _ j => if j = 0 then "0" else ""⟩] }),
    .body true, .pool .ret, .pool .loop, .event 0 ⟨epollOut, 20⟩ [] [.sent 50, .sent 57] true]

/-- The `SELECT` waits in the pool. -/
theorem postBook_waits : ∃ tr, ∃ s : Server shelfJson postParser,
    (serverMachine shelfJson postParser).Run tr s ∧ Guarded Benign tr ∧ s.pool.DistinctIds ∧
      s.pool.uncompleted = [⟨selectQuery, "c", 1⟩] := by
  have hrun : (((serverMachine shelfJson postParser).restrict Benign).exec .start
      (postBook.take 18)).map (fun s => (s.pool.uncompleted, history Obs.accepted? s.pool.log)) =
      some ([⟨selectQuery, "c", 1⟩], [(0, "c")]) := by decide +kernel
  obtain ⟨s, hs, hstate⟩ := Option.map_eq_some_iff.1 hrun
  obtain ⟨hquery, hacc⟩ := Prod.mk.inj hstate
  obtain ⟨tr, hr, hG⟩ :=
    Machine.exists_guarded_run (M := serverMachine shelfJson postParser) rfl hs
  refine ⟨tr, s, hr, hG, ?_, hquery⟩
  rw [PoolState.DistinctIds, hacc]
  simp

/-- **A client is in one place.** In every reachable state, while no `connectionId` is given out
    twice, no deleted client has been used and none been given a second operation; a registered
    handler is that of a client that is there; and a query in the pool is the only one of a client
    that is there and that no handler is registered for. -/
theorem clients_accounted {J : Json} {L : Llhttp} {s : Server J L}
    (h : (serverMachine J L).Reachable s) (hids : s.pool.DistinctIds) :
    s.fault ≠ some .dangling ∧ s.fault ≠ some .overlap ∧
      (∀ client, (s.outstanding client).isSome → (s.clients client).isSome) ∧
      ∀ q ∈ s.pool.uncompleted, ∃ client c, s.clients client = some c ∧
        c.connectionId = q.client ∧ s.outstanding client = none ∧
        ∀ q' ∈ s.pool.uncompleted, q'.client = q.client → q' = q := by
  have ha := reachable_accounted h hids
  have hc := PoolState.reachable_consistent (reachable_pool h)
  have hopen {q : PendingQuery} (hq : q ∈ s.pool.uncompleted) : s.Open q :=
    ⟨hc.submitted_of_uncompleted hq, ha.stored q hq⟩
  refine ⟨fun hf => ?_, fun hf => ?_, ha.outstanding, fun q hq => ?_⟩
  · rcases ha.fault _ hf with he | he <;> cases he
  · rcases ha.fault _ hf with he | he <;> cases he
  · obtain ⟨client, c, hclient, hid, hout⟩ := ha.waiting q (hopen hq)
    exact ⟨client, c, hclient, hid, hout,
      fun q' hq' he => ha.unique q' q (hopen hq') (hopen hq) he⟩

/-- The client of the `SELECT` is there, and has no handler. -/
theorem clients_accounted_post : ∃ s : Server shelfJson postParser,
    (serverMachine shelfJson postParser).Reachable s ∧
      s.pool.uncompleted = [⟨selectQuery, "c", 1⟩] ∧
      ∃ client c, s.clients client = some c ∧ c.connectionId = "c" ∧
        s.outstanding client = none := by
  obtain ⟨tr, s, hr, -, hids, hquery⟩ := postBook_waits
  obtain ⟨-, -, -, hplace⟩ := clients_accounted ⟨tr, hr⟩ hids
  obtain ⟨client, c, hc, hid, hout, -⟩ :=
    hplace ⟨selectQuery, "c", 1⟩ (by rw [hquery]; exact List.mem_cons_self)
  exact ⟨s, ⟨tr, hr⟩, hquery, client, c, hc, hid, hout⟩

/-- **Nobody is forgotten.** In a run in which no `connectionId` is given out twice, the program
    goes on and every client has a handler registered or a query to be answered, throughout, exactly
    if no query fails, nothing is thrown at a request or at the rows of a table, and `epoll_ctl`
    refuses no `read` and no `write`. -/
theorem attended_iff {J : Json} {L : Llhttp} {tr : List (Server J L × ServerLabel)}
    {s : Server J L} (h : (serverMachine J L).Run tr s) (hids : s.pool.DistinctIds) :
    Throughout Attended tr s ↔ Guarded Benign tr := by
  have hiff {s : Server J L} {l : ServerLabel} {t : Server J L}
      (hs : (serverMachine J L).Reachable s) (hids : t.pool.DistinctIds) (ha : s.Attended)
      (hn : s.next l = some t) : t.Attended ↔ s.Benign l := by
    have hids' := distinctIds_back hs hn hids
    exact ha.next_iff (reachable_accounted hs hids') (reachable_pool hs) hids' hids hn
  refine h.law_iff_guard_under (D := fun s => s.pool.DistinctIds) (I := Attended) hids
    (fun s l t hs hn hids => distinctIds_back hs hn hids) ?_ (fun _ ha => ha)
    (fun s l t hs hids ha hG hn => (hiff hs hids ha hn).2 hG)
    fun s l t hs hids ha hn hat => (hiff hs hids ha hn).1 hat
  rintro s rfl
  exact attended_start

theorem attended_post : ∃ tr, ∃ s : Server shelfJson postParser,
    (serverMachine shelfJson postParser).Run tr s ∧
      s.pool.uncompleted = [⟨selectQuery, "c", 1⟩] ∧ Throughout Attended tr s := by
  obtain ⟨tr, s, hr, hG, hids, hquery⟩ := postBook_waits
  exact ⟨tr, s, hr, hquery, (attended_iff hr hids).2 hG⟩

end FiberConn
