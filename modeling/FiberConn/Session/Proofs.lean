import FiberConn.Client.Proofs
import FiberConn.Session
import FiberConn.Server.Answers

set_option autoImplicit false

/-! # What the client is shown

Each side is right as long as the other one is. While the server reads nothing but the request, it
answers nothing else (`Hearing`), so it sends nothing but the response to it; while the client reads
nothing but this response, it prints nothing else (`Client.Listening`). The streams hand each side
what the other one promises. -/

namespace FiberConn

open Machine MessageReader

/-! ## The server reads -/

namespace Server

variable {J : Json} {L : Llhttp} {s t : Server J L} {l : ServerLabel} {client p : ℕ}
  {c : Clientconnection L} {heard msg : Bytes} {ts : List Token} {u : L.State}

/-- The request that a message says. -/
def said (ts : List Token) : HttpRequest := ts.foldl HttpRequest.feed .empty

/-- What has been read from the client `p` belongs to the message `msg`; this is what it is served
    for, and it has been answered nothing but what this says. -/
structure Hearing (s : Server J L) (p : ℕ) (heard msg : Bytes) (ts : List Token) (u : L.State) :
    Prop where
  known : p < s.pool.accepted
  reading : ∀ c, s.clients p = some c → s.outstanding p = some .read →
    (Clientconnection.reader L).Midway .empty msg ts u heard c
  writing : ∀ c, s.clients p = some c → s.outstanding p = some .write → c.request = said ts
  asking : ∀ q c, s.Open q → s.clients p = some c → c.connectionId = q.client →
    c.request = said ts
  told : ∀ request body, (request, body) ∈ s.answers p → request = said ts

theorem Hearing.frame (h : s.Hearing p heard msg ts u) (hknown : s.pool.accepted ≤ t.pool.accepted)
    (hclients : ∀ c, t.clients p = some c → s.clients p = some c)
    (hop : t.outstanding p = s.outstanding p) (hopen : ∀ q, t.Open q → s.Open q)
    (hanswers : t.answers p = s.answers p) : t.Hearing p heard msg ts u where
  known := h.known.trans_le hknown
  reading c hc hread := h.reading c (hclients c hc) (hop ▸ hread)
  writing c hc hwrite := h.writing c (hclients c hc) (hop ▸ hwrite)
  asking q c hq hc hid := h.asking q c (hopen q hq) (hclients c hc) hid
  told request body hmem := h.told request body (hanswers ▸ hmem)

theorem Hearing.delete (h : s.Hearing p heard msg ts u) (ha : s.Accounted)
    (hr : s.Running client c) : (s.delete client).Hearing p heard msg ts u := by
  rw [delete_eq (ha.live_of hr.there)]
  refine h.frame le_rfl (fun c' hc' => ?_) rfl (fun _ hq => hq) rfl
  dsimp only at hc'
  by_cases he : p = client
  · rw [he, Function.update_self] at hc'
    cases hc'
  · rwa [Function.update_of_ne he] at hc'

theorem Hearing.respond (h : s.Hearing p heard msg ts u) (hr : s.Running client c)
    (hrequest : p = client → c.request = said ts) (body : Bytes) (granted : Bool) :
    (s.respond client c body granted).Hearing p heard msg ts u := by
  have hopen (q : PendingQuery) : (s.respond client c body granted).Open q → s.Open q :=
    (open_respond hr body granted).1
  by_cases he : p = client
  · subst he
    have hrequest := hrequest rfl
    have hself {c' : Clientconnection L}
        (hc' : (s.respond p c body granted).clients p = some c') : c'.request = said ts := by
      rw [clients_respond hr, Function.update_self] at hc'
      obtain rfl := Option.some.inj hc'
      exact hrequest
    refine ⟨?_, fun c' _ hread => ?_, fun c' hc' _ => hself hc', fun q c' _ hc' _ => hself hc',
      fun request body' hmem => ?_⟩
    · rw [pool_respond]
      exact h.known
    · rw [outstanding_respond hr, Function.update_self] at hread
      cases eq_of_heldIf hread
    · rw [answers_respond_self hr] at hmem
      obtain hnew | hold := List.mem_cons.1 hmem
      · exact (Prod.mk.inj hnew).1.trans hrequest
      · exact h.told request body' hold
  · refine h.frame (by rw [pool_respond]) (fun c' hc' => ?_) ?_ hopen
      (answers_respond_of_ne hr body granted he)
    · rwa [clients_respond hr, Function.update_of_ne he] at hc'
    · rw [outstanding_respond hr, Function.update_of_ne he]

theorem Hearing.sendQuery (h : s.Hearing p heard msg ts u) (ha : s.Accounted)
    (hp : poolMachine.Reachable s.pool) (hids : s.pool.DistinctIds) (hr : s.Running client c)
    (hrequest : p = client → c.request = said ts) (query : String) (cb : QueryCallback) :
    (s.sendQuery query c.connectionId cb).Hearing p heard msg ts u := by
  have hc := PoolState.reachable_consistent hp
  have haccepted : (s.sendQuery query c.connectionId cb).pool.accepted = s.pool.accepted :=
    (hc.outcome (sendQuery_next hr.userCode query c.connectionId cb)).submits.2.2.2.1
  refine ⟨haccepted.ge.trans_lt' h.known, h.reading, h.writing, fun q c' hq hc' hid => ?_, h.told⟩
  obtain hold | rfl := (open_sendQuery hc hr.userCode).1 hq
  · exact h.asking q c' hold hc' hid
  · have hreg := PoolState.reachable_registered hp hids
    obtain rfl := ha.same_client hreg hids hc' hr.there hid
    obtain rfl := Option.some.inj (hr.there.symm.trans hc')
    exact hrequest rfl

theorem Hearing.run (h : s.Hearing p heard msg ts u) (ha : s.Accounted)
    (hp : poolMachine.Reachable s.pool) (hids : s.pool.DistinctIds) (hr : s.Running client c)
    {op : ClientOp} (hrequest : p = client → op = .read → c.isError = false → c.request = said ts)
    (granted : Bool) : (s.run client c granted op).Hearing p heard msg ts u := by
  cases op with
  | read =>
      have ho := onRead_outcome s client c granted
      rw [Server.run]
      generalize s.onRead client c granted = t at ho
      cases ho with
      | deletes => exact h.delete ha hr
      | responds _ _ herr => exact h.respond hr (fun he => hrequest he rfl herr) _ _
      | asks _ _ herr => exact h.sendQuery ha hp hids hr (fun he => hrequest he rfl herr) _ _
      | throws => exact h.frame le_rfl (fun _ hc' => hc') rfl (fun _ hq => hq) rfl
  | write =>
      have hnoted : (s.note (.written client c.isError)).Hearing p heard msg ts u :=
        h.frame le_rfl (fun _ hc' => hc') rfl (fun _ hq => hq) rfl
      exact hnoted.delete (ha.note _) (hr.note _)

theorem Hearing.runQuery (h : s.Hearing p heard msg ts u) (ha : s.Accounted)
    (hp : poolMachine.Reachable s.pool) (hids : s.pool.DistinctIds) (hr : s.Running client c)
    {conn : ℕ} (hparent : (s.pool.conns conn).getParent s.pool.isAlive = some client)
    (hrequest : p = client → c.request = said ts) (granted : Bool) (cb : QueryCallback) :
    (s.runQuery conn granted cb).Hearing p heard msg ts u := by
  have ho := runQuery_outcome hparent hr.there granted cb
  generalize s.runQuery conn granted cb = t at ho
  cases ho with
  | returns => exact h
  | asks => exact h.sendQuery ha hp hids hr hrequest _ _
  | responds => exact h.respond hr hrequest _ _
  | fails => exact h.frame le_rfl (fun _ hc' => hc') rfl (fun _ hq => hq) rfl

/-- A new client that has been sent nothing. -/
theorem hearing_welcome (ha : s.Accounted) (hreg : s.pool.Registered) (hd : s.Delivering)
    (hm : L.message L.init msg = some (ts, u)) {sockfd : ℤ} {connectionId : String}
    {granted : Bool} {w : PoolState} (hids : w.DistinctIds)
    (hn : s.pool.next (.accept connectionId) = some w) :
    (s.welcome sockfd connectionId granted w).Hearing s.pool.accepted [] msg ts u := by
  have hnew {q : PendingQuery} (hq : s.Open q) := ha.ne_of_new hreg hids hn hq
  have hself {c : Clientconnection L}
      (hc : (s.welcome sockfd connectionId granted w).clients s.pool.accepted = some c) :
      .new sockfd connectionId = c :=
    Option.some.inj ((Function.update_self s.pool.accepted _ s.clients).symm.trans hc)
  obtain rfl := Option.some.inj hn
  refine ⟨Nat.lt_succ_self _, fun c hc _ => ?_, fun c _ hwrite => ?_, fun q c hq hc hid => ?_,
    fun request body hmem => ?_⟩
  · obtain rfl := hself hc
    have hpristine : (.new sockfd connectionId : Clientconnection L).Pristine :=
      ⟨rfl, rfl, rfl, rfl⟩
    exact (hpristine.awaits hm).midway
  · cases eq_of_heldIf ((Function.update_self s.pool.accepted _ s.outstanding).symm.trans hwrite)
  · obtain rfl := hself hc
    exact absurd hid.symm (hnew ⟨hq.1, hq.2⟩)
  · have hnone : s.answers s.pool.accepted = [] := (hd.known s.pool.accepted le_rfl).1
    have hmem : (request, body) ∈ s.answers s.pool.accepted := hmem
    rw [hnone] at hmem
    cases hmem

theorem Hearing.calledBack_of_ne (h : s.Hearing p heard msg ts u) (hne : p ≠ client)
    (r : Receipt (Clientconnection L)) : (s.calledBack client r).Hearing p heard msg ts u :=
  h.frame le_rfl (fun _ hc => (Function.update_of_ne hne _ _).symm.trans hc)
    (Function.update_of_ne hne _ _) (fun _ hq => hq) rfl

section Event

variable {ev : EpollEvent} {recvs : List RecvResult} {sends : List SendResult} {granted : Bool}

theorem reads_event (hc : s.clients p = some c) : s.reads p (.event p ev recvs sends granted) =
    bytesRead (c.handleEvent ev recvs sends).effects := by
  rw [reads, if_pos rfl, hc]
  rfl

theorem reads_event_of_ne (hne : p ≠ client) :
    s.reads p (.event client ev recvs sends granted) = [] :=
  if_neg hne.symm

/-- The handler goes on with its operation. -/
theorem Hearing.waits (h : s.Hearing p heard msg ts u)
    (hasked : ∀ q, s.Open q → q.client ≠ c.connectionId) {op : ClientOp}
    (hop : s.outstanding p = some op) (hc : s.clients p = some c) (hr : op.Reports ev)
    (hcb : CallsBack (c.handleEvent ev recvs sends).effects = false)
    (hread : heard ++ bytesRead (c.handleEvent ev recvs sends).effects <+: msg) :
    (s.handled p (c.handleEvent ev recvs sends)).Hearing p
      (heard ++ bytesRead (c.handleEvent ev recvs sends).effects) msg ts u := by
  have hself {c' : Clientconnection L}
      (hc' : (s.handled p (c.handleEvent ev recvs sends)).clients p = some c') :
      (c.handleEvent ev recvs sends).conn = c' :=
    Option.some.inj ((Function.update_self p _ s.clients).symm.trans hc')
  refine ⟨h.known, fun c' hc' hread' => ?_, fun c' hc' hwrite => ?_, fun q c' hq hc' hid => ?_,
    h.told⟩
  · obtain rfl := hself hc'
    obtain rfl := Option.some.inj (hop.symm.trans hread')
    cases Clientconnection.handleEvent_reads (h.reading c hc hop) hr hread with
    | waits _ hmid => exact hmid
    | completes hcalls => cases hcalls.symm.trans hcb
    | fails hcalls => cases hcalls.symm.trans hcb
  · obtain rfl := hself hc'
    obtain rfl := Option.some.inj (hop.symm.trans hwrite)
    exact (Clientconnection.handleEvent_request hr).trans (h.writing c hc hop)
  · obtain rfl := hself hc'
    rw [Clientconnection.handleEvent_connectionId] at hid
    exact absurd hid.symm (hasked q hq)

/-- The operation ends, and nothing is under way for the client. -/
theorem Hearing.calls (h : s.Hearing p heard msg ts u)
    (hasked : ∀ q, s.Open q → q.client ≠ c.connectionId) (heard' : Bytes) :
    (s.calledBack p (c.handleEvent ev recvs sends)).Hearing p heard' msg ts u := by
  have hnone : (s.calledBack p (c.handleEvent ev recvs sends)).outstanding p = none :=
    Function.update_self ..
  refine ⟨h.known, fun c' _ hread => ?_, fun c' _ hwrite => ?_, fun q c' hq hc' hid => ?_, h.told⟩
  · cases hnone.symm.trans hread
  · cases hnone.symm.trans hwrite
  · obtain rfl := Option.some.inj ((Function.update_self p _ s.clients).symm.trans hc')
    rw [Clientconnection.handleEvent_connectionId] at hid
    exact absurd hid.symm (hasked q hq)

/-- A `read` that has not failed has read the message. -/
theorem Hearing.request_eq (h : s.Hearing p heard msg ts u) (hop : s.outstanding p = some .read)
    (hc : s.clients p = some c) (hr : ClientOp.read.Reports ev)
    (hcb : CallsBack (c.handleEvent ev recvs sends).effects = true)
    (hread : heard ++ bytesRead (c.handleEvent ev recvs sends).effects <+: msg)
    (herr : (c.handleEvent ev recvs sends).conn.isError = false) :
    (c.handleEvent ev recvs sends).conn.request = said ts := by
  cases Clientconnection.handleEvent_reads (h.reading c hc hop) hr hread with
  | waits hsilent => cases hsilent.symm.trans hcb
  | completes _ _ hmessage => exact hmessage
  | fails _ hfailed => cases herr.symm.trans hfailed

end Event

/-- **What the server reads is what it answers.** -/
theorem Hearing.next (h : s.Hearing p heard msg ts u) (ha : s.Accounted)
    (hp : poolMachine.Reachable s.pool) (hids : s.pool.DistinctIds) (hn : s.next l = some t)
    (hread : heard ++ s.reads p l <+: msg) : t.Hearing p (heard ++ s.reads p l) msg ts u := by
  have hc := PoolState.reachable_consistent hp
  have hreg := PoolState.reachable_registered hp hids
  have hsame : heard ++ [] = heard := List.append_nil heard
  cases (step_outcome hn).2 with
  | pool hpermits hpool =>
      obtain ⟨hsub, -, haccepted⟩ := hpermits.frame (hc.outcome hpool)
      exact hsame.symm ▸ h.frame haccepted.ge (fun _ hc' => hc') rfl
        (fun _ hq => ⟨hsub ▸ hq.1, hq.2⟩) rfl
  | accept hs hpool =>
      obtain rfl := Option.some.inj hpool
      exact hsame.symm ▸ h.frame (Nat.le_succ _)
        (fun _ hc' => (Function.update_of_ne h.known.ne _ _).symm.trans hc')
        (Function.update_of_ne h.known.ne _ _) (fun _ hq => hq) rfl
  | @waits client op c ev recvs sends granted hs hop hclient hr hh hcb =>
      by_cases he : p = client
      · subst he
        rw [reads_event hclient] at hread ⊢
        exact h.waits (fun _ hq => ha.ne_of_outstanding hreg hids hclient (by rw [hop]; simp) hq)
          hop hclient hr hcb hread
      · rw [reads_event_of_ne he, hsame]
        exact h.frame le_rfl (fun _ hc' => (Function.update_of_ne he _ _).symm.trans hc') rfl
          (fun _ hq => hq) rfl
  | @calls client op c ev recvs sends granted hs hop hclient hr hh hcb =>
      obtain ⟨hcalled, hrunning⟩ := ha.calledBack hreg hids hs hop hclient
        (Clientconnection.handleEvent_connectionId c ev recvs sends)
      by_cases he : p = client
      · subst he
        rw [reads_event hclient] at hread ⊢
        have hheard : (s.calledBack p (c.handleEvent ev recvs sends)).Hearing p
            (heard ++ bytesRead (c.handleEvent ev recvs sends).effects) msg ts u :=
          h.calls (fun _ hq => ha.ne_of_outstanding hreg hids hclient (by rw [hop]; simp) hq) _
        refine hheard.run hcalled hp hids hrunning (fun _ hread' herr => ?_) granted
        subst hread'
        exact h.request_eq hop hclient hr hcb hread herr
      · rw [reads_event_of_ne he, hsame]
        exact (h.calledBack_of_ne he _).run hcalled hp hids hrunning (fun he' => absurd he' he)
          granted
  | @stale client op ev recvs sends granted hop hclient =>
      have hsome := ha.outstanding client (by rw [hop]; rfl)
      rw [hclient] at hsome
      cases hsome
  | @body conn q cb rest granted hs hcb =>
      obtain ⟨hentered, client, c, hid, hparent, hrunning⟩ := ha.entered hp hids hs hcb
      have hopened : s.Open q := open_of_top hc hs hcb
      have hheard : (s.entered q).Hearing p heard msg ts u := by
        refine h.frame le_rfl (fun _ hc' => hc') rfl (fun q' hq' => ⟨hq'.1, ?_⟩) rfl
        by_cases he : q'.cb = q.cb
        · rw [he]
          exact hopened.2
        · exact (congrArg Option.isSome (Function.update_of_ne he _ _)).symm.trans hq'.2
      have hrequest (he : p = client) : c.request = said ts :=
        h.asking q c hopened (he ▸ hrunning.there) hid
      exact hsame.symm ▸ hheard.runQuery hentered hp hids hrunning hparent hrequest granted cb

/-! ## What has been sent stays sent -/

theorem sent_delete (s : Server J L) (client : ℕ) : (s.delete client).sent = s.sent := by
  unfold delete
  split <;> rfl

theorem sent_run (s : Server J L) (client : ℕ) (c : Clientconnection L) (granted : Bool)
    (op : ClientOp) : (s.run client c granted op).sent = s.sent := by
  cases op with
  | read =>
      have ho := onRead_outcome s client c granted
      rw [run]
      generalize s.onRead client c granted = t at ho
      cases ho with
      | deletes => exact sent_delete s client
      | responds => exact sent_respond
      | asks => rfl
      | throws => rfl
  | write => exact sent_delete (s.note _) client

theorem sent_withParent {conn : ℕ} {f : ℕ → Clientconnection L → Server J L}
    (hf : ∀ client c, (f client c).sent = s.sent) : (s.withParent conn f).sent = s.sent := by
  unfold withParent
  split
  · rfl
  split
  · rfl
  split
  · exact hf _ _
  · rfl

theorem sent_runQuery (s : Server J L) (conn : ℕ) (granted : Bool) (cb : QueryCallback) :
    (s.runQuery conn granted cb).sent = s.sent := by
  cases cb with
  | inserted => exact sent_withParent fun _ _ => rfl
  | selected =>
      refine sent_withParent fun client c => ?_
      split
      · rfl
      split
      · exact sent_respond
      · rfl

theorem sent_handled (s : Server J L) (client p : ℕ) (r : Receipt (Clientconnection L)) :
    s.sent p <+: (s.handled client r).sent p := by
  by_cases he : p = client
  · rw [he]
    exact ⟨_, (Function.update_self client _ s.sent).symm⟩
  · exact (Function.update_of_ne he _ s.sent).symm ▸ List.prefix_rfl

theorem sent_next (hn : s.next l = some t) (p : ℕ) : s.sent p <+: t.sent p := by
  cases (step_outcome hn).2 with
  | pool => exact List.prefix_rfl
  | accept => exact List.prefix_rfl
  | waits => exact sent_handled s _ p _
  | calls =>
      rw [sent_run]
      exact sent_handled s _ p _
  | stale => exact List.prefix_rfl
  | body =>
      rw [sent_runQuery]
      exact List.prefix_rfl

end Server

theorem httpResponse_ne_nil {body : Bytes} : httpResponse body ≠ [] := by
  intro hnil
  simp only [httpResponse, List.append_eq_nil_iff] at hnil
  exact absurd hnil.1.1.1.1.1 (by decide)

open Server Client

/-! ## The two of them -/

namespace Session

variable {J : Json} {Lq Lr : Llhttp} {s t : Session J Lq Lr} {l : SessionLabel}
  {tq tr : List Token} {uq : Lq.State} {ur : Lr.State}

/-- libpq starts no command while one is in progress. -/
def CommandFree (s : Session J Lq Lr) : SessionLabel → Prop
  | .server l => s.server.CommandFree l
  | _ => True

instance (s : Session J Lq Lr) (l : SessionLabel) : Decidable (s.CommandFree l) :=
  match l with
  | .server l => inferInstanceAs (Decidable (s.server.CommandFree l))
  | .client _ | .meet _ _ _ => instDecidableTrue

/-- What a step can do. -/
inductive Outcome (s : Session J Lq Lr) : SessionLabel → Session J Lq Lr → Prop
  | client {l : ClientLabel} {client : Client Lr} (hn : s.client.next l = some client)
      (hread : client.received <+: s.reply) : Outcome s (.client l) { s with client := client }
  | server {l : ServerLabel} {server : Server J Lq} (hn : s.server.next l = some server)
      (hread : s.heard ++ s.hears l <+: s.client.sent) :
      Outcome s (.server l) { s with server := server, heard := s.heard ++ s.hears l }
  | meet {sockfd : ℤ} {connectionId : String} {granted : Bool} {server : Server J Lq}
      (hpeer : s.peer = none)
      (hn : s.server.next (.accept sockfd connectionId granted) = some server) :
      Outcome s (.meet sockfd connectionId granted)
        { s with server := server, peer := some s.server.pool.accepted }

theorem step_outcome (hn : s.next l = some t) : Outcome s l t := by
  cases l with
  | client l =>
      obtain ⟨client, hclient, hrest⟩ := Option.bind_eq_some_iff.1 hn
      obtain ⟨hread, hrest⟩ := Option.ite_none_right_eq_some.1 hrest
      obtain rfl := Option.some.inj hrest
      exact .client hclient hread
  | server l =>
      obtain ⟨server, hserver, hrest⟩ := Option.bind_eq_some_iff.1 hn
      obtain ⟨hread, hrest⟩ := Option.ite_none_right_eq_some.1 hrest
      obtain rfl := Option.some.inj hrest
      exact .server hserver hread
  | meet sockfd connectionId granted =>
      obtain ⟨hpeer, hmap⟩ := Option.ite_none_right_eq_some.1 hn
      obtain ⟨server, hserver, rfl⟩ := Option.map_eq_some_iff.1 hmap
      exact .meet hpeer hserver

/-- Each side runs its own program. -/
theorem Outcome.sides (ho : Outcome s l t) :
    (t.client = s.client ∨ ∃ l', s.client.next l' = some t.client) ∧
      (t.server = s.server ∨ ∃ l', s.server.next l' = some t.server ∧
        (s.CommandFree l → s.server.CommandFree l')) := by
  cases ho with
  | client hn => exact ⟨Or.inr ⟨_, hn⟩, Or.inl rfl⟩
  | server hn => exact ⟨Or.inl rfl, Or.inr ⟨_, hn, id⟩⟩
  | meet hpeer hn => exact ⟨Or.inl rfl, Or.inr ⟨_, hn, fun _ => trivial⟩⟩

theorem reachable_client (h : (sessionMachine J Lq Lr).Reachable s) :
    (clientMachine Lr).Reachable s.client := by
  refine h.invariant (I := fun s => (clientMachine Lr).Reachable s.client) ?_ ?_
  · rintro s ⟨memory, sockfd, granted, rfl⟩
    exact .start ⟨memory, sockfd, granted, rfl⟩
  · intro s l t hreach hn
    obtain hsame | ⟨l', hn'⟩ := (step_outcome hn).sides.1
    · exact hsame ▸ hreach
    · exact hreach.step hn'

theorem run_server {run : List (Session J Lq Lr × SessionLabel)}
    (h : (sessionMachine J Lq Lr).Run run s) : ∃ run', (serverMachine J Lq).Run run' s.server ∧
      (Guarded CommandFree run → Guarded Server.CommandFree run') := by
  refine h.component (N := serverMachine J Lq) Session.server ?_
    fun s l t hn => (step_outcome hn).sides.2
  rintro s ⟨memory, sockfd, granted, rfl⟩
  rfl

/-- What is known of each side's stream. -/
structure Agreed (s : Session J Lq Lr) (tq tr : List Token) (uq : Lq.State) (ur : Lr.State) :
    Prop where
  hearing : ∀ p, s.peer = some p → s.server.Hearing p s.heard clientRequest tq uq
  unmet : s.peer = none → s.heard = []
  listening : s.client.Listening (httpResponse []) tr ur
  received : s.client.received <+: s.reply

theorem reply_none (hpeer : s.peer = none) : s.reply = [] := by
  rw [reply, hpeer]
  rfl

theorem reply_some {p : ℕ} (hpeer : s.peer = some p) : s.reply = s.server.sent p := by
  rw [reply, hpeer]
  rfl

/-- The server adds to the reply. -/
theorem reply_server {l : ServerLabel} {server : Server J Lq}
    (hn : s.server.next l = some server) (heard : Bytes) :
    s.reply <+: ({ s with server := server, heard := heard } : Session J Lq Lr).reply := by
  unfold reply
  dsimp only
  cases s.peer with
  | none => exact List.prefix_rfl
  | some p => exact sent_next hn p

theorem hears_none (hpeer : s.peer = none) (l : ServerLabel) : s.hears l = [] := by
  rw [hears, hpeer]
  rfl

theorem hears_some {p : ℕ} (hpeer : s.peer = some p) (l : ServerLabel) :
    s.hears l = s.server.reads p l := by
  rw [hears, hpeer]
  rfl

theorem agreed_start (hr : Lr.message Lr.init (httpResponse []) = some (tr, ur))
    (memory sockfd : ℤ) (granted : Bool) :
    (⟨.start memory sockfd granted, .start, none, []⟩ : Session J Lq Lr).Agreed tq tr uq ur where
  hearing p hp := by cases hp
  unmet _ := rfl
  listening := listening_start hr memory sockfd granted
  received := by
    rw [received_start]
    exact List.nil_prefix

section Request

variable (hurl : (said tq).url = ascii "/") (hnone : J.parse (said tq).body = none)

include hurl hnone

/-- The client's request is answered at once, with no body. -/
theorem Agreed.answered (h : s.Agreed tq tr uq ur) (ht : s.server.Truthful) {p : ℕ}
    (hp : s.peer = some p) {request : HttpRequest} {body : Bytes}
    (hmem : (request, body) ∈ s.server.answers p) : (request, body) = (said tq, []) := by
  obtain rfl := (h.hearing p hp).told request body hmem
  obtain ⟨connectionId, -, hanswers⟩ := ht.told p _ body hmem
  cases hanswers with
  | atOnce hat =>
      have hbody := hat.2
      rw [hnone] at hbody
      rw [hbody]
  | fromTable hasked =>
      cases hasked with
      | select hinserts => exact absurd hurl hinserts.1

/-- It is answered once, or has been sent nothing. -/
theorem Agreed.replies (h : s.Agreed tq tr uq ur) (ht : s.server.Truthful)
    (hd : s.server.Delivering) : s.reply = [] ∨ s.reply <+: httpResponse [] ∧
      ∃ p, s.peer = some p ∧ s.server.answers p = [(said tq, [])] := by
  cases hpeer : s.peer with
  | none => exact Or.inl (reply_none hpeer)
  | some p =>
      rw [reply_some hpeer]
      obtain ⟨-, hnothing⟩ | ⟨request, body, hone, -, hpart⟩ := hd.once p
      · exact Or.inl hnothing
      · have hsaid : (request, body) = (said tq, []) :=
          h.answered hurl hnone ht hpeer (by rw [hone]; exact List.mem_cons_self)
        obtain ⟨rfl, rfl⟩ := Prod.mk.inj hsaid
        exact Or.inr ⟨hpart, p, rfl, hone⟩

theorem Agreed.reply_prefix (h : s.Agreed tq tr uq ur) (ht : s.server.Truthful)
    (hd : s.server.Delivering) : s.reply <+: httpResponse [] := by
  obtain hnothing | ⟨hpart, -⟩ := h.replies hurl hnone ht hd
  · rw [hnothing]
    exact List.nil_prefix
  · exact hpart

theorem Agreed.next (h : s.Agreed tq tr uq ur)
    (hq : Lq.message Lq.init clientRequest = some (tq, uq)) (ht : s.server.Truthful)
    (hd : s.server.Delivering) (ha : s.server.Accounted) (hphase : s.client.Phase)
    (hpool : poolMachine.Reachable s.server.pool) (hids : s.server.pool.DistinctIds)
    (hids' : t.server.pool.DistinctIds) (hn : s.next l = some t) : t.Agreed tq tr uq ur := by
  cases step_outcome hn with
  | client hclient hread =>
      exact ⟨h.hearing, h.unmet, h.listening.next hphase hclient
        (hread.trans (h.reply_prefix hurl hnone ht hd)), hread⟩
  | @server l server hserver hread =>
      have hread := hread.trans hphase.sent_prefix
      refine ⟨fun p hp => ?_, fun hpeer => ?_, h.listening,
        h.received.trans (reply_server hserver _)⟩
      · have hp : s.peer = some p := hp
        rw [hears_some hp] at hread ⊢
        exact (h.hearing p hp).next ha hpool hids hserver hread
      · have hpeer : s.peer = none := hpeer
        show s.heard ++ s.hears l = []
        rw [h.unmet hpeer, hears_none hpeer]
        rfl
  | meet hpeer hserver =>
      have hheard := h.unmet hpeer
      have hreceived := h.received
      rw [reply_none hpeer] at hreceived
      refine ⟨fun p hp => ?_, fun hno => (Option.some_ne_none _ hno).elim,
        h.listening,
        hreceived.trans List.nil_prefix⟩
      obtain rfl := Option.some.inj hp
      show Server.Hearing _ _ s.heard _ _ _
      rw [hheard]
      cases (Server.step_outcome hserver).2 with
      | accept hs haccept =>
          exact hearing_welcome ha (PoolState.reachable_registered hpool hids) hd hq hids' haccept

end Request

theorem run_agreed (hq : Lq.message Lq.init clientRequest = some (tq, uq))
    (hr : Lr.message Lr.init (httpResponse []) = some (tr, ur))
    (hurl : (said tq).url = ascii "/") (hnone : J.parse (said tq).body = none)
    {run : List (Session J Lq Lr × SessionLabel)} (h : (sessionMachine J Lq Lr).Run run s)
    (hG : Guarded CommandFree run) (hids : s.server.pool.DistinctIds) :
    s.Agreed tq tr uq ur ∧ s.server.Truthful ∧ s.server.Delivering := by
  induction h with
  | start h =>
      obtain ⟨memory, sockfd, granted, rfl⟩ := h
      exact ⟨agreed_start hr memory sockfd granted, truthful_start, delivering_start⟩
  | @step run s t l hrun hn ih =>
      obtain ⟨hfree, hG'⟩ := guarded_cons.1 hG
      obtain ⟨run', hrun', -⟩ := run_server hrun
      have hids' : s.server.pool.DistinctIds := by
        obtain hsame | ⟨l', hn', -⟩ := (step_outcome hn).sides.2
        · exact hsame ▸ hids
        · exact distinctIds_back ⟨run', hrun'⟩ hn' hids
      obtain ⟨hagreed, ht, hd⟩ := ih hG' hids'
      obtain ⟨run'', hrun'', hfree''⟩ := run_server (hrun.step hn)
      exact ⟨hagreed.next hurl hnone hq ht hd (reachable_accounted ⟨run', hrun'⟩ hids')
        (reachable_phase (reachable_client ⟨run, hrun⟩)).1 (reachable_pool ⟨run', hrun'⟩) hids' hids
          hn,
        run_truthful hrun'' (hfree'' hG) hids, (reachable_delivering ⟨run'', hrun''⟩ hids).1⟩

end Session

open Session

/-- **The client prints what the server answers.** In every run of both, with any other clients, in
    which libpq starts no command while one is in progress and no `connectionId` is given out twice,
    whatever of the streams has arrived: the server sends the client nothing but the empty response,
    and when the client prints a response without an error, it has sent its whole request, the
    server has answered exactly this, once, and sent all of the response, and this is what is
    printed. -/
theorem session_exact {J : Json} {Lq Lr : Llhttp} {tq tr : List Token} {uq : Lq.State}
    {ur : Lr.State} (hq : Lq.message Lq.init clientRequest = some (tq, uq))
    (hqc : HeadersClosed tq) (hr : Lr.message Lr.init (httpResponse []) = some (tr, ur))
    (hrc : HeadersClosed tr) (hurl : (requestOf tq).url = ascii "/")
    (hnone : J.parse (requestOf tq).body = none) {run : List (Session J Lq Lr × SessionLabel)}
    {s : Session J Lq Lr} (h : (sessionMachine J Lq Lr).Run run s)
    (hG : Guarded Session.CommandFree run) (hids : s.server.pool.DistinctIds) :
    s.reply <+: httpResponse [] ∧ ∀ response, (false, response) ∈ s.client.printed →
      s.client.sent = clientRequest ∧ s.reply = httpResponse [] ∧
        (∃ p, s.peer = some p ∧ s.server.answers p = [(requestOf tq, [])]) ∧
        response = responseOf tr := by
  have hsaid : said tq = requestOf tq := feed_requestOf hqc
  rw [← hsaid] at hurl hnone ⊢
  obtain ⟨hagreed, ht, hd⟩ := run_agreed hq hr hurl hnone h hG hids
  have hreply := hagreed.reply_prefix hurl hnone ht hd
  refine ⟨hreply, fun response hmem => ?_⟩
  obtain ⟨hreceived, hresponse⟩ := hagreed.listening.heard response hmem
  have hall : s.reply = httpResponse [] :=
    hreply.eq_of_length_le (hreceived ▸ hagreed.received.length_le)
  refine ⟨(reachable_phase (reachable_client ⟨run, h⟩)).1.sent_of_printed hmem, hall, ?_,
    hresponse.trans (feed_responseOf hrc)⟩
  obtain hnothing | ⟨-, hanswered⟩ := hagreed.replies hurl hnone ht hd
  · rw [hall] at hnothing
    exact absurd hnothing httpResponse_ne_nil
  · exact hanswered

/-! ## A run -/

/-- A response with any header fields, of which `Content-Length` counts. -/
structure FieldsState where
  reply : ReplyState
  /-- The name of the field. -/
  name : Bytes
deriving DecidableEq

def FieldsState.react (s : FieldsState) (b : UInt8) : Reaction FieldsState :=
  let r := s.reply.react b
  let name :=
    if r.span = some .headerField then (if s.reply.phase = .field then s.name else []) ++ [b]
    else s.name
  let left := if s.name = ascii "Content-Length" then r.next.left else s.reply.left
  ⟨r.before, r.span, r.after,
    ⟨if r.span = some .headerValue then { r.next with left := left } else r.next, name⟩⟩

def fieldsParser : Llhttp where
  State := FieldsState
  init := ⟨⟨.start, none⟩, []⟩
  isError s := s.reply.phase = .failed
  init_ok := rfl
  restarts s b := s.reply.phase = .between && b != 13 && b != 10
  restart _ := ⟨⟨.start, none⟩, []⟩
  react := FieldsState.react

/-- What `clientRequest` and the response are parsed into. -/
def requestTokens : List Token :=
  ((headParser.message .first clientRequest).map Prod.fst).getD []

def responseTokens : List Token :=
  ((fieldsParser.message fieldsParser.init (httpResponse [])).map Prod.fst).getD []

/-- The request arrives in two pieces, and so does the response. -/
def getSession : List SessionLabel :=
  (List.range 10).map (fun (i : ℕ) => .server (.pool (.construct 0 (some (5 + i))))) ++
  [.server (.pool .constructed), .client ⟨⟨epollOut, 5⟩, [], [], true⟩, .meet 20 "c" true,
    .client ⟨⟨epollOut, 5⟩, [], [.sent 20], true⟩,
    .server (.event 0 ⟨epollIn, 20⟩ [.data ⟨clientRequest.take 20, by decide, by decide⟩] [] true),
    .client ⟨⟨epollOut, 5⟩, [], [.sent 30], true⟩,
    .server (.event 0 ⟨epollIn, 20⟩ [.data ⟨clientRequest.drop 20, by decide, by decide⟩] [] true),
    .server (.event 0 ⟨epollOut, 20⟩ [] [.sent 40] true),
    .client ⟨⟨epollIn, 5⟩, [.data ⟨(httpResponse []).take 40, by decide, by decide⟩], [], true⟩,
    .server (.event 0 ⟨epollOut, 20⟩ [] [.sent 43] true),
    .client ⟨⟨epollIn, 5⟩, [.data ⟨(httpResponse []).drop 40, by decide, by decide⟩], [], true⟩]

/-- The client shows the empty response. -/
theorem session_exact_get : ∃ run, ∃ s : Session shelfJson headParser fieldsParser,
    (sessionMachine shelfJson headParser fieldsParser).Run run s ∧
      s.client.printed = [(false, responseOf responseTokens)] ∧
      s.client.sent = clientRequest ∧ s.reply = httpResponse [] ∧
      ∃ p, s.peer = some p ∧ s.server.answers p = [(requestOf requestTokens, [])] := by
  have hrequest : (headParser.message headParser.init clientRequest).map Prod.fst =
      some requestTokens := by decide +kernel
  have hresponse : (fieldsParser.message fieldsParser.init (httpResponse [])).map Prod.fst =
      some responseTokens := by decide +kernel
  obtain ⟨⟨tq, uq⟩, hq, htq⟩ := Option.map_eq_some_iff.1 hrequest
  obtain ⟨⟨tr, ur⟩, hr, htr⟩ := Option.map_eq_some_iff.1 hresponse
  rw [show tq = requestTokens from htq] at hq
  rw [show tr = responseTokens from htr] at hr
  have hrun : (((sessionMachine shelfJson headParser fieldsParser).restrict
      Session.CommandFree).exec ⟨.start 0 5 true, .start, none, []⟩ getSession).map
        (fun s => (s.client.printed, history Obs.accepted? s.server.pool.log)) =
      some ([(false, responseOf responseTokens)], [(0, "c")]) := by decide +kernel
  obtain ⟨s, hs, hstate⟩ := Option.map_eq_some_iff.1 hrun
  obtain ⟨hprinted, hacc⟩ := Prod.mk.inj hstate
  obtain ⟨run, hr', hG⟩ := Machine.exists_guarded_run
    (M := sessionMachine shelfJson headParser fieldsParser) ⟨0, 5, true, rfl⟩ hs
  have hids : s.server.pool.DistinctIds := by
    rw [PoolState.DistinctIds, hacc]
    simp
  obtain ⟨-, hshown⟩ := session_exact hq (by decide +kernel) hr (by decide +kernel)
    (by decide +kernel) (by decide +kernel) hr' hG hids
  obtain ⟨hsent, hreply, hanswered, -⟩ :=
    hshown _ (by rw [hprinted]; exact List.mem_cons_self)
  exact ⟨run, s, hr', hprinted, hsent, hreply, hanswered⟩

end FiberConn
