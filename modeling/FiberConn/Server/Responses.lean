import FiberConn.Server.Proofs

set_option autoImplicit false

/-! # What the clients of the server receive

A client is answered at most once, and what `send` has taken and what is left of its buffer make up
the response (`Delivering`): the buffer is empty while a `read` or a query is under way, and the
`write` that follows is called back without an error only when everything has been taken. -/

namespace FiberConn

open Machine

/-- The response a history entry records, if it is one to this client. -/
def ServerObs.answerTo (client : ℕ) : ServerObs → Option (HttpRequest × Bytes)
  | .answered client' request body => if client' = client then some (request, body) else none
  | .written _ _ => none

namespace Server

variable {J : Json} {L : Llhttp} {s t : Server J L} {l : ServerLabel}
  {client : ℕ} {c : Clientconnection L}

/-- The responses made for a client, each with the request it is for. -/
def answers (s : Server J L) (client : ℕ) : List (HttpRequest × Bytes) :=
  s.log.filterMap (ServerObs.answerTo client)

/-- Everything the client should receive. -/
def owed (s : Server J L) (client : ℕ) : Bytes :=
  (s.answers client).flatMap fun answer => httpResponse answer.2

/-! ## The bytes -/

structure Delivering (s : Server J L) : Prop where
  balanced : ∀ client c, s.clients client = some c → c.sentBytes ≤ c.sendBuffer.length ∧
    s.sent client ++ c.sendBuffer.drop c.sentBytes = s.owed client
  isPrefix : ∀ client, s.sent client <+: s.owed client
  single : ∀ client, (s.answers client).length ≤ 1
  reading : ∀ client, s.outstanding client = some .read → s.answers client = []
  asking : ∀ q client c, s.Open q → s.clients client = some c → c.connectionId = q.client →
    s.answers client = []
  writing : ∀ client, s.outstanding client = some .write → s.answers client ≠ []
  known : ∀ client, s.pool.accepted ≤ client →
    s.answers client = [] ∧ s.sent client = [] ∧ ∀ e, .written client e ∉ s.log
  finished : ∀ client, .written client false ∈ s.log →
    s.answers client ≠ [] ∧ s.sent client = s.owed client

theorem owed_of_unanswered (hnew : s.answers client = []) : s.owed client = [] := by
  rw [owed, hnew, List.flatMap_nil]

theorem Delivering.sent_of_unanswered (h : s.Delivering) (hnew : s.answers client = []) :
    s.sent client = [] :=
  List.prefix_nil.1 (owed_of_unanswered hnew ▸ h.isPrefix client)

/-- The buffer of a client that has not been answered is empty, or what it holds has been sent. -/
theorem Delivering.unanswered (h : s.Delivering) (hc : s.clients client = some c)
    (hnew : s.answers client = []) : c.sentBytes = c.sendBuffer.length := by
  obtain ⟨hpos, hbalanced⟩ := h.balanced client c hc
  rw [owed_of_unanswered hnew, h.sent_of_unanswered hnew, List.nil_append] at hbalanced
  exact le_antisymm hpos (List.drop_eq_nil_iff.1 hbalanced)

/-- A client has been answered nothing and sent nothing, or answered once. -/
theorem Delivering.once (h : s.Delivering) (client : ℕ) :
    s.answers client = [] ∧ s.sent client = [] ∨ ∃ request body,
      s.answers client = [(request, body)] ∧ s.owed client = httpResponse body ∧
        s.sent client <+: httpResponse body := by
  have hsent := h.isPrefix client
  have hone := h.single client
  rcases hanswers : s.answers client with _ | ⟨⟨request, body⟩, _ | ⟨x, xs⟩⟩
  · exact Or.inl ⟨rfl, h.sent_of_unanswered hanswers⟩
  · have howed : s.owed client = httpResponse body := by
      rw [owed, hanswers]
      exact List.append_nil _
    exact Or.inr ⟨request, body, rfl, howed, howed ▸ hsent⟩
  · rw [hanswers] at hone
    simp at hone

/-- What has been sent to a client when its operation is called back. -/
def Ended (s : Server J L) (client : ℕ) (c : Clientconnection L) : ClientOp → Prop
  | .read => s.answers client = []
  | .write => c.isError = false → s.answers client ≠ [] ∧ s.sent client = s.owed client

/-- The lambda of `write` deletes its client. -/
def Gone (s : Server J L) : Prop :=
  ∀ client e, .written client e ∈ s.log → s.clients client = none

theorem delivering_start : (start : Server J L).Delivering := by
  constructor <;> simp [start, answers]

theorem sent_respond {body : Bytes} {granted : Bool} :
    (s.respond client c body granted).sent = s.sent := by
  unfold respond
  split <;> rfl

section Respond

variable (hr : s.Running client c) (body : Bytes) (granted : Bool)

include hr

theorem clients_respond : (s.respond client c body granted).clients =
    Function.update s.clients client
      (some { c with sendBuffer := c.sendBuffer ++ httpResponse body }) := by
  rw [respond_eq hr]

theorem outstanding_respond : (s.respond client c body granted).outstanding =
    Function.update s.outstanding client (heldIf granted .write) := by
  rw [respond_eq hr]

theorem log_respond : (s.respond client c body granted).log =
    .answered client c.request body :: s.log := by
  rw [respond_eq hr]

theorem open_respond {q : PendingQuery} : (s.respond client c body granted).Open q ↔ s.Open q := by
  rw [respond_eq hr]
  rfl

theorem answers_respond_self :
    (s.respond client c body granted).answers client = (c.request, body) :: s.answers client := by
  rw [answers, log_respond hr, List.filterMap_cons, ServerObs.answerTo, if_pos rfl]
  rfl

theorem answers_respond_of_ne {client' : ℕ} (hne : client' ≠ client) :
    (s.respond client c body granted).answers client' = s.answers client' := by
  rw [answers, log_respond hr, List.filterMap_cons, ServerObs.answerTo, if_neg hne.symm]
  rfl

end Respond

theorem Delivering.respond (h : s.Delivering) (hgone : s.Gone) (ha : s.Accounted)
    (hreg : s.pool.Registered) (hr : s.Running client c) (hnew : s.answers client = [])
    (body : Bytes) (granted : Bool) : (s.respond client c body granted).Delivering := by
  have hself := answers_respond_self hr body granted
  have hother {client' : ℕ} (hne : client' ≠ client) := answers_respond_of_ne hr body granted hne
  have howed : (s.respond client c body granted).owed client = httpResponse body := by
    rw [owed, hself, hnew]
    exact List.append_nil _
  have howed' {client' : ℕ} (hne : client' ≠ client) :
      (s.respond client c body granted).owed client' = s.owed client' := by
    rw [owed, hother hne, owed]
  have hsent := h.sent_of_unanswered hnew
  have hknown := ha.lt_accepted hreg hr.there
  refine ⟨fun client' c' hc' => ?_, fun client' => ?_, fun client' => ?_, fun client' hout => ?_,
    fun q client' c' hq hc' hid => ?_, fun client' hout => ?_, fun client' hle => ?_,
    fun client' hmem => ?_⟩
  · rw [clients_respond hr] at hc'
    rw [sent_respond]
    by_cases he : client' = client
    · rw [he, Function.update_self] at hc'
      obtain rfl := Option.some.inj hc'
      rw [he, howed, hsent, List.nil_append]
      dsimp only
      rw [h.unanswered hr.there hnew, List.drop_left, List.length_append]
      exact ⟨Nat.le_add_right _ _, rfl⟩
    · rw [Function.update_of_ne he] at hc'
      rw [howed' he]
      exact h.balanced client' c' hc'
  · rw [sent_respond]
    by_cases he : client' = client
    · rw [he, hsent]
      exact List.nil_prefix
    · rw [howed' he]
      exact h.isPrefix client'
  · by_cases he : client' = client
    · rw [he, hself, hnew]
      exact le_rfl
    · rw [hother he]
      exact h.single client'
  · rw [outstanding_respond hr] at hout
    by_cases he : client' = client
    · rw [he, Function.update_self] at hout
      cases eq_of_heldIf hout
    · rw [Function.update_of_ne he] at hout
      rw [hother he]
      exact h.reading client' hout
  · rw [open_respond hr] at hq
    rw [clients_respond hr] at hc'
    by_cases he : client' = client
    · rw [he, Function.update_self] at hc'
      obtain rfl := Option.some.inj hc'
      exact absurd hid.symm (hr.noQuery q hq)
    · rw [Function.update_of_ne he] at hc'
      rw [hother he]
      exact h.asking q client' c' hq hc' hid
  · rw [outstanding_respond hr] at hout
    by_cases he : client' = client
    · rw [he, hself]
      exact List.cons_ne_nil _ _
    · rw [Function.update_of_ne he] at hout
      rw [hother he]
      exact h.writing client' hout
  · rw [pool_respond] at hle
    have hne : client' ≠ client := fun he => absurd hle (he ▸ not_le.2 hknown)
    obtain ⟨hnone, hsilent, hlog⟩ := h.known client' hle
    rw [hother hne, sent_respond, log_respond hr]
    exact ⟨hnone, hsilent, fun e hmem => hlog e (by simpa using hmem)⟩
  · rw [log_respond hr] at hmem
    have hold : .written client' false ∈ s.log := by simpa using hmem
    have hne : client' ≠ client := by
      rintro rfl
      cases (hgone client' false hold).symm.trans hr.there
    rw [hother hne, howed' hne, sent_respond]
    exact h.finished client' hold

theorem Gone.respond (h : s.Gone) (hr : s.Running client c) (body : Bytes) (granted : Bool) :
    (s.respond client c body granted).Gone := by
  intro client' e hmem
  rw [log_respond hr] at hmem
  have hgone := h client' e (by simpa using hmem)
  have hne : client' ≠ client := by
    rintro rfl
    cases hgone.symm.trans hr.there
  rw [clients_respond hr, Function.update_of_ne hne]
  exact hgone

/-- A client that is deleted has received what it has received. -/
theorem Delivering.delete (h : s.Delivering) (ha : s.Accounted) (hr : s.Running client c) :
    (s.delete client).Delivering := by
  have heq := delete_eq (ha.live_of hr.there)
  have hclients {client' : ℕ} {c' : Clientconnection L}
      (hc' : (s.delete client).clients client' = some c') : s.clients client' = some c' := by
    rw [heq] at hc'
    dsimp only at hc'
    by_cases he : client' = client
    · rw [he, Function.update_self] at hc'
      cases hc'
    · rwa [Function.update_of_ne he] at hc'
  refine ⟨fun client' c' hc' => ?_, fun client' => ?_, fun client' => ?_, fun client' hout => ?_,
    fun q client' c' hq hc' hid => ?_, fun client' hout => ?_, fun client' hle => ?_,
    fun client' hmem => ?_⟩
  · rw [heq]
    exact h.balanced client' c' (hclients hc')
  · rw [heq]
    exact h.isPrefix client'
  · rw [heq]
    exact h.single client'
  · rw [heq] at hout ⊢
    exact h.reading client' hout
  · have hanswers := h.asking q client' c' (by rwa [heq] at hq) (hclients hc') hid
    rw [heq]
    exact hanswers
  · rw [heq] at hout ⊢
    exact h.writing client' hout
  · rw [heq] at hle ⊢
    exact h.known client' hle
  · rw [heq] at hmem ⊢
    exact h.finished client' hmem

/-- The callback of `write` is called: without an error everything has been taken. -/
theorem Delivering.note (h : s.Delivering) {e : Bool} (hlt : client < s.pool.accepted)
    (hdone : e = false → s.answers client ≠ [] ∧ s.sent client = s.owed client) :
    (s.note (.written client e)).Delivering := by
  refine ⟨h.balanced, h.isPrefix, h.single, h.reading, h.asking, h.writing, fun client' hle => ?_,
    fun client' hmem => ?_⟩
  · obtain ⟨hnone, hsilent, hlog⟩ := h.known client' hle
    refine ⟨hnone, hsilent, fun e' hmem => ?_⟩
    obtain hnew | hold := List.mem_cons.1 hmem
    · obtain ⟨rfl, -⟩ := ServerObs.written.inj hnew
      exact absurd hle (not_le.2 hlt)
    · exact hlog e' hold
  · obtain hnew | hold := List.mem_cons.1 hmem
    · obtain ⟨rfl, rfl⟩ := ServerObs.written.inj hnew
      exact hdone rfl
    · exact h.finished client' hold

theorem Gone.delete (ha : s.Accounted) (hr : s.Running client c)
    (h : ∀ client' e, .written client' e ∈ s.log → client' = client ∨ s.clients client' = none) :
    (s.delete client).Gone := by
  intro client' e hmem
  rw [delete_eq (ha.live_of hr.there)] at hmem ⊢
  by_cases he : client' = client
  · rw [he]
    exact Function.update_self ..
  · exact (Function.update_of_ne he _ _).trans ((h client' e hmem).resolve_left he)

theorem Delivering.sendQuery (h : s.Delivering) (hc : s.pool.Consistent) (hr : s.Running client c)
    (hone : ∀ client' c', s.clients client' = some c' → c'.connectionId = c.connectionId →
      client' = client) (hnew : s.answers client = []) (query : String) (cb : QueryCallback) :
    (s.sendQuery query c.connectionId cb).Delivering := by
  have haccepted : (s.sendQuery query c.connectionId cb).pool.accepted = s.pool.accepted :=
    (hc.outcome (sendQuery_next hr.userCode query c.connectionId cb)).submits.2.2.2.1
  refine ⟨h.balanced, h.isPrefix, h.single, h.reading, fun q client' c' hq hc' hid => ?_,
    h.writing, fun client' hle => h.known client' (haccepted ▸ hle), h.finished⟩
  rcases (open_sendQuery hc hr.userCode).1 hq with hold | rfl
  · exact h.asking q client' c' hold hc' hid
  · rw [← hone client' c' hc' hid] at hnew
    exact hnew

theorem Delivering.fail (h : s.Delivering) (f : Fault) : (s.fail f).Delivering :=
  ⟨h.balanced, h.isPrefix, h.single, h.reading, h.asking, h.writing, h.known, h.finished⟩

section Event

variable {ev : EpollEvent} {recvs : List RecvResult} {sends : List SendResult}

/-- An event takes bytes from the buffer in their order. -/
theorem Delivering.handled (h : s.Delivering) (hgone : s.Gone) (ha : s.Accounted)
    (hreg : s.pool.Registered) (hc : s.clients client = some c)
    (hh : HonestSends (c.handleEvent ev recvs sends).effects) :
    (s.handled client (c.handleEvent ev recvs sends)).Delivering := by
  obtain ⟨hpos, hbalanced⟩ := h.balanced client c hc
  generalize hr : c.handleEvent ev recvs sends = r at hh ⊢
  have hdelivers : Delivers c.sendBuffer c.sentBytes (sendCalls r.effects) r.conn.sendBuffer
      r.conn.sentBytes := hr ▸ Clientconnection.handleEvent_delivers hpos (hr ▸ hh)
  have hname : r.conn.connectionId = c.connectionId := by
    rw [← hr]
    exact Clientconnection.handleEvent_connectionId ..
  have hsplit : (s.handled client r).sent client ++ r.conn.sendBuffer.drop r.conn.sentBytes =
      s.owed client := by
    rw [Server.handled]
    dsimp only
    rw [Function.update_self, List.append_assoc, hdelivers.follows.written_append, hbalanced]
  have hsent {client' : ℕ} (hne : client' ≠ client) :
      (s.handled client r).sent client' = s.sent client' := Function.update_of_ne hne _ _
  have hclients {client' : ℕ} (hne : client' ≠ client) :
      (s.handled client r).clients client' = s.clients client' := Function.update_of_ne hne _ _
  have hself : (s.handled client r).clients client = some r.conn := Function.update_self ..
  refine ⟨fun client' c' hc' => ?_, fun client' => ?_, h.single, h.reading,
    fun q client' c' hq hc' hid => ?_, h.writing, fun client' hle => ?_, fun client' hmem => ?_⟩
  · by_cases he : client' = client
    · rw [he] at hc' ⊢
      obtain rfl := Option.some.inj (hself.symm.trans hc')
      exact ⟨hdelivers.pos_le, hsplit⟩
    · rw [hclients he] at hc'
      rw [hsent he]
      exact h.balanced client' c' hc'
  · by_cases he : client' = client
    · rw [he]
      exact ⟨_, hsplit⟩
    · rw [hsent he]
      exact h.isPrefix client'
  · by_cases he : client' = client
    · rw [he] at hc' ⊢
      obtain rfl := Option.some.inj (hself.symm.trans hc')
      exact h.asking q client c hq hc (hname.symm.trans hid)
    · rw [hclients he] at hc'
      exact h.asking q client' c' hq hc' hid
  · have hne : client' ≠ client := fun he => absurd (ha.lt_accepted hreg hc) (he ▸ not_lt.2 hle)
    rw [hsent hne]
    exact h.known client' hle
  · have hne : client' ≠ client := by
      rintro rfl
      cases (hgone client' false hmem).symm.trans hc
    rw [hsent hne]
    exact h.finished client' hmem

theorem Gone.handled (h : s.Gone) (hc : s.clients client = some c)
    (r : Receipt (Clientconnection L)) : (s.handled client r).Gone := by
  intro client' e hmem
  have hgone := h client' e hmem
  have hne : client' ≠ client := by
    rintro rfl
    cases hgone.symm.trans hc
  exact (Function.update_of_ne hne _ _).trans hgone

/-- A handler that has called back is not registered any more. -/
theorem Delivering.unregister (h : s.Delivering) (client : ℕ) :
    Delivering (J := J) { s with outstanding := Function.update s.outstanding client none } := by
  have hout {client' : ℕ} {op : ClientOp}
      (hop : Function.update s.outstanding client none client' = some op) :
      s.outstanding client' = some op := by
    by_cases he : client' = client
    · rw [he, Function.update_self] at hop
      cases hop
    · rwa [Function.update_of_ne he] at hop
  exact ⟨h.balanced, h.isPrefix, h.single, fun client' hop => h.reading client' (hout hop),
    h.asking, fun client' hop => h.writing client' (hout hop), h.known, h.finished⟩

/-- An operation that ends: a `read` has sent nothing, and a `write` that ends without an error has
    sent everything. -/
theorem Delivering.ended (h : s.Delivering) {op : ClientOp} (hop : s.outstanding client = some op)
    (hr : op.Reports ev)
    (hd : (s.handled client (c.handleEvent ev recvs sends)).Delivering)
    (hcb : CallsBack (c.handleEvent ev recvs sends).effects = true) :
    (s.calledBack client (c.handleEvent ev recvs sends)).Ended client
      (c.handleEvent ev recvs sends).conn op := by
  cases op with
  | read => exact h.reading client hop
  | write =>
      refine fun herr => ⟨h.writing client hop, ?_⟩
      obtain ⟨hempty, -⟩ := Clientconnection.handleEvent_completes ⟨hr, hcb, herr⟩
      obtain ⟨-, hbalanced⟩ := hd.balanced client _ (Function.update_self ..)
      rw [hempty, List.drop_nil, List.append_nil] at hbalanced
      exact hbalanced

end Event

theorem Delivering.pool (h : s.Delivering) {l : PoolLabel} {w : PoolState}
    (hc : s.pool.Consistent) (hp : s.Permits l) (hn : s.pool.next l = some w) :
    Delivering (J := J) { s with pool := w } := by
  obtain ⟨hsub, -, haccepted⟩ := hp.frame (hc.outcome hn)
  exact ⟨h.balanced, h.isPrefix, h.single, h.reading,
    fun q client c hq => h.asking q client c ⟨hsub ▸ hq.1, hq.2⟩, h.writing,
    fun client hle => h.known client (haccepted ▸ hle), h.finished⟩

theorem Delivering.accept (h : s.Delivering) (hgone : s.Gone) {sockfd : ℤ}
    {connectionId : String} {granted : Bool} {w : PoolState}
    (hn : s.pool.next (.accept connectionId) = some w) :
    (s.welcome sockfd connectionId granted w).Delivering ∧
      (s.welcome sockfd connectionId granted w).Gone := by
  obtain rfl := Option.some.inj hn
  obtain ⟨hnone, hsilent, hlog⟩ := h.known s.pool.accepted le_rfl
  have howed : s.owed s.pool.accepted = [] := owed_of_unanswered hnone
  constructor
  · refine ⟨fun client c hc => ?_, h.isPrefix, h.single, fun client hop => ?_,
      fun q client c hq hc hid => ?_, fun client hop => ?_, fun client hle => ?_, h.finished⟩
    · rw [welcome] at hc
      dsimp only at hc
      by_cases he : client = s.pool.accepted
      · rw [he, Function.update_self] at hc
        obtain rfl := Option.some.inj hc
        rw [he]
        refine ⟨le_rfl, ?_⟩
        show s.sent s.pool.accepted ++ [] = s.owed s.pool.accepted
        rw [hsilent, howed]
        rfl
      · rw [Function.update_of_ne he] at hc
        exact h.balanced client c hc
    · rw [welcome] at hop
      dsimp only at hop
      by_cases he : client = s.pool.accepted
      · rw [he]
        exact hnone
      · rw [Function.update_of_ne he] at hop
        exact h.reading client hop
    · rw [welcome] at hc
      dsimp only at hc
      by_cases he : client = s.pool.accepted
      · rw [he]
        exact hnone
      · rw [Function.update_of_ne he] at hc
        exact h.asking q client c hq hc hid
    · rw [welcome] at hop
      dsimp only at hop
      by_cases he : client = s.pool.accepted
      · rw [he, Function.update_self] at hop
        cases eq_of_heldIf hop
      · rw [Function.update_of_ne he] at hop
        exact h.writing client hop
    · exact h.known client (Nat.le_of_succ_le hle)
  · intro client e hmem
    have hne : client ≠ s.pool.accepted := by
      rintro rfl
      exact hlog e hmem
    exact (Function.update_of_ne hne _ _).trans (hgone client e hmem)

theorem Delivering.entered (h : s.Delivering) (q : PendingQuery) : (s.entered q).Delivering := by
  refine ⟨h.balanced, h.isPrefix, h.single, h.reading, fun q' client c hq hc hid => ?_, h.writing,
    h.known, h.finished⟩
  refine h.asking q' client c ⟨hq.1, ?_⟩ hc hid
  have hstored : (Function.update s.callback q.cb none q'.cb).isSome := hq.2
  by_cases he : q'.cb = q.cb
  · rw [he, Function.update_self] at hstored
    cases hstored
  · rwa [Function.update_of_ne he] at hstored

theorem Delivering.run (h : s.Delivering) (hgone : s.Gone) (ha : s.Accounted)
    (hc : s.pool.Consistent) (hreg : s.pool.Registered) (hids : s.pool.DistinctIds)
    (hr : s.Running client c) {op : ClientOp} (hended : s.Ended client c op) (granted : Bool) :
    (s.run client c granted op).Delivering ∧ (s.run client c granted op).Gone := by
  cases op with
  | read =>
      have ho := onRead_outcome s client c granted
      rw [Server.run]
      generalize s.onRead client c granted = t at ho
      cases ho with
      | deletes =>
          exact ⟨h.delete ha hr, .delete ha hr fun client' e hmem => Or.inr (hgone client' e hmem)⟩
      | responds => exact ⟨h.respond hgone ha hreg hr hended _ _, hgone.respond hr _ _⟩
      | asks =>
          exact ⟨h.sendQuery hc hr
            (fun client' c' hc' he => ha.same_client hreg hids hc' hr.there he) hended _ _, hgone⟩
      | throws => exact ⟨h.fail _, hgone⟩
  | write =>
      have hnoted : (s.note (.written client c.isError)).Delivering :=
        h.note (ha.lt_accepted hreg hr.there) hended
      refine ⟨hnoted.delete (ha.note _) (hr.note _),
        .delete (ha.note _) (hr.note _) fun client' e hmem => ?_⟩
      obtain hnew | hold := List.mem_cons.1 hmem
      · exact Or.inl (ServerObs.written.inj hnew).1
      · exact Or.inr (hgone client' e hold)

theorem Delivering.runQuery (h : s.Delivering) (hgone : s.Gone) (ha : s.Accounted)
    (hc : s.pool.Consistent) (hreg : s.pool.Registered) (hids : s.pool.DistinctIds)
    (hr : s.Running client c) {conn : ℕ}
    (hparent : (s.pool.conns conn).getParent s.pool.isAlive = some client)
    (hnew : s.answers client = []) (granted : Bool) (cb : QueryCallback) :
    (s.runQuery conn granted cb).Delivering ∧ (s.runQuery conn granted cb).Gone := by
  have ho := runQuery_outcome hparent hr.there granted cb
  generalize s.runQuery conn granted cb = t at ho
  cases ho with
  | returns => exact ⟨h, hgone⟩
  | asks =>
      exact ⟨h.sendQuery hc hr (fun client' c' hc' he => ha.same_client hreg hids hc' hr.there he)
        hnew _ _, hgone⟩
  | responds => exact ⟨h.respond hgone ha hreg hr hnew _ _, hgone.respond hr _ _⟩
  | fails => exact ⟨h.fail _, hgone⟩

theorem Delivering.next (h : s.Delivering) (hgone : s.Gone) (ha : s.Accounted)
    (hp : poolMachine.Reachable s.pool) (hids : s.pool.DistinctIds) (hn : s.next l = some t) :
    t.Delivering ∧ t.Gone := by
  have hc := PoolState.reachable_consistent hp
  have hreg := PoolState.reachable_registered hp hids
  cases (step_outcome hn).2 with
  | pool hpermits hpool => exact ⟨h.pool hc hpermits hpool, hgone⟩
  | accept hs hpool => exact h.accept hgone hpool
  | waits hs hop hclient hr hh =>
      exact ⟨h.handled hgone ha hreg hclient hh, hgone.handled hclient _⟩
  | @calls client op c ev recvs sends granted hs hop hclient hr hh hcb =>
      have hd := h.handled hgone ha hreg hclient hh
      have hended := h.ended hop hr hd hcb
      obtain ⟨hcalled, hrunning⟩ := ha.calledBack hreg hids hs hop hclient
        (Clientconnection.handleEvent_connectionId c ev recvs sends)
      exact (hd.unregister client).run (hgone.handled hclient _) hcalled hc hreg hids hrunning
        hended granted
  | stale => exact ⟨h.fail _, hgone⟩
  | @body conn q cb rest granted hs hcb =>
      obtain ⟨hentered, client, c, hid, hparent, hrunning⟩ := ha.entered hp hids hs hcb
      have hnew : s.answers client = [] :=
        h.asking q client c (open_of_top hc hs hcb) hrunning.there hid
      exact (h.entered q).runQuery hgone hentered hc hreg hids hrunning hparent hnew granted cb

theorem reachable_delivering (h : (serverMachine J L).Reachable s) (hids : s.pool.DistinctIds) :
    s.Delivering ∧ s.Gone := by
  obtain ⟨tr, hr⟩ := h
  refine hr.invariant_under (D := fun s => s.pool.DistinctIds)
    (I := fun s => s.Delivering ∧ s.Gone) (G := fun _ _ => True) hids
    (fun s l t hs hn hids => distinctIds_back hs hn hids) ?_ ?_ fun _ _ => trivial
  · rintro s rfl
    exact ⟨delivering_start, by simp [Gone, start]⟩
  · rintro s l t hs hids ⟨hd, hgone⟩ _ hn
    have hids' := distinctIds_back hs hn hids
    exact hd.next hgone (reachable_accounted hs hids') (reachable_pool hs) hids' hn

end Server

end FiberConn
