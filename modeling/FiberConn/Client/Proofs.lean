import FiberConn.Client
import FiberConn.Sending.Proofs

set_option autoImplicit false

/-! # The client, step by step

`Phase` is where the client is: its connection connects, sends the request, receives the response,
is gone, or is left without a handler because `epoll_ctl` has refused it. What it has sent is in
every phase a prefix of the request. -/

namespace FiberConn

open Machine

variable {L : Llhttp}

/-! ## Events of the connection -/

namespace APIconnection

variable {c : APIconnection L} (ev : EpollEvent) (recvs : List RecvResult)
  (sends : List SendResult)

/-- Any event ends a connect. -/
theorem handleEvent_connects (hc : c.state = .connecting) :
    CallsBack (c.handleEvent ev recvs sends).effects = true ∧
      sendCalls (c.handleEvent ev recvs sends).effects = [] ∧
      bytesRead (c.handleEvent ev recvs sends).effects = [] ∧
      (c.handleEvent ev recvs sends).conn.sendBuffer = c.sendBuffer ∧
      (c.handleEvent ev recvs sends).conn.sentBytes = c.sentBytes ∧
      ((c.handleEvent ev recvs sends).conn.isError = false →
        (reader L).progress (c.handleEvent ev recvs sends).conn = (reader L).progress c) := by
  unfold handleEvent
  split
  · exact ⟨rfl, rfl, rfl, rfl, rfl, fun h => by cases h⟩
  · rw [hc]
    exact ⟨rfl, rfl, rfl, rfl, rfl, fun _ => rfl⟩

theorem handleEvent_sends (hc : c.state = .sending) :
    c.TransmitOutcome
        ((c.handleEvent ev recvs sends).conn, (c.handleEvent ev recvs sends).effects) ∧
      bytesRead (c.handleEvent ev recvs sends).effects = [] := by
  unfold handleEvent
  split
  · exact ⟨.fails rfl rfl, rfl⟩
  · rw [hc]
    exact ⟨c.transmit_outcome sends, c.bytesRead_transmit sends⟩

theorem handleEvent_receives (hc : c.state = .receiving) :
    sendCalls (c.handleEvent ev recvs sends).effects = [] ∧
      (CallsBack (c.handleEvent ev recvs sends).effects = false →
        (c.handleEvent ev recvs sends).conn.state = .receiving) := by
  unfold handleEvent
  split
  · exact ⟨rfl, fun h => by cases h⟩
  · rw [hc]
    exact ⟨Receiver.receive_sendCalls _ recvs, fun hcb =>
      (Receiver.receive_silent (R := receiver) execute_state (fun _ => rfl) hcb :)⟩

end APIconnection

namespace Client

variable {s t : Client L} {l : ClientLabel}

/-! ## Phases -/

/-- Where the client is. -/
inductive Phase (s : Client L) : Prop
  | connects {c : APIconnection L} (hconn : s.conn = some c)
      (hop : s.outstanding = some .connectApi) (hheld : s.refused = false)
      (hstate : c.state = .connecting) (hbuffer : c.sendBuffer = []) (hpos : c.sentBytes = 0)
      (hsent : s.sent = []) (hprinted : s.printed = [])
  | sends {c : APIconnection L} (hconn : s.conn = some c) (hop : s.outstanding = some .sendRequest)
      (hheld : s.refused = false) (hstate : c.state = .sending)
      (hpos : c.sentBytes ≤ c.sendBuffer.length)
      (hsent : s.sent ++ c.sendBuffer.drop c.sentBytes = clientRequest) (hprinted : s.printed = [])
  | receives {c : APIconnection L} (hconn : s.conn = some c)
      (hop : s.outstanding = some .sendRequest) (hheld : s.refused = false)
      (hstate : c.state = .receiving) (hsent : s.sent = clientRequest) (hprinted : s.printed = [])
  | gone (hconn : s.conn = none) (hop : s.outstanding = none) (hheld : s.refused = false)
      (hsent : s.sent <+: clientRequest) (hprinted : s.printed.length ≤ 1)
      (hok : ∀ response, (false, response) ∈ s.printed → s.sent = clientRequest)
  | left {c : APIconnection L} (hconn : s.conn = some c) (hop : s.outstanding = none)
      (hrefused : s.refused = true) (hsent : s.sent = []) (hprinted : s.printed = [])

/-- The response is printed when the connection is deleted. -/
theorem Phase.unprinted (h : s.Phase) {c : APIconnection L} (hconn : s.conn = some c) :
    s.printed = [] := by
  cases h with
  | connects _ _ _ _ _ _ _ hprinted => exact hprinted
  | sends _ _ _ _ _ _ hprinted => exact hprinted
  | receives _ _ _ _ _ hprinted => exact hprinted
  | gone hnone => cases hnone.symm.trans hconn
  | left _ _ _ _ hprinted => exact hprinted

theorem Phase.sent_prefix (h : s.Phase) : s.sent <+: clientRequest := by
  cases h with
  | connects _ _ _ _ _ _ hsent => exact hsent ▸ List.nil_prefix
  | sends _ _ _ _ _ hsent => exact ⟨_, hsent⟩
  | receives _ _ _ _ hsent => exact hsent ▸ List.prefix_rfl
  | gone _ _ _ hsent => exact hsent
  | left _ _ _ hsent => exact hsent ▸ List.nil_prefix

theorem Phase.sent_of_printed (h : s.Phase) {response : HttpResponse}
    (hmem : (false, response) ∈ s.printed) : s.sent = clientRequest := by
  cases hconn : s.conn with
  | some c =>
      rw [h.unprinted hconn] at hmem
      cases hmem
  | none =>
      cases h with
      | connects hc => cases hconn.symm.trans hc
      | sends hc => cases hconn.symm.trans hc
      | receives hc => cases hconn.symm.trans hc
      | gone _ _ _ _ _ hok => exact hok response hmem
      | left hc => cases hconn.symm.trans hc

/-- The connection is deleted and the callback prints, or reports that the connect has failed. -/
theorem phase_delete {c : APIconnection L} (hconn : s.conn = some c) (hop : s.outstanding = none)
    (hheld : s.refused = false) (hsent : s.sent <+: clientRequest) (hprinted : s.printed.length ≤ 1)
    (hok : ∀ response, (false, response) ∈ s.printed → s.sent = clientRequest) :
    s.delete.Phase := by
  unfold delete
  rw [hconn]
  exact .gone rfl hop hheld hsent hprinted hok

theorem delete_dangling {c : APIconnection L} (hconn : s.conn = some c) :
    s.delete.dangling = s.dangling := by
  unfold delete
  rw [hconn]

theorem phase_onConnected {c : APIconnection L} (hconn : s.conn = some c)
    (hop : s.outstanding = none) (hheld : s.refused = false) (hbuffer : c.sendBuffer = [])
    (hpos : c.sentBytes = 0) (hsent : s.sent = []) (hprinted : s.printed = []) (granted : Bool) :
    (s.onConnected c granted).Phase ∧ (s.onConnected c granted).dangling = s.dangling := by
  unfold onConnected
  split
  · refine ⟨?_, rfl⟩
    cases granted with
    | false => exact .left rfl rfl (Bool.or_true _) hsent hprinted
    | true =>
        refine .sends rfl rfl ((Bool.or_false _).trans hheld) rfl ?_ ?_ hprinted
        · show c.sentBytes ≤ _
          rw [hpos]
          exact Nat.zero_le _
        · show s.sent ++ (c.sendBuffer ++ clientRequest).drop c.sentBytes = clientRequest
          rw [hsent, hbuffer, hpos]
          rfl
  · exact ⟨phase_delete hconn hop hheld (hsent ▸ List.nil_prefix) (by simp [hprinted])
      (by simp [hprinted]), delete_dangling hconn⟩

theorem phase_onResponse {c : APIconnection L} (hconn : s.conn = some c)
    (hop : s.outstanding = none) (hheld : s.refused = false) (hsent : s.sent <+: clientRequest)
    (hprinted : s.printed = []) (hok : c.isError = false → s.sent = clientRequest) :
    (s.onResponse c).Phase ∧ (s.onResponse c).dangling = s.dangling := by
  unfold onResponse
  refine ⟨phase_delete hconn hop hheld hsent (by simp [hprinted]) fun response hmem => hok ?_,
    delete_dangling hconn⟩
  rw [hprinted] at hmem
  exact (Prod.mk.inj (List.mem_singleton.1 hmem)).1.symm

theorem phase_start (memory sockfd : ℤ) (granted : Bool) :
    (start memory sockfd granted : Client L).Phase ∧
      (start memory sockfd granted : Client L).dangling = false := by
  unfold start APIconnection.connectApi
  split
  · dsimp only
    rw [if_pos (by rfl)]
    exact phase_onConnected rfl rfl rfl rfl rfl rfl rfl granted
  · dsimp only
    rw [if_neg (by rintro ⟨⟩)]
    refine ⟨?_, rfl⟩
    cases granted with
    | false => exact .left rfl rfl rfl rfl rfl
    | true => exact .connects rfl rfl rfl rfl rfl rfl rfl rfl

/-- What an event can do. -/
inductive Outcome (s : Client L) (l : ClientLabel) : Client L → Prop
  | waits {op : ApiOp} {c : APIconnection L} (hop : s.outstanding = some op) (hc : s.conn = some c)
      (hh : HonestSends (c.handleEvent l.ev l.recvs l.sends).effects)
      (hcb : CallsBack (c.handleEvent l.ev l.recvs l.sends).effects = false) :
      Outcome s l (s.handled (c.handleEvent l.ev l.recvs l.sends))
  | calls {op : ApiOp} {c : APIconnection L} (hop : s.outstanding = some op) (hc : s.conn = some c)
      (hh : HonestSends (c.handleEvent l.ev l.recvs l.sends).effects)
      (hcb : CallsBack (c.handleEvent l.ev l.recvs l.sends).effects = true) :
      Outcome s l ({ s.handled (c.handleEvent l.ev l.recvs l.sends) with outstanding := none }.run
        (c.handleEvent l.ev l.recvs l.sends).conn l.granted op)
  | stale (hop : s.outstanding.isSome) (hc : s.conn = none) :
      Outcome s l { s with dangling := true }

theorem next_outcome (hn : s.next l = some t) : Outcome s l t := by
  unfold Client.next at hn
  split at hn
  · cases hn
  next op hop =>
  split at hn
  · next hc =>
      obtain rfl := Option.some.inj hn
      exact .stale (by rw [hop]; rfl) hc
  next c hc =>
  obtain ⟨hh, hn⟩ := Option.ite_none_right_eq_some.1 hn
  split at hn
  · next hcb =>
      obtain rfl := Option.some.inj hn
      exact .calls hop hc hh hcb
  · next hcb =>
      obtain rfl := Option.some.inj hn
      exact .waits hop hc hh (by simpa using hcb)

section Handled

variable {c : APIconnection L} {r : Receipt (APIconnection L)}

/-- What has been sent and what is left stay the request. -/
theorem sent_handled (hd : Delivers c.sendBuffer c.sentBytes (sendCalls r.effects)
    r.conn.sendBuffer r.conn.sentBytes)
    (hsent : s.sent ++ c.sendBuffer.drop c.sentBytes = clientRequest) :
    (s.handled r).sent ++ r.conn.sendBuffer.drop r.conn.sentBytes = clientRequest := by
  rw [handled]
  dsimp only
  rw [List.append_assoc, hd.follows.written_append, hsent]

theorem sent_handled_of_nil (hcalls : sendCalls r.effects = []) : (s.handled r).sent = s.sent := by
  rw [handled, hcalls]
  exact List.append_nil _

theorem received_handled_of_nil (hread : bytesRead r.effects = []) :
    (s.handled r).received = s.received := by
  rw [handled, hread]
  exact List.append_nil _

end Handled

theorem Phase.waits (h : s.Phase) {c : APIconnection L} {op : ApiOp} (hconn : s.conn = some c)
    (hop : s.outstanding = some op)
    (hh : HonestSends (c.handleEvent l.ev l.recvs l.sends).effects)
    (hcb : CallsBack (c.handleEvent l.ev l.recvs l.sends).effects = false) :
    (s.handled (c.handleEvent l.ev l.recvs l.sends)).Phase := by
  cases h with
  | gone hnone => cases hnone.symm.trans hconn
  | left _ hnone => cases hnone.symm.trans hop
  | connects hc _ _ hstate =>
      obtain rfl := Option.some.inj (hconn.symm.trans hc)
      cases (APIconnection.handleEvent_connects _ _ _ hstate).1.symm.trans hcb
  | sends hc hop hheld hstate hpos hsent hprinted =>
      obtain rfl := Option.some.inj (hconn.symm.trans hc)
      have hdelivers := APIconnection.handleEvent_delivers hpos hh
      have hsent' := sent_handled hdelivers hsent
      cases (APIconnection.handleEvent_sends l.ev l.recvs l.sends hstate).1 with
      | fails hcalls => cases hcalls.symm.trans hcb
      | waits _ _ hstate' =>
          obtain hsame | hreceiving := hstate'
          · exact .sends rfl hop hheld (hsame.trans hstate) hdelivers.pos_le hsent' hprinted
          · obtain ⟨hempty, -⟩ := APIconnection.handleEvent_completes hh
              ⟨by rw [hstate]; decide, hreceiving⟩
            rw [hempty, List.drop_nil, List.append_nil] at hsent'
            exact .receives rfl hop hheld hreceiving hsent' hprinted
  | receives hc hop hheld hstate hsent hprinted =>
      obtain rfl := Option.some.inj (hconn.symm.trans hc)
      obtain ⟨hcalls, hkept⟩ := APIconnection.handleEvent_receives l.ev l.recvs l.sends hstate
      exact .receives rfl hop hheld (hkept hcb) ((sent_handled_of_nil hcalls).trans hsent) hprinted

theorem Phase.calls (h : s.Phase) {c : APIconnection L} {op : ApiOp} (hconn : s.conn = some c)
    (hop : s.outstanding = some op)
    (hh : HonestSends (c.handleEvent l.ev l.recvs l.sends).effects)
    (hcb : CallsBack (c.handleEvent l.ev l.recvs l.sends).effects = true) :
    ({ s.handled (c.handleEvent l.ev l.recvs l.sends) with outstanding := none }.run
      (c.handleEvent l.ev l.recvs l.sends).conn l.granted op).Phase ∧
    ({ s.handled (c.handleEvent l.ev l.recvs l.sends) with outstanding := none }.run
      (c.handleEvent l.ev l.recvs l.sends).conn l.granted op).dangling = s.dangling := by
  cases h with
  | gone hnone => cases hnone.symm.trans hconn
  | left _ hnone => cases hnone.symm.trans hop
  | connects hc hop' hheld hstate hbuffer hpos hsent hprinted =>
      obtain rfl := Option.some.inj (hconn.symm.trans hc)
      obtain rfl := Option.some.inj (hop.symm.trans hop')
      obtain ⟨-, hcalls, -, hbuffer', hpos', -⟩ :=
        APIconnection.handleEvent_connects l.ev l.recvs l.sends hstate
      exact phase_onConnected (s := { s.handled _ with outstanding := none }) rfl rfl hheld
        (hbuffer'.trans hbuffer) (hpos'.trans hpos) ((sent_handled_of_nil hcalls).trans hsent)
        hprinted l.granted
  | sends hc hop' hheld hstate hpos hsent hprinted =>
      obtain rfl := Option.some.inj (hconn.symm.trans hc)
      obtain rfl := Option.some.inj (hop.symm.trans hop')
      have hdelivers := APIconnection.handleEvent_delivers hpos hh
      cases (APIconnection.handleEvent_sends l.ev l.recvs l.sends hstate).1 with
      | waits hcalls => cases hcalls.symm.trans hcb
      | fails _ herr =>
          exact phase_onResponse rfl rfl hheld ⟨_, sent_handled hdelivers hsent⟩ hprinted
            fun hok => by cases herr.symm.trans hok
  | receives hc hop' hheld hstate hsent hprinted =>
      obtain rfl := Option.some.inj (hconn.symm.trans hc)
      obtain rfl := Option.some.inj (hop.symm.trans hop')
      obtain ⟨hcalls, -⟩ := APIconnection.handleEvent_receives l.ev l.recvs l.sends hstate
      have hsent' : (s.handled (c.handleEvent l.ev l.recvs l.sends)).sent = clientRequest :=
        (sent_handled_of_nil hcalls).trans hsent
      exact phase_onResponse rfl rfl hheld (hsent' ▸ List.prefix_rfl) hprinted fun _ => hsent'

theorem Phase.next (h : s.Phase) (hn : s.next l = some t) :
    t.Phase ∧ t.dangling = s.dangling := by
  cases next_outcome hn with
  | waits hop hc hh hcb => exact ⟨h.waits hc hop hh hcb, rfl⟩
  | calls hop hc hh hcb => exact h.calls hc hop hh hcb
  | stale hop hc =>
      cases h with
      | connects hconn => cases hc.symm.trans hconn
      | sends hconn => cases hc.symm.trans hconn
      | receives hconn => cases hc.symm.trans hconn
      | gone _ hnone => rw [hnone] at hop; cases hop
      | left hconn => cases hc.symm.trans hconn

theorem reachable_phase (h : (clientMachine L).Reachable s) : s.Phase ∧ s.dangling = false := by
  refine h.invariant (I := fun s => s.Phase ∧ s.dangling = false) ?_ ?_
  · rintro s ⟨memory, sockfd, granted, rfl⟩
    exact phase_start memory sockfd granted
  · rintro s l t ⟨hphase, hdangling⟩ hn
    obtain ⟨hphase, hsame⟩ := hphase.next hn
    exact ⟨hphase, hsame.trans hdangling⟩

/-! ## What the client reads -/

/-- What has been read belongs to the message `msg`, which says `ts`, and what has been printed
    without an error is what the whole of it says. -/
structure Listening (s : Client L) (msg : Bytes) (ts : List Token) (u : L.State) : Prop where
  midway : ∀ c, s.conn = some c →
    (APIconnection.reader L).Midway .empty msg ts u s.received c
  heard : ∀ response, (false, response) ∈ s.printed →
    s.received = msg ∧ response = ts.foldl HttpResponse.feed .empty

variable {msg : Bytes} {ts : List Token} {u : L.State}

theorem received_delete (s : Client L) : s.delete.received = s.received := by
  unfold delete
  split <;> rfl

theorem received_onResponse (s : Client L) (c : APIconnection L) :
    (s.onResponse c).received = s.received := received_delete _

theorem listening_delete (hheard : ∀ response, (false, response) ∈ s.printed →
    s.received = msg ∧ response = ts.foldl HttpResponse.feed .empty) :
    s.delete.Listening msg ts u := by
  unfold delete
  split
  · exact ⟨fun c hc => (Option.some_ne_none c hc.symm).elim, hheard⟩
  · next hnone => exact ⟨fun c hc => (Option.some_ne_none c (hc.symm.trans hnone)).elim, hheard⟩

theorem listening_onConnected {c : APIconnection L} (hprinted : s.printed = [])
    (hmid : c.isError = false → (APIconnection.reader L).Midway .empty msg ts u s.received c)
    (granted : Bool) : (s.onConnected c granted).Listening msg ts u := by
  unfold onConnected
  split
  · next hok =>
      refine ⟨fun c' hc' => ?_, by simp [hprinted]⟩
      obtain rfl := Option.some.inj hc'
      exact (hmid hok).congr rfl
  · exact listening_delete (by simp [hprinted])

theorem listening_onResponse {c : APIconnection L} (hprinted : s.printed = [])
    (hall : c.isError = false →
      s.received = msg ∧ c.response = ts.foldl HttpResponse.feed .empty) :
    (s.onResponse c).Listening msg ts u := by
  refine listening_delete fun response hmem => ?_
  rw [hprinted] at hmem
  obtain ⟨hok, rfl⟩ := Prod.mk.inj (List.mem_singleton.1 hmem)
  exact hall hok.symm

theorem received_start (memory sockfd : ℤ) (granted : Bool) :
    (start memory sockfd granted : Client L).received = [] := by
  unfold start
  dsimp only
  split
  · rw [run, onConnected]
    split
    · rfl
    · exact received_delete _
  · rfl

theorem listening_start (hm : L.message L.init msg = some (ts, u)) (memory sockfd : ℤ)
    (granted : Bool) : (start memory sockfd granted : Client L).Listening msg ts u := by
  have hmid {c : APIconnection L} (hc : c.Pristine) :
      (APIconnection.reader L).Midway .empty msg ts u [] c := by
    have hawaits := (hc.awaits hm).midway
    rwa [show ((APIconnection.reader L).progress c).message = .empty from hc.response] at hawaits
  unfold start APIconnection.connectApi
  split
  · dsimp only
    rw [if_pos (by rfl)]
    exact listening_onConnected rfl (fun hok => by cases hok) granted
  · dsimp only
    rw [if_neg (by rintro ⟨⟩)]
    refine ⟨fun c hc => ?_, by simp⟩
    obtain rfl := Option.some.inj hc
    exact hmid ⟨rfl, rfl, rfl, rfl⟩

/-- **A client that reads nothing else prints nothing else.** -/
theorem Listening.next (h : s.Listening msg ts u) (hphase : s.Phase) (hn : s.next l = some t)
    (hread : t.received <+: msg) : t.Listening msg ts u := by
  cases next_outcome hn with
  | stale hop hc =>
      exact ⟨fun c hc' => (Option.some_ne_none c (hc'.symm.trans hc)).elim, h.heard⟩
  | @waits op c hop hconn hh hcb =>
      have hprinted : s.printed = [] := hphase.unprinted hconn
      refine ⟨fun c' hc' => ?_, by simp [handled, hprinted]⟩
      obtain rfl := Option.some.inj hc'
      have hmid := h.midway c hconn
      cases hphase with
      | gone hnone => cases hnone.symm.trans hconn
      | left _ hnone => cases hnone.symm.trans hop
      | connects hc _ _ hstate =>
          obtain rfl := Option.some.inj (hconn.symm.trans hc)
          cases (APIconnection.handleEvent_connects _ _ _ hstate).1.symm.trans hcb
      | sends hc _ _ hstate =>
          obtain rfl := Option.some.inj (hconn.symm.trans hc)
          obtain ⟨ho, hnothing⟩ := APIconnection.handleEvent_sends l.ev l.recvs l.sends hstate
          cases ho with
          | fails hcalls => cases hcalls.symm.trans hcb
          | waits _ hp =>
              rw [received_handled_of_nil hnothing]
              exact hmid.congr hp
      | receives hc _ _ hstate =>
          obtain rfl := Option.some.inj (hconn.symm.trans hc)
          cases APIconnection.handleEvent_reads hmid hstate hread with
          | waits _ hmid' => exact hmid'
          | completes hcalls => cases hcalls.symm.trans hcb
          | fails hcalls => cases hcalls.symm.trans hcb
  | @calls op c hop hconn hh hcb =>
      have hmid := h.midway c hconn
      cases hphase with
      | gone hnone => cases hnone.symm.trans hconn
      | left _ hnone => cases hnone.symm.trans hop
      | connects hc hop' _ hstate _ _ _ hprinted =>
          obtain rfl := Option.some.inj (hconn.symm.trans hc)
          obtain rfl := Option.some.inj (hop.symm.trans hop')
          obtain ⟨-, -, hnothing, -, -, hp⟩ :=
            APIconnection.handleEvent_connects l.ev l.recvs l.sends hstate
          refine listening_onConnected (s := { s.handled _ with outstanding := none }) hprinted
            (fun hok => ?_) l.granted
          show MessageReader.Midway _ _ _ _ _ (s.handled _).received _
          rw [received_handled_of_nil hnothing]
          exact hmid.congr (hp hok)
      | sends hc hop' _ hstate _ _ hprinted =>
          obtain rfl := Option.some.inj (hconn.symm.trans hc)
          obtain rfl := Option.some.inj (hop.symm.trans hop')
          cases (APIconnection.handleEvent_sends l.ev l.recvs l.sends hstate).1 with
          | waits hcalls => cases hcalls.symm.trans hcb
          | fails _ herr =>
              exact listening_onResponse hprinted fun hok => by cases herr.symm.trans hok
      | receives hc hop' _ hstate _ hprinted =>
          obtain rfl := Option.some.inj (hconn.symm.trans hc)
          obtain rfl := Option.some.inj (hop.symm.trans hop')
          refine listening_onResponse hprinted fun hok => ?_
          have hread : s.received ++
              bytesRead (c.handleEvent l.ev l.recvs l.sends).effects <+: msg := by
            rwa [run, received_onResponse] at hread
          cases APIconnection.handleEvent_reads hmid hstate hread with
          | waits hcalls => cases hcalls.symm.trans hcb
          | completes _ _ hmessage hall => exact ⟨hall, hmessage⟩
          | fails _ herr => cases herr.symm.trans hok

end Client

open Client

/-- **The client uses its connection once.** In every reachable state no deleted connection has been
    used, and there is one exactly while the reactor holds its handler or once `epoll_ctl` has
    refused to, never both. What has been sent is a prefix of the request. At most one response has
    been printed, and the connection is gone then; if it was printed without an error, the whole
    request has been sent. -/
theorem client_exact {s : Client L} (h : (clientMachine L).Reachable s) :
    s.dangling = false ∧ s.conn.isSome = (s.outstanding.isSome || s.refused) ∧
      (s.refused = true → s.outstanding = none) ∧ s.sent <+: clientRequest ∧
      s.printed.length ≤ 1 ∧ (s.printed ≠ [] → s.conn = none) ∧
      ∀ response, (false, response) ∈ s.printed → s.sent = clientRequest := by
  obtain ⟨hphase, hdangling⟩ := reachable_phase h
  refine ⟨hdangling, ?_⟩
  cases hphase with
  | connects hconn hop hheld _ _ _ hsent hprinted =>
      rw [hconn, hop, hheld, hsent, hprinted]
      exact ⟨rfl, nofun, List.nil_prefix, by simp⟩
  | sends hconn hop hheld _ _ hsent hprinted =>
      rw [hconn, hop, hheld, hprinted]
      exact ⟨rfl, nofun, ⟨_, hsent⟩, by simp⟩
  | receives hconn hop hheld _ hsent hprinted =>
      rw [hconn, hop, hheld, hsent, hprinted]
      exact ⟨rfl, nofun, List.prefix_rfl, by simp⟩
  | gone hconn hop hheld hsent hprinted hok =>
      rw [hconn, hop, hheld]
      exact ⟨rfl, nofun, hsent, hprinted, fun _ => rfl, hok⟩
  | left hconn hop hrefused hsent hprinted =>
      rw [hconn, hop, hrefused, hsent, hprinted]
      exact ⟨rfl, fun _ => rfl, List.nil_prefix, by simp⟩

/-- The request leaves in two pieces, and the response comes in three. -/
def getReply : List ClientLabel :=
  [⟨⟨epollOut, 5⟩, [], [], true⟩, ⟨⟨epollOut, 5⟩, [], [.sent 20], true⟩,
    ⟨⟨epollOut, 5⟩, [], [.sent 30], true⟩] ++
    replyArrivals.map fun a => ⟨a.1, a.2, [], true⟩

theorem client_exact_reply : ∃ s : Client replyParser, (clientMachine replyParser).Reachable s ∧
    s.received = okReply ∧ s.printed = [(false, responseOf okTokens)] ∧ s.conn = none ∧
      s.sent = clientRequest := by
  have hrun : ((clientMachine replyParser).exec (.start 0 5 true) getReply).map
      (fun s => (s.received, s.printed)) = some (okReply, [(false, responseOf okTokens)]) := by
    decide +kernel
  obtain ⟨s, hs, hstate⟩ := Option.map_eq_some_iff.1 hrun
  obtain ⟨hreceived, hprinted⟩ := Prod.mk.inj hstate
  have hinit : (clientMachine replyParser).init (.start 0 5 true) := ⟨0, 5, true, rfl⟩
  have hreach := (Reachable.start hinit).exec hs
  obtain ⟨-, -, -, -, -, hgone, hsent⟩ := client_exact hreach
  exact ⟨s, hreach, hreceived, hprinted, hgone (by simp [hprinted]),
    hsent _ (by rw [hprinted]; exact List.mem_cons_self)⟩

end FiberConn
