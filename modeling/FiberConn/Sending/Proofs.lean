import FiberConn.RequestStream.Proofs
import FiberConn.Sending

set_option autoImplicit false

/-! # Proofs about sending

One pass of either `send` loop is a conversation about the rest of `sendBuffer` (`Delivers`), so the
ledger stays balanced. The loops differ in what follows the last byte: the client's returns, the
other one goes on with an empty buffer. -/

namespace FiberConn

variable {L : Llhttp}

theorem honestSends_cons {bytes : Bytes} {result : SendResult} {effs : List Effect}
    (h : HonestSends (.send bytes result :: effs)) :
    result.count ≤ bytes.length ∧ HonestSends effs := List.forall_mem_cons.1 h

/-- A single call that takes nothing. -/
theorem delivers_nothing {buffer : Bytes} {pos : ℕ} (hpos : pos ≤ buffer.length) :
    Delivers buffer pos [(buffer.drop pos, 0)] buffer pos :=
  Delivers.cons (Nat.zero_le _) (Delivers.none hpos)

/-- A call that waits has taken nothing. -/
theorem SendResult.Waits.count_eq {result : SendResult} (h : result.Waits) : result.count = 0 := by
  cases result with
  | sent n =>
      cases n with
      | zero => rfl
      | succ n => exact h.elim
  | fail errno => rfl

/-! ## The two loops -/

/-- A pass is a conversation about the rest of the buffer. -/
theorem Transmitter.Pass.delivers {σ : Type} {T : Transmitter σ} (hT : T.Lawful) {c : σ}
    {sends : List SendResult} {r : σ × List Effect} (h : T.Pass c sends r)
    (hpos : T.sentBytes c ≤ (T.sendBuffer c).length) (hh : HonestSends r.2) :
    Delivers (T.sendBuffer c) (T.sentBytes c) (sendCalls r.2) (T.sendBuffer r.1)
      (T.sentBytes r.1) := by
  induction h with
  | @waits c sends result hresult hwaits =>
      show Delivers _ _ [((T.sendBuffer c).drop (T.sentBytes c), result.count)] _ _
      rw [hwaits.count_eq]
      exact delivers_nothing hpos
  | @fails c sends code =>
      obtain ⟨hbuffer, hsame⟩ := hT.fail c
      rw [hbuffer, hsame]
      exact delivers_nothing hpos
  | @ends c sends n hret hall =>
      obtain ⟨hbuffer, hzero⟩ := hT.finish c
      obtain ⟨hn, -⟩ := honestSends_cons hh
      rw [hbuffer, hzero]
      exact Delivers.empty hn hall (Delivers.none (Nat.zero_le _))
  | @rearms c sends n r hret hall h ih =>
      -- the loop goes on with an empty buffer
      obtain ⟨hbuffer, hzero⟩ := hT.finish c
      obtain ⟨hn, hrest⟩ := honestSends_cons hh
      rw [hbuffer, hzero] at ih
      exact Delivers.empty hn hall (ih (Nat.zero_le _) hrest)
  | @part c sends n r hmore h ih =>
      obtain ⟨hbuffer, hmoved⟩ := hT.advance c (n + 1)
      obtain ⟨hn, hrest⟩ := honestSends_cons hh
      rw [hbuffer, hmoved] at ih
      exact Delivers.cons hn (ih hmore.le hrest)

/-- A call back without error has sent everything. -/
theorem Clientconnection.transmit_completes {c : Clientconnection L} {sends : List SendResult}
    (hcb : CallsBack (c.transmit sends).2 = true) (hok : (c.transmit sends).1.isError = false) :
    (c.transmit sends).1.sendBuffer = [] ∧ (c.transmit sends).1.sentBytes = 0 := by
  obtain ⟨c', hfail⟩ | ⟨-, c', hfinish⟩ := (c.transmit_pass sends).of_callsBack hcb
  · rw [hfail] at hok
    cases hok
  · rw [hfinish]
    exact ⟨rfl, rfl⟩

/-- The state only moves to `API_RECEIVING` once everything is sent. -/
theorem APIconnection.transmit_completes {c : APIconnection L} {sends : List SendResult}
    (hh : HonestSends (c.transmit sends).2) (hc : c.state ≠ .receiving)
    (hr : (c.transmit sends).1.state = .receiving) :
    (c.transmit sends).1.sendBuffer = [] ∧ (c.transmit sends).1.sentBytes = 0 := by
  have hpass := c.transmit_pass sends
  generalize c.transmit sends = r at hh hr hpass
  induction hpass with
  | waits => exact absurd hr hc
  | fails => cases hr
  | ends hret => cases hret
  | rearms hret hall h ih =>
      obtain ⟨-, hrest⟩ := honestSends_cons hh
      exact (h.delivers transmitter_lawful (Nat.zero_le _) hrest).of_nil
  | part hmore h ih => exact ih hc (honestSends_cons hh).2 hr

/-! ## Events -/

/-- The receive loop calls no `send`. -/
theorem Receiver.receive_sendCalls {σ : Type} {R : Receiver σ} (c : σ) (recvs : List RecvResult) :
    sendCalls (R.receive c recvs).effects = [] := by
  induction recvs generalizing c with
  | nil => rfl
  | cons r recvs ih =>
      cases r with
      | data chunk =>
          rw [receive]
          dsimp only
          split
          · rfl
          split
          · rfl
          · exact ih _
      | eof => rfl
      | fail errno => rfl

/-- An event that calls no `send` and leaves buffer and position alone. -/
theorem delivers_of_silent {buffer buffer' : Bytes} {pos pos' : ℕ} {effs : List Effect}
    (hpos : pos ≤ buffer.length) (hcalls : sendCalls effs = [])
    (hsame : (buffer', pos') = (buffer, pos)) :
    Delivers buffer pos (sendCalls effs) buffer' pos' := by
  obtain ⟨rfl, rfl⟩ := Prod.mk.inj hsame
  rw [hcalls]
  exact Delivers.none hpos

namespace Clientconnection

/-- The receive loop does not touch `sendBuffer`. -/
theorem receive_sendBuffer (c : Clientconnection L) (recvs : List RecvResult) :
    ((receiver.receive c recvs).conn.sendBuffer, (receiver.receive c recvs).conn.sentBytes) =
      (c.sendBuffer, c.sentBytes) := by
  have hframe : parsing.Frame fun c : Clientconnection L => (c.sendBuffer, c.sentBytes) :=
    parsing_frame fun _ _ _ _ _ _ => rfl
  exact hframe.receive receiver rfl (fun _ => rfl) (fun _ _ => rfl) (fun _ => rfl) c recvs

theorem handleEvent_delivers {c : Clientconnection L} {ev : EpollEvent} {recvs : List RecvResult}
    {sends : List SendResult} (hpos : c.sentBytes ≤ c.sendBuffer.length)
    (hh : HonestSends (c.handleEvent ev recvs sends).effects) :
    Delivers c.sendBuffer c.sentBytes (sendCalls (c.handleEvent ev recvs sends).effects)
      (c.handleEvent ev recvs sends).conn.sendBuffer
      (c.handleEvent ev recvs sends).conn.sentBytes := by
  unfold handleEvent at hh ⊢
  split
  · exact delivers_of_silent hpos rfl rfl
  next herr =>
  rw [if_neg herr] at hh
  split
  · exact delivers_of_silent hpos (Receiver.receive_sendCalls _ recvs)
      (receive_sendBuffer { c with recvBuffer := .cleared } recvs)
  next hin =>
  rw [if_neg hin] at hh
  split
  · next hout =>
      rw [if_pos hout] at hh
      exact (c.transmit_pass sends).delivers transmitter_lawful hpos hh
  · exact delivers_of_silent hpos rfl rfl

/-- Only the `send` loop calls back without error on an event that is not `EPOLLIN`. -/
theorem handleEvent_completes {c : Clientconnection L} {ev : EpollEvent} {recvs : List RecvResult}
    {sends : List SendResult}
    (hc : (sender L).Completes c ev (c.handleEvent ev recvs sends)) :
    (c.handleEvent ev recvs sends).conn.sendBuffer = [] ∧
      (c.handleEvent ev recvs sends).conn.sentBytes = 0 := by
  obtain ⟨hin, hcb, hok⟩ := hc
  unfold handleEvent at hcb hok ⊢
  split at hcb
  · next herr =>
      rw [if_pos herr] at hok
      exact absurd hok (by simp [fail])
  next herr =>
  rw [if_neg herr, hin, if_neg Bool.false_ne_true] at hok ⊢
  rw [hin, if_neg Bool.false_ne_true] at hcb
  split at hcb
  · next hout =>
      rw [if_pos hout] at hok ⊢
      exact transmit_completes hcb hok
  · exact absurd hcb Bool.false_ne_true

end Clientconnection

namespace APIconnection

/-- The receive loop does not touch `sendBuffer`. -/
theorem receive_sendBuffer (c : APIconnection L) (recvs : List RecvResult) :
    ((receiver.receive c recvs).conn.sendBuffer, (receiver.receive c recvs).conn.sentBytes) =
      (c.sendBuffer, c.sentBytes) := by
  have hframe : parsing.Frame fun c : APIconnection L => (c.sendBuffer, c.sentBytes) :=
    parsing_frame fun _ _ _ _ _ _ => rfl
  exact hframe.receive receiver rfl (fun _ => rfl) (fun _ _ => rfl) (fun _ => rfl) c recvs

theorem handleEvent_delivers {c : APIconnection L} {ev : EpollEvent} {recvs : List RecvResult}
    {sends : List SendResult} (hpos : c.sentBytes ≤ c.sendBuffer.length)
    (hh : HonestSends (c.handleEvent ev recvs sends).effects) :
    Delivers c.sendBuffer c.sentBytes (sendCalls (c.handleEvent ev recvs sends).effects)
      (c.handleEvent ev recvs sends).conn.sendBuffer
      (c.handleEvent ev recvs sends).conn.sentBytes := by
  unfold handleEvent at hh ⊢
  split
  · exact delivers_of_silent hpos rfl rfl
  next herr =>
  rw [if_neg herr] at hh
  cases hstate : c.state with
  | idle => exact delivers_of_silent hpos rfl rfl
  | connecting => exact delivers_of_silent hpos rfl rfl
  | sending =>
      rw [hstate] at hh
      exact (c.transmit_pass sends).delivers transmitter_lawful hpos hh
  | receiving =>
      exact delivers_of_silent hpos (Receiver.receive_sendCalls _ recvs)
        (receive_sendBuffer _ recvs)

theorem handleEvent_completes {c : APIconnection L} {ev : EpollEvent} {recvs : List RecvResult}
    {sends : List SendResult} (hh : HonestSends (c.handleEvent ev recvs sends).effects)
    (hc : (sender L).Completes c ev (c.handleEvent ev recvs sends)) :
    (c.handleEvent ev recvs sends).conn.sendBuffer = [] ∧
      (c.handleEvent ev recvs sends).conn.sentBytes = 0 := by
  obtain ⟨hbefore, hafter⟩ := hc
  unfold handleEvent at hh hafter ⊢
  split at hafter
  · exact absurd hafter (by simp [fail])
  next herr =>
  rw [if_neg herr] at hh ⊢
  cases hstate : c.state with
  | idle => exact absurd hafter (by simp [hstate])
  | connecting => exact absurd hafter (by simp [hstate])
  | sending =>
      rw [hstate] at hh hafter
      exact transmit_completes hh hbefore hafter
  | receiving => exact absurd hstate hbefore

end APIconnection

/-! ## Runs -/

namespace Sender

variable {σ : Type}

/-- What the law needs of a class. -/
structure Sound (S : Sender σ) : Prop where
  fresh : ∀ c, S.Fresh c → S.sendBuffer c = [] ∧ S.sentBytes c = 0
  append : ∀ c bytes, S.sendBuffer (S.append c bytes) = S.sendBuffer c ++ bytes ∧
    S.sentBytes (S.append c bytes) = S.sentBytes c
  call : ∀ c k, S.sendBuffer (S.call c k) = S.sendBuffer c ∧
    S.sentBytes (S.call c k) = S.sentBytes c
  delivers : ∀ c ev recvs sends, S.sentBytes c ≤ (S.sendBuffer c).length →
    HonestSends (S.handleEvent c ev recvs sends).effects →
    Delivers (S.sendBuffer c) (S.sentBytes c) (sendCalls (S.handleEvent c ev recvs sends).effects)
      (S.sendBuffer (S.handleEvent c ev recvs sends).conn)
      (S.sentBytes (S.handleEvent c ev recvs sends).conn)
  completes : ∀ c ev recvs sends, HonestSends (S.handleEvent c ev recvs sends).effects →
    S.Completes c ev (S.handleEvent c ev recvs sends) →
    S.sendBuffer (S.handleEvent c ev recvs sends).conn = [] ∧
      S.sentBytes (S.handleEvent c ev recvs sends).conn = 0

variable {S : Sender σ}

/-- The ledger is balanced. -/
def InBalance (S : Sender σ) (s : SendState σ) : Prop :=
  s.ledger.Balanced (S.sendBuffer s.conn) (S.sentBytes s.conn)

/-- **Step lemma.** Every step keeps the balance. -/
theorem Sound.next_balanced (hS : S.Sound) {s t : SendState σ} {l : SendLabel S.Call}
    (h : S.InBalance s) (ht : S.next s l = some t) : S.InBalance t := by
  cases l with
  | append bytes =>
      obtain rfl := Option.some.inj ht
      obtain ⟨hbuffer, hpos⟩ := hS.append s.conn bytes
      rw [InBalance, hbuffer, hpos]
      exact Ledger.Balanced.append h bytes
  | call k =>
      obtain rfl := Option.some.inj ht
      obtain ⟨hbuffer, hpos⟩ := hS.call s.conn k
      rw [InBalance, hbuffer, hpos]
      exact h
  | event ev recvs sends =>
      obtain ⟨hh, ht⟩ := Option.ite_none_right_eq_some.1 ht
      obtain rfl := Option.some.inj ht
      exact Ledger.Balanced.deliver h (hS.delivers _ ev recvs sends h.pos_le hh)

/-- **Run lemma.** Every reachable state is in balance. -/
theorem Sound.balanced (hS : S.Sound) {s : SendState σ} (h : S.machine.Reachable s) :
    S.InBalance s := by
  refine h.invariant ?_ fun s l t hI ht => hS.next_balanced hI ht
  intro s hs
  obtain ⟨hfresh, hledger⟩ := hs
  obtain ⟨hbuffer, hpos⟩ := hS.fresh _ hfresh
  rw [InBalance, hledger, hbuffer, hpos]
  exact Ledger.Balanced.start

theorem Sound.exact (hS : S.Sound) {s : SendState σ} (h : S.machine.Reachable s) : S.Exact s := by
  have hbal := hS.balanced h
  refine ⟨hbal, hbal.isPrefix, ?_, ?_⟩
  · intro ev recvs sends t ht
    obtain ⟨hh, -⟩ := Option.ite_none_right_eq_some.1 ht
    exact ⟨_, (hS.delivers _ ev recvs sends hbal.pos_le hh).follows⟩
  · intro ev recvs sends t ht hc
    have hbal' := hS.balanced (h.step (l := .event ev recvs sends) ht)
    obtain ⟨hh, ht⟩ := Option.ite_none_right_eq_some.1 ht
    obtain ⟨hbuffer, hpos⟩ := hS.completes _ ev recvs sends hh hc
    obtain rfl := Option.some.inj ht
    refine ⟨?_, hbuffer, hpos⟩
    rw [InBalance, hbuffer] at hbal'
    exact hbal'.settled

end Sender

theorem Clientconnection.sender_sound (L : Llhttp) : (Clientconnection.sender L).Sound where
  fresh := by
    rintro c ⟨fd, id, rfl⟩
    exact ⟨rfl, rfl⟩
  append _ _ := ⟨rfl, rfl⟩
  call _ _ := ⟨rfl, rfl⟩
  delivers _ _ _ _ hpos hh := handleEvent_delivers hpos hh
  completes _ _ _ _ _ hc := handleEvent_completes hc

theorem APIconnection.sender_sound (L : Llhttp) : (APIconnection.sender L).Sound where
  fresh := by
    rintro c ⟨parent, memory, rfl⟩
    exact ⟨rfl, rfl⟩
  append _ _ := ⟨rfl, rfl⟩
  call c k := by
    cases k with
    | connectApi sockfd =>
        show (c.connectApi sockfd).1.sendBuffer = c.sendBuffer ∧
          (c.connectApi sockfd).1.sentBytes = c.sentBytes
        unfold connectApi
        split <;> exact ⟨rfl, rfl⟩
    | sendRequest => exact ⟨rfl, rfl⟩
  delivers _ _ _ _ hpos hh := handleEvent_delivers hpos hh
  completes _ _ _ _ hh hc := handleEvent_completes hh hc

/-- **Byte-exact sending**, for both classes, in every reachable state. -/
theorem sending_exact (L : Llhttp) :
    (∀ s, (Clientconnection.sender L).machine.Reachable s → (Clientconnection.sender L).Exact s) ∧
    (∀ s, (APIconnection.sender L).machine.Reachable s → (APIconnection.sender L).Exact s) :=
  ⟨fun _ h => (Clientconnection.sender_sound L).exact h,
    fun _ h => (APIconnection.sender_sound L).exact h⟩

/-- The buffer grows while it is being sent, and `send` takes one byte less than it is offered. -/
def growingSend (Call : Type) (start : Call) : List (SendLabel Call) :=
  [.append [1, 2, 3], .call start, .event ⟨epollOut, 5⟩ [] [.sent 2, .fail .eagain], .append [4]]

/-- A client connection in the middle of a send and an API connection that has just finished one. -/
theorem sending_exact_growing :
    (∃ s, (Clientconnection.sender headParser).Exact s ∧
      s.ledger = ⟨[1, 2, 3, 4], [1, 2], []⟩ ∧ s.conn.sentBytes = 2) ∧
    ∃ s, (APIconnection.sender headParser).Exact s ∧
      s.ledger = ⟨[1, 2, 3, 4], [1, 2, 3, 4], [1, 2, 3, 4]⟩ ∧ s.conn.state = .receiving := by
  constructor
  · have hinit : (Clientconnection.sender headParser).machine.init ⟨.new 5 "c", .empty⟩ :=
      ⟨⟨5, "c", rfl⟩, rfl⟩
    have hrun : ((Clientconnection.sender headParser).machine.exec ⟨.new 5 "c", .empty⟩
        (growingSend ClientCall .write)).map (fun s => (s.ledger, s.conn.sentBytes)) =
        some (⟨[1, 2, 3, 4], [1, 2], []⟩, 2) := by
      decide +kernel
    obtain ⟨s, hs, hstate⟩ := Option.map_eq_some_iff.1 hrun
    obtain ⟨hledger, hsent⟩ := Prod.mk.inj hstate
    have hreach := (Machine.Reachable.start hinit).exec hs
    exact ⟨s, (sending_exact headParser).1 s hreach, hledger, hsent⟩
  · have hinit : (APIconnection.sender headParser).machine.init ⟨.new "" 5, .empty⟩ :=
      ⟨⟨"", 5, rfl⟩, rfl⟩
    have hrun : ((APIconnection.sender headParser).machine.exec ⟨.new "" 5, .empty⟩
        (growingSend ApiCall .sendRequest ++
          [.event ⟨epollOut, 5⟩ [] [.sent 2, .sent 0]])).map
          (fun s => (s.ledger, s.conn.state)) =
        some (⟨[1, 2, 3, 4], [1, 2, 3, 4], [1, 2, 3, 4]⟩, .receiving) := by
      decide +kernel
    obtain ⟨s, hs, hstate⟩ := Option.map_eq_some_iff.1 hrun
    obtain ⟨hledger, hsent⟩ := Prod.mk.inj hstate
    have hreach := (Machine.Reachable.start hinit).exec hs
    exact ⟨s, (sending_exact headParser).2 s hreach, hledger, hsent⟩

end FiberConn
