import FiberConn.HttpServerType
import FiberConn.RequestConnectionType
import FiberConn.RequestStream.Proofs

set_option autoImplicit false

/-! # Readiness

With `EPOLLET` a socket is reported once for each change, so a handler that returns without calling
back has to have used the report up: the last call in the direction it waits for would block, or the
socket has just been rearmed. Otherwise it waits for an edge that need not come. The two `recv`
loops and the two `send` loops keep to this except where `Waiter.Starves` says. -/

namespace FiberConn

variable {Lq Lr : Llhttp} {σ : Type}

def Errno.WouldBlock : Errno → Bool
  | .eagain => true
  | .ewouldblock => true
  | .other _ => false

namespace Effect

/-- `recv` has nothing to deliver. -/
def RecvBlocked : Effect → Bool
  | .recv (.fail errno) => errno.WouldBlock
  | _ => false

/-- `send` has no room. -/
def SendBlocked : Effect → Bool
  | .send _ (.fail errno) => errno.WouldBlock
  | _ => false

def Rearms : Effect → Bool
  | .modifyTrack _ _ _ => true
  | _ => false

end Effect

/-- The trace of a handler calls back, or ends in a call that would block, or rearms the socket. -/
def Exhausts (blocked : Effect → Bool) (effs : List Effect) : Prop :=
  CallsBack effs = true ∨ effs.getLast?.any blocked = true ∨ effs.any Effect.Rearms = true

instance (blocked : Effect → Bool) (effs : List Effect) : Decidable (Exhausts blocked effs) :=
  inferInstanceAs (Decidable (_ ∨ _ ∨ _))

/-- The loop gets to a `recv` that fails with something else than `EAGAIN` or `EWOULDBLOCK`: what
    arrives before neither completes a message nor breaks off in a parse error. -/
def Receiver.ReadFails (R : Receiver σ) (c : σ) : List RecvResult → Prop
  | [] => False
  | .data chunk :: rest =>
      R.parseFailed (R.execute c chunk) = false ∧ R.complete (R.execute c chunk) = false ∧
        R.ReadFails (R.clear (R.execute c chunk)) rest
  | .eof :: _ => False
  | .fail errno :: _ => errno.WouldBlock = false

/-- With `left` bytes to send, a `send` returns 0 before they are sent. With none it does at once.
    -/
def SendStalls (left : ℕ) : List SendResult → Prop
  | .sent 0 :: _ => True
  | .sent (n + 1) :: rest => n + 1 < left ∧ SendStalls (left - (n + 1)) rest
  | _ => False

/-! ## The waiting operations -/

/-- An object whose handler waits for its socket, in one of the four ways. -/
inductive Waiter (Lq Lr : Llhttp)
  | read (c : Clientconnection Lq)
  | write (c : Clientconnection Lq)
  | sending (c : APIconnection Lr) (h : c.state = .sending)
  | receiving (c : APIconnection Lr) (h : c.state = .receiving)

/-- `epoll_wait` can report `ev` for a socket registered with `mask`. -/
def EpollEvent.ReportedFor (ev : EpollEvent) (mask : EventMask) : Prop :=
  ev.events ≠ 0 ∧ ev.events &&& (mask &&& ~~~epollEt) = ev.events

instance (ev : EpollEvent) (mask : EventMask) : Decidable (ev.ReportedFor mask) :=
  inferInstanceAs (Decidable (_ ∧ _))

namespace Waiter

/-- The mask the socket is registered with. -/
def mask : Waiter Lq Lr → EventMask
  | .read _ => readMask
  | .write _ => writeMask
  | .sending _ _ => writeMask
  | .receiving _ _ => readMask

/-- The last call in the direction the operation waits for would block. -/
def blocked : Waiter Lq Lr → Effect → Bool
  | .read _ => Effect.RecvBlocked
  | .write _ => Effect.SendBlocked
  | .sending _ _ => Effect.SendBlocked
  | .receiving _ _ => Effect.RecvBlocked

/-- The calls of `handleEvent`. -/
def handleEvent (ev : EpollEvent) (recvs : List RecvResult) (sends : List SendResult) :
    Waiter Lq Lr → List Effect
  | .read c => (c.handleEvent ev recvs sends).effects
  | .write c => (c.handleEvent ev recvs sends).effects
  | .sending c _ => (c.handleEvent ev recvs sends).effects
  | .receiving c _ => (c.handleEvent ev recvs sends).effects

/-- The ways to be left waiting with the report not used up. `Clientconnection` looks at `EPOLLHUP`
    in none of its branches. -/
def Starves (ev : EpollEvent) (recvs : List RecvResult) (sends : List SendResult) :
    Waiter Lq Lr → Prop
  | .read c => ev.events = epollHup ∨ ev.has epollErr = false ∧
      Clientconnection.receiver.ReadFails { c with recvBuffer := .cleared } recvs
  | .write c => ev.events = epollHup ∨ ev.has epollErr = false ∧
      SendStalls (c.sendBuffer.length - c.sentBytes) sends
  | .sending c _ => ev.has epollErr = false ∧ SendStalls (c.sendBuffer.length - c.sentBytes) sends
  | .receiving c _ => ev.has epollErr = false ∧
      APIconnection.receiver.ReadFails { c with recvBuffer := .cleared } recvs

end Waiter

/-! ## The loops -/

/-- One more call in front that neither calls back nor rearms. -/
theorem exhausts_cons {blocked : Effect → Bool} {e : Effect} {effs : List Effect} (hne : effs ≠ [])
    (hcb : e.IsCallback = false) (hre : e.Rearms = false) :
    Exhausts blocked (e :: effs) ↔ Exhausts blocked effs := by
  obtain ⟨e', effs, rfl⟩ := List.exists_cons_of_ne_nil hne
  simp [Exhausts, CallsBack, hcb, hre]

namespace Receiver

variable {R : Receiver σ}

theorem receive_effects_ne_nil (c : σ) (recvs : List RecvResult) :
    (R.receive c recvs).effects ≠ [] := by
  cases recvs with
  | nil => simp [receive]
  | cons r recvs =>
      cases r with
      | data chunk =>
          rw [receive]
          dsimp only
          split
          · simp
          split <;> simp
      | eof => simp [receive]
      | fail errno => simp [receive]

/-- The `recv` loop uses the report up unless it gets to a failure it does not look at. -/
theorem receive_exhausts (c : σ) (recvs : List RecvResult) :
    Exhausts Effect.RecvBlocked (R.receive c recvs).effects ↔ ¬ R.ReadFails c recvs := by
  induction recvs generalizing c with
  | nil => simp [receive, ReadFails, Exhausts, Effect.RecvBlocked, Errno.WouldBlock]
  | cons r recvs ih =>
      cases r with
      | data chunk =>
          rw [receive, ReadFails]
          dsimp only
          split
          · next hbad => simp [hbad, Exhausts, CallsBack, Effect.IsCallback]
          next hgood =>
          split
          · next hdone => simp [hdone, Exhausts, CallsBack, Effect.IsCallback]
          next hmore =>
          rw [exhausts_cons (receive_effects_ne_nil _ recvs) rfl rfl, ih]
          simp [hgood, hmore]
      | eof => simp [receive, ReadFails, Exhausts, CallsBack, Effect.IsCallback]
      | fail errno =>
          simp [receive, ReadFails, Exhausts, CallsBack, Effect.IsCallback, Effect.RecvBlocked,
            Effect.Rearms]

end Receiver

/-- The `send` loop uses the report up unless a `send` returns 0 too early. -/
theorem Transmitter.Pass.exhausts {T : Transmitter σ} (hT : T.Lawful) {c : σ}
    {sends : List SendResult} {r : σ × List Effect} (h : T.Pass c sends r) :
    Exhausts Effect.SendBlocked r.2 ↔
      ¬ SendStalls ((T.sendBuffer c).length - T.sentBytes c) sends := by
  induction h with
  | @waits c sends result hresult hwaits =>
      subst hresult
      cases sends with
      | nil => simp [call, SendStalls, Exhausts, Effect.SendBlocked, Errno.WouldBlock]
      | cons r sends =>
          cases r with
          | sent n =>
              cases n with
              | zero =>
                  simp [call, SendStalls, Exhausts, CallsBack, Effect.IsCallback,
                    Effect.SendBlocked, Effect.Rearms]
              | succ n => exact hwaits.elim
          | fail errno =>
              cases errno with
              | eagain => simp [call, SendStalls, Exhausts, Effect.SendBlocked, Errno.WouldBlock]
              | ewouldblock =>
                  simp [call, SendStalls, Exhausts, Effect.SendBlocked, Errno.WouldBlock]
              | other code => exact hwaits.elim
  | fails => simp [SendStalls, Exhausts, CallsBack, Effect.IsCallback]
  | @ends c sends n hret hall =>
      have hlast : ¬ n + 1 < (T.sendBuffer c).length - T.sentBytes c := by omega
      simp [SendStalls, hlast, Exhausts, CallsBack, Effect.IsCallback]
  | @rearms c sends n r hret hall h ih =>
      have hlast : ¬ n + 1 < (T.sendBuffer c).length - T.sentBytes c := by omega
      simp [SendStalls, hlast, Exhausts, Effect.Rearms]
  | @part c sends n r hmore h ih =>
      have hpart : n + 1 < (T.sendBuffer c).length - T.sentBytes c := by omega
      obtain ⟨hbuffer, hpos⟩ := hT.advance c (n + 1)
      rw [exhausts_cons h.effects_ne_nil rfl rfl, ih, hbuffer, hpos, SendStalls, ← Nat.sub_sub]
      simp [hpart]

/-! ## The masks -/

namespace EpollEvent

variable {ev : EpollEvent} {mask dir bits : EventMask}

/-- Nothing is reported that was not asked for. -/
theorem ReportedFor.has_eq_false (h : ev.ReportedFor mask)
    (hbits : mask &&& ~~~epollEt &&& bits = 0) : ev.has bits = false := by
  have hnone : ev.events &&& bits = 0 := by
    rw [← h.2, BitVec.and_assoc, hbits]
    exact BitVec.and_zero
  simp [has, hnone]

/-- What is reported is an error, the direction asked for, or `EPOLLHUP` alone. -/
theorem ReportedFor.cases (h : ev.ReportedFor mask)
    (hmask : mask &&& ~~~epollEt = dir ||| epollErr ||| epollHup) :
    ev.has epollErr = true ∨ ev.has dir = true ∨ ev.events = epollHup := by
  cases herr : ev.has epollErr with
  | true => exact Or.inl rfl
  | false =>
  cases hdir : ev.has dir with
  | true => exact Or.inr (Or.inl rfl)
  | false =>
      have hzero (bits : EventMask) (hb : ev.has bits = false) : ev.events &&& bits = 0#32 := by
        simpa [has] using hb
      have hhup : ev.events &&& epollHup = ev.events := by
        have hsub := h.2
        rwa [hmask, BitVec.and_or_distrib_left, BitVec.and_or_distrib_left, hzero dir hdir,
          hzero epollErr herr, BitVec.zero_or, BitVec.zero_or] at hsub
      have hbit : epollHup = BitVec.twoPow 32 4 := rfl
      rw [hbit, BitVec.and_twoPow] at hhup
      split at hhup
      · exact Or.inr (Or.inr hhup.symm)
      · exact absurd hhup.symm h.1

end EpollEvent

/-! ## The law -/

namespace Waiter

variable {ev : EpollEvent} {recvs : List RecvResult} {sends : List SendResult}

/-- `EPOLLHUP` alone is none of the reports a handler looks at. -/
theorem has_of_hup (h : ev.events = epollHup) :
    ev.has epollErr = false ∧ ev.has epollIn = false ∧ ev.has epollOut = false := by
  simp only [EpollEvent.has, h]
  decide

theorem read_exhausts (c : Clientconnection Lq) (hev : ev.ReportedFor readMask) :
    Exhausts Effect.RecvBlocked (c.handleEvent ev recvs sends).effects ↔
      ¬ (Waiter.read c : Waiter Lq Lr).Starves ev recvs sends := by
  have hout : ev.has epollOut = false := hev.has_eq_false (by decide)
  rw [Starves, Clientconnection.handleEvent]
  rcases hev.cases (show readMask &&& ~~~epollEt = epollIn ||| epollErr ||| epollHup by decide) with
    herr | hin | hhup
  · have hne : ev.events ≠ epollHup := fun h => by simp [(has_of_hup h).1] at herr
    simp [herr, hne, Exhausts, CallsBack, Effect.IsCallback]
  · have hne : ev.events ≠ epollHup := fun h => by simp [(has_of_hup h).2.1] at hin
    cases herr : ev.has epollErr with
    | true => simp [hne, Exhausts, CallsBack, Effect.IsCallback]
    | false =>
        rw [if_neg Bool.false_ne_true, if_pos hin, Clientconnection.receive,
          Receiver.receive_exhausts]
        simp [hne]
  · obtain ⟨herr, hin, -⟩ := has_of_hup hhup
    simp [herr, hin, hout, hhup, Exhausts, CallsBack]

theorem write_exhausts (c : Clientconnection Lq) (hev : ev.ReportedFor writeMask) :
    Exhausts Effect.SendBlocked (c.handleEvent ev recvs sends).effects ↔
      ¬ (Waiter.write c : Waiter Lq Lr).Starves ev recvs sends := by
  have hin : ev.has epollIn = false := hev.has_eq_false (by decide)
  rw [Starves, Clientconnection.handleEvent]
  rcases hev.cases (show writeMask &&& ~~~epollEt = epollOut ||| epollErr ||| epollHup by decide)
    with herr | hout | hhup
  · have hne : ev.events ≠ epollHup := fun h => by simp [(has_of_hup h).1] at herr
    simp [herr, hne, Exhausts, CallsBack, Effect.IsCallback]
  · have hne : ev.events ≠ epollHup := fun h => by simp [(has_of_hup h).2.2] at hout
    cases herr : ev.has epollErr with
    | true => simp [hne, Exhausts, CallsBack, Effect.IsCallback]
    | false =>
        rw [if_neg Bool.false_ne_true, hin, if_neg Bool.false_ne_true, if_pos hout]
        have hpass : Exhausts Effect.SendBlocked (c.transmit sends).2 ↔
            ¬ SendStalls (c.sendBuffer.length - c.sentBytes) sends :=
          (c.transmit_pass sends).exhausts Clientconnection.transmitter_lawful
        simp [hpass, hne]
  · obtain ⟨herr, -, hout⟩ := has_of_hup hhup
    simp [herr, hin, hout, hhup, Exhausts, CallsBack]

theorem sending_exhausts (c : APIconnection Lr) (h : c.state = .sending) :
    Exhausts Effect.SendBlocked (c.handleEvent ev recvs sends).effects ↔
      ¬ (Waiter.sending c h : Waiter Lq Lr).Starves ev recvs sends := by
  rw [Starves, APIconnection.handleEvent]
  cases herr : ev.has epollErr with
  | true => simp [Exhausts, CallsBack, Effect.IsCallback]
  | false =>
      rw [if_neg Bool.false_ne_true, h]
      have hpass : Exhausts Effect.SendBlocked (c.transmit sends).2 ↔
          ¬ SendStalls (c.sendBuffer.length - c.sentBytes) sends :=
        (c.transmit_pass sends).exhausts APIconnection.transmitter_lawful
      simp [hpass]

theorem receiving_exhausts (c : APIconnection Lr) (h : c.state = .receiving) :
    Exhausts Effect.RecvBlocked (c.handleEvent ev recvs sends).effects ↔
      ¬ (Waiter.receiving c h : Waiter Lq Lr).Starves ev recvs sends := by
  rw [Starves, APIconnection.handleEvent]
  cases herr : ev.has epollErr with
  | true => simp [Exhausts, CallsBack, Effect.IsCallback]
  | false =>
      rw [if_neg Bool.false_ne_true, h]
      simp only [Receiver.receive_exhausts]
      simp

end Waiter

/-- **Readiness is used up** by every event, answers and object except in the cases of `Starves`. -/
theorem readiness_exhausted_iff (w : Waiter Lq Lr) {ev : EpollEvent} (hev : ev.ReportedFor w.mask)
    (recvs : List RecvResult) (sends : List SendResult) :
    Exhausts w.blocked (w.handleEvent ev recvs sends) ↔ ¬ w.Starves ev recvs sends := by
  cases w with
  | read c => exact Waiter.read_exhausts c hev
  | write c => exact Waiter.write_exhausts c hev
  | sending c h => exact Waiter.sending_exhausts c h
  | receiving c h => exact Waiter.receiving_exhausts c h

/-- A read that got nothing waits for the next edge. -/
theorem readiness_exhausted_read :
    Exhausts Effect.RecvBlocked
      ((Clientconnection.new 5 "c" : Clientconnection headParser).handleEvent readable
        [.fail .eagain] []).effects :=
  (readiness_exhausted_iff
    (.read (.new 5 "c") : Waiter headParser headParser)
    (show readable.ReportedFor readMask by decide) [.fail .eagain] []).2
    (show ¬ (readable.events = epollHup ∨ readable.has epollErr = false ∧
      Errno.eagain.WouldBlock = false) by decide)

/-- **Waiting for an edge that need not come**: a write with nothing in `sendBuffer`, a read that is
    told `EPOLLHUP` alone, and one whose `recv` fails with `ECONNRESET`. -/
theorem readiness_left :
    ((⟨epollOut, 5⟩ : EpollEvent).ReportedFor writeMask ∧
      ¬ Exhausts Effect.SendBlocked
        ((Waiter.write (.new 5 "c") : Waiter headParser headParser).handleEvent
          ⟨epollOut, 5⟩ [] [.sent 0])) ∧
    ((⟨epollHup, 5⟩ : EpollEvent).ReportedFor readMask ∧
      ¬ Exhausts Effect.RecvBlocked
        ((Waiter.read (.new 5 "c") : Waiter headParser headParser).handleEvent
          ⟨epollHup, 5⟩ [] [])) ∧
    (readable.ReportedFor readMask ∧
      ¬ Exhausts Effect.RecvBlocked
        ((Waiter.read (.new 5 "c") : Waiter headParser headParser).handleEvent readable
          [.fail (.other 104)] [])) := by
  decide +kernel

end FiberConn
