import FiberConn.Effects

set_option autoImplicit false

/-! # The send loop of the HTTP connections

`Clientconnection::handleEvent` and the `API_SENDING` branch of `APIconnection::handleEvent` send
with the same loop up to the last byte of `sendBuffer`. Then the one returns, and the other rearms
its socket and goes on with an empty buffer. A `Transmitter` is what the loop uses of such an
object, and `Pass` says how the loop goes, call by call: what both classes have in common is proved
by induction on it. -/

namespace FiberConn

/-- `send` has taken nothing and the loop ends without a callback. Only -1 is looked at, so 0 ends
    it too. -/
def SendResult.Waits : SendResult → Prop
  | .sent 0 => True
  | .fail .eagain => True
  | .fail .ewouldblock => True
  | _ => False

variable {σ : Type}

structure Transmitter (σ : Type) where
  socket : σ → ℤ
  sendBuffer : σ → Bytes
  sentBytes : σ → ℕ
  /-- `sent_bytes += n`. -/
  advance : σ → ℕ → σ
  /-- What the last byte does to the object. -/
  finish : σ → σ
  /-- What an exit with an error does to the object. -/
  fail : σ → σ
  /-- The last byte ends the loop. -/
  returns : Bool

namespace Transmitter

/-- The call of `send` that the loop makes, with its answer. -/
def call (T : Transmitter σ) (c : σ) (result : SendResult) : Effect :=
  .send ((T.sendBuffer c).drop (T.sentBytes c)) result

/-- The loop on an object, with the answers of `send`, and what it leaves. Past the end of the list
    `send` would block. -/
inductive Pass (T : Transmitter σ) : σ → List SendResult → σ × List Effect → Prop
  | waits {c : σ} {sends : List SendResult} {result : SendResult}
      (hresult : result = sends.headD (.fail .eagain)) (hwaits : result.Waits) :
      Pass T c sends (c, [T.call c result])
  | fails {c : σ} {sends : List SendResult} {code : ℕ} :
      Pass T c (.fail (.other code) :: sends)
        (T.fail c, [T.call c (.fail (.other code)), .removeTrack (T.socket c), .callback])
  | ends {c : σ} {sends : List SendResult} {n : ℕ} (hret : T.returns = true)
      (hall : (T.sendBuffer c).length ≤ T.sentBytes c + (n + 1)) :
      Pass T c (.sent (n + 1) :: sends)
        (T.finish c, [T.call c (.sent (n + 1)), .removeTrack (T.socket c), .callback])
  | rearms {c : σ} {sends : List SendResult} {n : ℕ} {r : σ × List Effect}
      (hret : T.returns = false) (hall : (T.sendBuffer c).length ≤ T.sentBytes c + (n + 1))
      (h : Pass T (T.finish c) sends r) :
      Pass T c (.sent (n + 1) :: sends)
        (r.1, T.call c (.sent (n + 1)) :: .modifyTrack (T.socket c) readMask .newSock :: r.2)
  | part {c : σ} {sends : List SendResult} {n : ℕ} {r : σ × List Effect}
      (hmore : T.sentBytes c + (n + 1) < (T.sendBuffer c).length)
      (h : Pass T (T.advance c (n + 1)) sends r) :
      Pass T c (.sent (n + 1) :: sends) (r.1, T.call c (.sent (n + 1)) :: r.2)

/-- Nothing in the loop changes the socket. -/
structure Keeps (T : Transmitter σ) : Prop where
  advance : ∀ c n, T.socket (T.advance c n) = T.socket c
  finish : ∀ c, T.socket (T.finish c) = T.socket c
  fail : ∀ c, T.socket (T.fail c) = T.socket c

/-- What happens to the buffer and to the position in it. -/
structure Lawful (T : Transmitter σ) : Prop where
  advance : ∀ c n, T.sendBuffer (T.advance c n) = T.sendBuffer c ∧
    T.sentBytes (T.advance c n) = T.sentBytes c + n
  finish : ∀ c, T.sendBuffer (T.finish c) = [] ∧ T.sentBytes (T.finish c) = 0
  fail : ∀ c, T.sendBuffer (T.fail c) = T.sendBuffer c ∧ T.sentBytes (T.fail c) = T.sentBytes c

variable {T : Transmitter σ} {c : σ} {sends : List SendResult} {r : σ × List Effect}

/-- What no part of the loop changes, the loop does not change. -/
theorem Pass.frame (h : T.Pass c sends r) {α : Type} {f : σ → α}
    (hadvance : ∀ c n, f (T.advance c n) = f c) (hfinish : ∀ c, f (T.finish c) = f c)
    (hfail : ∀ c, f (T.fail c) = f c) : f r.1 = f c := by
  induction h with
  | waits => rfl
  | fails => exact hfail _
  | ends => exact hfinish _
  | rearms hret hall h ih => exact ih.trans (hfinish _)
  | part hmore h ih => exact ih.trans (hadvance _ _)

theorem Keeps.pass_socket (hT : T.Keeps) (h : T.Pass c sends r) : T.socket r.1 = T.socket c :=
  h.frame hT.advance hT.finish hT.fail

/-- Every exit of the loop that ends the operation untracks the socket and then calls back. -/
theorem Keeps.pass_trace (hT : T.Keeps) (h : T.Pass c sends r) :
    HandlerTrace (T.socket c) r.2 := by
  induction h with
  | waits => exact .waits_one trivial
  | fails => exact .ends_one trivial
  | ends => exact .ends_one trivial
  | rearms hret hall h ih =>
      rw [hT.finish] at ih
      exact HandlerTrace.cons (HandlerTrace.cons ih rfl) trivial
  | part hmore h ih =>
      rw [hT.advance] at ih
      exact ih.cons trivial

theorem Pass.effects_ne_nil (h : T.Pass c sends r) : r.2 ≠ [] := by
  cases h <;> exact List.cons_ne_nil _ _

/-- The loop calls back when it fails or returns after the last byte. -/
theorem Pass.of_callsBack (h : T.Pass c sends r) (hcb : CallsBack r.2 = true) :
    (∃ c', r.1 = T.fail c') ∨ T.returns = true ∧ ∃ c', r.1 = T.finish c' := by
  induction h with
  | waits => cases hcb
  | fails => exact Or.inl ⟨_, rfl⟩
  | ends hret => exact Or.inr ⟨hret, _, rfl⟩
  | rearms hret hall h ih => exact ih hcb
  | part hmore h ih => exact ih hcb

/-- Without a callback, the loop has done nothing but send. -/
theorem Pass.silent (h : T.Pass c sends r) {P : σ → Prop}
    (hadvance : ∀ c n, P c → P (T.advance c n)) (hfinish : ∀ c, P c → P (T.finish c))
    (hcb : CallsBack r.2 = false) (hc : P c) : P r.1 := by
  induction h with
  | waits => exact hc
  | fails => cases hcb
  | ends => cases hcb
  | rearms hret hall h ih => exact ih hcb (hfinish _ hc)
  | part hmore h ih => exact ih hcb (hadvance _ _ hc)

end Transmitter

end FiberConn
