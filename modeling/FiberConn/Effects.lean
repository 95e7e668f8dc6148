import FiberConn.DataTypes
import FiberConn.Reactor

set_option autoImplicit false

/-! # Traces of calls

Handlers are translated as functions that also return, in program order, the calls they make outside
their own object. `Effect` is one such call, with its arguments and the answer it got: to the
kernel, to libpq, to the reactor, or to the callback of the operation being served (`callback`). The
laws of the three connection classes are about the order of these calls, so the shapes a trace can
have are defined here once:

* `Quiet fd` — system calls, libpq calls and rearming of the object's own descriptor;
* `HandlerTrace fd` — what an event handler may do: stay quiet, or untrack and then call back. -/

namespace FiberConn

inductive Effect
  | recv (result : RecvResult)
  | send (bytes : Bytes) (result : SendResult)
  | pq (call : PqCall)
  | addTrack (fd : ℤ) (mask : EventMask) (priority : EventPriority)
  | modifyTrack (fd : ℤ) (mask : EventMask) (priority : EventPriority)
  | removeTrack (fd : ℤ)
  | close (fd : ℤ)
  | callback

namespace Effect

/-- Calls that touch neither the reactor nor the descriptor table nor the user. `PQfinish` is not
    one: it closes a descriptor. -/
def IsCall : Effect → Prop
  | .recv _ => True
  | .send _ _ => True
  | .pq (.finish _) => False
  | .pq _ => True
  | _ => False

/-- Calls, or rearming `fd`. -/
def Quiet (fd : ℤ) : Effect → Prop
  | .recv _ => True
  | .send _ _ => True
  | .pq (.finish _) => False
  | .pq _ => True
  | .modifyTrack fd' _ _ => fd' = fd
  | _ => False

/-- The callback of the operation is invoked. -/
def IsCallback : Effect → Bool
  | .callback => true
  | _ => false

end Effect

/-- The trace invokes the operation's callback. -/
def CallsBack (effs : List Effect) : Bool := effs.any Effect.IsCallback

/-- The operation whose handler the reactor holds after an `addTrack` whose answer nobody looks at:
    none if `epoll_ctl` has refused. -/
def heldIf {α : Type} (granted : Bool) (op : α) : Option α := if granted then some op else none

theorem eq_of_heldIf {α : Type} {granted : Bool} {op op' : α} (h : heldIf granted op = some op') :
    op' = op :=
  (Option.some.inj (Option.ite_none_right_eq_some.1 h).2).symm

/-- What an event handler that reads leaves behind: the object, the calls it made, and the answers
    of `recv` it has not asked for. -/
structure Receipt (α : Type) where
  conn : α
  effects : List Effect
  unread : List RecvResult

/-- An event handler of an object with descriptor `fd` either leaves the operation waiting, or
    untracks `fd` and, as the very last thing, calls back. -/
inductive HandlerTrace (fd : ℤ) : List Effect → Prop
  | waits {effs : List Effect} (h : ∀ e ∈ effs, e.Quiet fd) : HandlerTrace fd effs
  | ends {before after : List Effect} (hb : ∀ e ∈ before, e.Quiet fd)
      (ha : ∀ e ∈ after, e.IsCall) :
      HandlerTrace fd (before ++ Effect.removeTrack fd :: (after ++ [Effect.callback]))

/-- One more quiet call in front. -/
theorem HandlerTrace.cons {fd : ℤ} {e : Effect} {effs : List Effect} (h : HandlerTrace fd effs)
    (he : e.Quiet fd) : HandlerTrace fd (e :: effs) := by
  cases h with
  | waits h => exact .waits (List.forall_mem_cons.2 ⟨he, h⟩)
  | ends hb ha => exact .ends (List.forall_mem_cons.2 ⟨he, hb⟩) ha

/-- One call that leaves the operation waiting. -/
theorem HandlerTrace.waits_one {fd : ℤ} {e : Effect} (he : e.Quiet fd) : HandlerTrace fd [e] :=
  .waits (List.forall_mem_singleton.2 he)

/-- The operation ends at once. -/
theorem HandlerTrace.ends_now {fd : ℤ} : HandlerTrace fd [.removeTrack fd, .callback] :=
  @HandlerTrace.ends fd [] [] (by simp) (by simp)

/-- One call after which the operation ends. -/
theorem HandlerTrace.ends_one {fd : ℤ} {e : Effect} (he : e.Quiet fd) :
    HandlerTrace fd [e, .removeTrack fd, .callback] :=
  @HandlerTrace.ends fd [e] [] (List.forall_mem_singleton.2 he) (by simp)

@[simp] theorem callsBack_append (xs ys : List Effect) :
    CallsBack (xs ++ ys) = (CallsBack xs || CallsBack ys) := by
  simp [CallsBack]

end FiberConn
