import Mathlib.Algebra.BigOperators.Group.List.Basic
import Mathlib.Algebra.GroupWithZero.Nat

set_option autoImplicit false

/-! # A stream of units that arrives in pieces

A reader takes units off a stream, each of a size of its own, while bytes arrive cut in any way.
Taking a unit that is not completely buffered blocks until it is. `waits_iff` says when a run of
takes, made without a look at the buffer in between, blocks nowhere: exactly when all the units were
buffered before the first. -/

namespace FiberConn

variable {α : Type*}

/-- The units still to be taken, each with its size, and the bytes of them that are buffered. -/
structure UnitStream (α : Type*) where
  units : List (ℕ × α)
  buffered : ℕ

namespace UnitStream

/-- The bytes of the units still to be taken. -/
def size (x : UnitStream α) : ℕ := (x.units.map Prod.fst).sum

/-- Bytes arrive. -/
def feed (x : UnitStream α) (n : ℕ) : UnitStream α := { x with buffered := x.buffered + n }

/-- Taking the next unit would block. -/
def busy (x : UnitStream α) : Bool :=
  match x.units with
  | [] => false
  | (n, _) :: _ => decide (x.buffered < n)

/-- The next unit is taken. If that blocks, it waits for the rest of the unit and reads `late` more
    bytes by the way. -/
def take (x : UnitStream α) (late : ℕ) : UnitStream α :=
  match x.units with
  | [] => x
  | (n, _) :: rest => ⟨rest, (if x.buffered < n then n + late else x.buffered) - n⟩

/-- `k` units are taken one after the other. -/
def takes (x : UnitStream α) (late : List ℕ) : ℕ → UnitStream α
  | 0 => x
  | k + 1 => (x.take (late.headD 0)).takes late.tail k

/-- Which of them block. -/
def waits (x : UnitStream α) (late : List ℕ) : ℕ → List Bool
  | 0 => []
  | k + 1 => x.busy :: (x.take (late.headD 0)).waits late.tail k

theorem takes_units (x : UnitStream α) (late : List ℕ) (k : ℕ) :
    (x.takes late k).units = x.units.drop k := by
  induction k generalizing x late with
  | zero => rfl
  | succ k ih =>
      rw [takes, ih, take]
      split
      · next hunits => rw [hunits, List.drop_nil, List.drop_nil]
      · next hunits => rw [hunits, List.drop_succ_cons]

/-- A unit that is completely buffered is taken from the buffer. -/
theorem take_of_le {x : UnitStream α} {n : ℕ} {y : α} {rest : List (ℕ × α)}
    (hunits : x.units = (n, y) :: rest) (h : n ≤ x.buffered) (late : ℕ) :
    x.take late = ⟨rest, x.buffered - n⟩ := by
  rw [take, hunits]
  simp only [if_neg (Nat.not_lt.2 h)]

/-- **Taking everything blocks nowhere** exactly if everything is buffered. -/
theorem waits_iff (x : UnitStream α) (late : List ℕ) {k : ℕ} (hk : x.units.length ≤ k) :
    (∀ b ∈ x.waits late k, b = false) ↔ x.size ≤ x.buffered := by
  induction k generalizing x late with
  | zero =>
      have hunits : x.units = [] := List.length_eq_zero_iff.1 (Nat.le_zero.1 hk)
      simp [waits, size, hunits]
  | succ k ih =>
      rw [waits, List.forall_mem_cons]
      cases hunits : x.units with
      | nil =>
          have htake : x.take (late.headD 0) = x := by rw [take, hunits]
          have hbusy : x.busy = false := by rw [busy, hunits]
          have hrest := ih x late.tail (by simp [hunits])
          rw [htake, hrest]
          simp [hbusy]
      | cons u rest =>
          obtain ⟨n, y⟩ := u
          rw [hunits, List.length_cons] at hk
          have hbusy : x.busy = decide (x.buffered < n) := by rw [busy, hunits]
          have hsize : x.size = n + (rest.map Prod.fst).sum := by
            rw [size, hunits, List.map_cons, List.sum_cons]
          have hrest := ih ⟨rest, x.buffered - n⟩ late.tail (Nat.le_of_succ_le_succ hk)
          rw [hbusy, hsize, decide_eq_false_iff_not, Nat.not_lt]
          constructor
          · rintro ⟨hn, hwaits⟩
            rw [take_of_le hunits hn] at hwaits
            have hle : (rest.map Prod.fst).sum ≤ x.buffered - n := hrest.1 hwaits
            omega
          · intro hall
            have hn : n ≤ x.buffered := by omega
            rw [take_of_le hunits hn]
            refine ⟨hn, hrest.2 ?_⟩
            show (rest.map Prod.fst).sum ≤ x.buffered - n
            omega

end UnitStream

end FiberConn
