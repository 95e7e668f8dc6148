import FiberConn.Lib.Machine
import Mathlib.Algebra.BigOperators.Group.Finset.Piecewise
import Mathlib.Algebra.BigOperators.Intervals

set_option autoImplicit false

/-! # Executions that come to an end

`M.MustReach P s` says that every execution from `s` gets to a state with `P`, whatever the labels
are: none stops before, and none goes on for ever. A measure that every step decreases proves it, as
long as an invariant keeps a step possible; `tableWork` is a measure for the entries of a table. -/

namespace FiberConn

namespace Machine

variable {σ ℓ : Type*} {M : Machine σ ℓ} {P I : σ → Prop}

/-- Every execution from the state gets to a state with `P`. -/
inductive MustReach (M : Machine σ ℓ) (P : σ → Prop) : σ → Prop
  | here {s : σ} (h : P s) : MustReach M P s
  | later {s : σ} (hmore : ∃ l t, M.next s l = some t)
      (hall : ∀ l t, M.next s l = some t → MustReach M P t) : MustReach M P s

/-- **Termination by a measure.** While `P` does not hold, an invariant allows a step, and every
    step keeps the invariant and decreases the measure. -/
theorem MustReach.of_measure (measure : σ → ℕ)
    (hmore : ∀ s, I s → ¬ P s → ∃ l t, M.next s l = some t)
    (hstep : ∀ s l t, I s → ¬ P s → M.next s l = some t → I t ∧ measure t < measure s) {s : σ}
    (h : I s) : M.MustReach P s := by
  induction hn : measure s using Nat.strongRecOn generalizing s with
  | ind n ih =>
      by_cases hP : P s
      · exact .here hP
      refine .later (hmore s h hP) fun l t ht => ?_
      obtain ⟨ht', hlt⟩ := hstep s l t h hP ht
      exact ih (measure t) (hn ▸ hlt) ht' rfl

end Machine

/-! ## Measures over tables -/

section Table

variable {β : Type*} (weight : β → ℕ) (table : ℕ → Option β)

/-- What the entries below `n` weigh together. -/
def tableWork (n : ℕ) : ℕ := ∑ i ∈ Finset.range n, (table i).elim 0 weight

theorem tableWork_update {i n : ℕ} (hi : i < n) (x : Option β) :
    tableWork weight (Function.update table i x) n + (table i).elim 0 weight =
      tableWork weight table n + x.elim 0 weight := by
  have hcomp : (fun j => (Function.update table i x j).elim 0 weight) =
      Function.update (fun j => (table j).elim 0 weight) i (x.elim 0 weight) :=
    Function.comp_update (fun o : Option β => o.elim 0 weight) table i x
  have hmem := Finset.mem_range.2 hi
  rw [tableWork, tableWork, hcomp, Finset.sum_update_of_mem hmem,
    Finset.sum_eq_add_sum_sdiff_singleton_of_mem hmem fun j => (table j).elim 0 weight]
  omega

/-- A new entry at the end. -/
theorem tableWork_succ (n : ℕ) (x : Option β) :
    tableWork weight (Function.update table n x) (n + 1) =
      tableWork weight table n + x.elim 0 weight := by
  have hbelow : ∀ i ∈ Finset.range n, (Function.update table n x i).elim 0 weight =
      (table i).elim 0 weight := fun i hi => by
    rw [Function.update_of_ne (Finset.mem_range.1 hi).ne]
  rw [tableWork, Finset.sum_range_succ, Finset.sum_congr rfl hbelow, Function.update_self]
  rfl

end Table

end FiberConn
