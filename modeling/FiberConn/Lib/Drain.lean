import Mathlib.Data.List.Perm.Basic

set_option autoImplicit false

/-! # Draining a batch by priority

A batch is put in a queue and its elements are taken one by one, each time one of the largest
keys. `Drained key batch taken waiting` says where such a drain stands: `taken` (newest first) and
`waiting` share out the batch, nothing waiting beats anything taken, and the taken elements came
out in non-increasing order. What happens between two takes is irrelevant as long as it leaves the
queue alone. -/

namespace FiberConn

variable {α : Type*} {key : α → ℕ} {batch taken waiting : List α}

/-- The state of a drain; `taken` is newest first. -/
structure Drained (key : α → ℕ) (batch taken waiting : List α) : Prop where
  perm : (taken ++ waiting).Perm batch
  sorted : taken.Pairwise fun a b => key a ≤ key b
  bound : ∀ x ∈ waiting, ∀ t ∈ taken, key x ≤ key t

theorem Drained.start (batch : List α) : Drained key batch [] batch :=
  ⟨List.Perm.refl _, List.Pairwise.nil, by simp⟩

/-- Taking a largest waiting element keeps the drain in order. -/
theorem Drained.take [BEq α] [LawfulBEq α] (h : Drained key batch taken waiting)
    {e : α}
    (he : e ∈ waiting) (hmax : ∀ x ∈ waiting, key x ≤ key e) :
    Drained key batch (e :: taken) (waiting.erase e) where
  perm := by
    have hsplit : (e :: waiting.erase e).Perm waiting := (List.perm_cons_erase he).symm
    have hmove : (e :: taken ++ waiting.erase e).Perm (taken ++ e :: waiting.erase e) :=
      List.perm_middle.symm
    exact (hmove.trans (hsplit.append_left taken)).trans h.perm
  sorted := List.pairwise_cons.2 ⟨fun t ht => h.bound e he t ht, h.sorted⟩
  bound := by
    intro x hx t ht
    have hxw : x ∈ waiting := List.mem_of_mem_erase hx
    rcases List.mem_cons.1 ht with rfl | ht
    · exact hmax x hxw
    · exact h.bound x hxw t ht

/-- When nothing waits any more, every element of the batch has been taken exactly once. -/
theorem Drained.all_taken (h : Drained key batch taken []) : taken.Perm batch := by
  simpa using h.perm

end FiberConn
