import Mathlib.Data.Set.Insert

set_option autoImplicit false

/-! # Owners of resources

Some resources are held, and some parties own some resources. `SolelyOwned` says that every resource
that is held has exactly one owner and nothing else is owned. This stays so as long as every
resource comes with an owner and goes with its owner (`acquire`, `release`); a resource without an
owner is leaked, and an owner of something that is not held has been left behind. -/

namespace FiberConn

variable {K R : Type*} {held held' : Set R} {owns owns' : K → R → Prop} {k : K} {r : R}

structure SolelyOwned (held : Set R) (owns : K → R → Prop) : Prop where
  owner : ∀ r ∈ held, ∃ k, owns k r
  held : ∀ k r, owns k r → r ∈ held
  unique : ∀ k k' r, owns k r → owns k' r → k = k'

namespace SolelyOwned

/-- The same resources with the same owners. -/
theorem congr (h : SolelyOwned held owns) (hheld : held' = held)
    (howns : ∀ k r, owns' k r ↔ owns k r) : SolelyOwned held' owns' := by
  obtain rfl : owns' = owns := funext fun k => funext fun r => propext (howns k r)
  rwa [hheld]

/-- A new resource comes with an owner. -/
theorem acquire (h : SolelyOwned held owns) (hr : r ∉ held) (hheld : held' = insert r held)
    (howns : ∀ k' r', owns' k' r' ↔ k' = k ∧ r' = r ∨ owns k' r') : SolelyOwned held' owns' where
  owner r' hr' := by
    rw [hheld] at hr'
    rcases hr' with rfl | hr'
    · exact ⟨k, (howns k r').2 (Or.inl ⟨rfl, rfl⟩)⟩
    · obtain ⟨k', hk'⟩ := h.owner r' hr'
      exact ⟨k', (howns k' r').2 (Or.inr hk')⟩
  held k' r' hk' := by
    rw [hheld]
    rcases (howns k' r').1 hk' with ⟨-, rfl⟩ | hk'
    · exact Set.mem_insert _ _
    · exact Set.mem_insert_of_mem _ (h.held k' r' hk')
  unique k₁ k₂ r' h₁ h₂ := by
    rcases (howns k₁ r').1 h₁ with ⟨rfl, rfl⟩ | h₁ <;>
      rcases (howns k₂ _).1 h₂ with ⟨rfl, heq⟩ | h₂
    · rfl
    · exact absurd (h.held _ _ h₂) hr
    · exact absurd (heq ▸ h.held _ _ h₁) hr
    · exact h.unique _ _ _ h₁ h₂

/-- A resource goes, and its owner owns it no more. -/
theorem release (h : SolelyOwned held owns) (hk : owns k r) (hheld : held' = held \ {r})
    (howns : ∀ k' r', owns' k' r' ↔ owns k' r' ∧ (k' ≠ k ∨ r' ≠ r)) : SolelyOwned held' owns' where
  owner r' hr' := by
    rw [hheld] at hr'
    obtain ⟨k', hk'⟩ := h.owner r' hr'.1
    exact ⟨k', (howns k' r').2 ⟨hk', Or.inr hr'.2⟩⟩
  held k' r' hk' := by
    obtain ⟨hk', hne⟩ := (howns k' r').1 hk'
    rw [hheld]
    refine ⟨h.held k' r' hk', ?_⟩
    rintro rfl
    exact hne.elim (fun hne => hne (h.unique _ _ _ hk' hk)) fun hne => hne rfl
  unique k₁ k₂ r' h₁ h₂ := h.unique _ _ _ ((howns k₁ r').1 h₁).1 ((howns k₂ r').1 h₂).1

/-- A leak, -/
theorem not_of_leak (hr : r ∈ held) (hnone : ∀ k, ¬ owns k r) : ¬ SolelyOwned held owns := fun h =>
  let ⟨k, hk⟩ := h.owner r hr
  hnone k hk

/-- and an owner left behind. -/
theorem not_of_stale (hr : r ∉ held) (hk : owns k r) : ¬ SolelyOwned held owns := fun h =>
  hr (h.held k r hk)

end SolelyOwned

end FiberConn
