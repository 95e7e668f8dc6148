import Mathlib.Data.List.Infix

set_option autoImplicit false

/-! # Frames in a stream

A reader takes a frame off the front of a list. It is `Stable` if what it reads does not depend on
what comes after the frame; then a frame it reads completely is not read from any part of it
(`Stable.eq_of_prefix`), so whoever has only received a prefix knows that something is missing.
`readTo`, the reader up to a delimiter, is stable, and `Clear` says where it finds none. -/

namespace FiberConn

variable {α β : Type*}

/-- The result stays when more arrives. -/
def Stable (read : List α → Option (β × List α)) : Prop :=
  ∀ ⦃xs : List α⦄ ⦃b : β⦄ ⦃rest : List α⦄, read xs = some (b, rest) →
    ∀ more, read (xs ++ more) = some (b, rest ++ more)

variable {read : List α → Option (β × List α)}

/-- **A frame is read whole or not at all.** -/
theorem Stable.eq_of_prefix (h : Stable read) {frame part rest : List α} {b b' : β}
    (hframe : read frame = some (b, [])) (hpart : part <+: frame)
    (hread : read part = some (b', rest)) : part = frame ∧ b' = b ∧ rest = [] := by
  obtain ⟨more, rfl⟩ := hpart
  obtain ⟨hb, hrest⟩ := Prod.mk.inj (Option.some.inj ((h hread more).symm.trans hframe))
  obtain ⟨hrest, hmore⟩ := List.append_eq_nil_iff.1 hrest
  rw [hmore]
  exact ⟨(List.append_nil part).symm, hb, hrest⟩

/-- One frame after the other, the second read as the first one says. -/
theorem Stable.bind {γ : Type*} {next : β → List α → Option (γ × List α)} (h : Stable read)
    (hnext : ∀ b, Stable (next b)) : Stable fun xs => (read xs).bind fun x => next x.1 x.2 := by
  intro xs c rest hxs more
  obtain ⟨⟨b, rest'⟩, hread, hrest⟩ := Option.bind_eq_some_iff.1 hxs
  dsimp only
  rw [h hread more, Option.bind_some]
  exact hnext b hrest more

/-- The next `n` elements. -/
def readExactly (n : ℕ) (xs : List α) : Option (List α × List α) :=
  if n ≤ xs.length then some (xs.take n, xs.drop n) else none

theorem stable_readExactly (n : ℕ) : Stable (readExactly (α := α) n) := by
  intro xs b rest h more
  obtain ⟨hle, hx⟩ := Option.ite_none_right_eq_some.1 h
  obtain ⟨rfl, rfl⟩ := Prod.mk.inj (Option.some.inj hx)
  have hmore : n ≤ (xs ++ more).length := by
    rw [List.length_append]
    exact hle.trans (Nat.le_add_right _ _)
  rw [readExactly, if_pos hmore, List.take_append_of_le_length hle,
    List.drop_append_of_le_length hle]

/-! ## Delimiters -/

section ReadTo

variable {stop xs ys : List α}

/-- No `stop` begins in `xs`, whatever follows. -/
def Clear (stop xs : List α) : Prop :=
  ∀ tail ∈ xs.tails, tail ≠ [] → ¬ tail <+: stop ∧ ¬ stop <+: tail

theorem clear_cons {a : α} : Clear stop (a :: xs) ↔
    (¬ a :: xs <+: stop ∧ ¬ stop <+: a :: xs) ∧ Clear stop xs := by
  rw [Clear, List.tails_cons, List.forall_mem_cons]
  exact and_congr_left fun _ => imp_iff_right (List.cons_ne_nil a xs)

/-- A delimiter does not begin where its first element is missing. -/
theorem clear_of_notMem {a : α} {as : List α} (h : a ∉ xs) : Clear (a :: as) xs := by
  intro tail htail hne
  cases tail with
  | nil => exact absurd rfl hne
  | cons b bs =>
      have hmem : b ∈ xs := ((List.mem_tails _ _).1 htail).subset List.mem_cons_self
      have hb : b ≠ a := fun he => h (he ▸ hmem)
      exact ⟨fun hp => hb (List.cons_prefix_cons.1 hp).1,
        fun hp => hb (List.cons_prefix_cons.1 hp).1.symm⟩

variable [DecidableEq α]

instance (stop xs : List α) : Decidable (Clear stop xs) :=
  inferInstanceAs (Decidable (∀ tail ∈ xs.tails, _))

/-- What comes before the first `stop`, and what comes after it. -/
def readTo (stop : List α) : List α → Option (List α × List α)
  | [] => none
  | a :: as =>
      if stop <+: a :: as then some ([], (a :: as).drop stop.length)
      else (readTo stop as).map fun x => (a :: x.1, x.2)

theorem readTo_cons_of_not {a : α} {as : List α} (h : ¬ stop <+: a :: as) :
    readTo stop (a :: as) = (readTo stop as).map fun x => (a :: x.1, x.2) := by
  rw [readTo, if_neg h]

theorem length_of_readTo {x : List α × List α} (h : readTo stop xs = some x) :
    stop.length ≤ xs.length := by
  induction xs generalizing x with
  | nil => cases h
  | cons a as ih =>
      by_cases hstop : stop <+: a :: as
      · exact hstop.length_le
      · rw [readTo_cons_of_not hstop] at h
        obtain ⟨y, hy, -⟩ := Option.map_eq_some_iff.1 h
        exact (ih hy).trans (Nat.le_succ _)

theorem stable_readTo (stop : List α) : Stable (readTo stop) := by
  intro xs
  induction xs with
  | nil => intro b rest h; cases h
  | cons a as ih =>
      intro b rest h more
      by_cases hstop : stop <+: a :: as
      · rw [readTo, if_pos hstop] at h
        obtain ⟨rfl, rfl⟩ := Prod.mk.inj (Option.some.inj h)
        have hmore : stop <+: a :: (as ++ more) := hstop.trans (List.prefix_append (a :: as) more)
        rw [List.cons_append, readTo, if_pos hmore, ← List.cons_append,
          List.drop_append_of_le_length hstop.length_le]
      · rw [readTo_cons_of_not hstop] at h
        obtain ⟨⟨before, rest'⟩, has, hx⟩ := Option.map_eq_some_iff.1 h
        obtain ⟨rfl, rfl⟩ := Prod.mk.inj hx
        -- a delimiter that begins here would end before the one that was found
        have hmore : ¬ stop <+: a :: (as ++ more) := fun hp => hstop
          (List.prefix_of_prefix_length_le hp (List.prefix_append (a :: as) more)
            ((length_of_readTo has).trans (Nat.le_succ _)))
        rw [List.cons_append, readTo_cons_of_not hmore, ih has more, Option.map_some]

theorem readTo_append_of_clear (h : Clear stop xs) :
    readTo stop (xs ++ ys) = (readTo stop ys).map fun x => (xs ++ x.1, x.2) := by
  induction xs with
  | nil => exact Option.map_id'.symm
  | cons a as ih =>
      obtain ⟨⟨hshort, hlong⟩, hrest⟩ := clear_cons.1 h
      have hnot : ¬ stop <+: a :: (as ++ ys) := fun hp =>
        (List.prefix_or_prefix_of_prefix hp (List.prefix_append (a :: as) ys)).elim hlong hshort
      rw [List.cons_append, readTo_cons_of_not hnot, ih hrest, Option.map_map]
      rfl

end ReadTo

end FiberConn
