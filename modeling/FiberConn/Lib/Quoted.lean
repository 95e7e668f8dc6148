import Mathlib.Data.List.Basic

set_option autoImplicit false

/-! # Quoted literals

In a quoted literal the quote itself is doubled, and the literal ends at the first quote that is
not. `readLiteral_iff` says what a reader of such literals accepts, and `readLiteral_plain_iff` when
a text that was put between quotes as it is comes back. -/

namespace FiberConn

variable {α : Type*} [DecidableEq α] {quote : α} {text rest input : List α}

/-- What a literal contains, and what follows it, read from behind its opening quote. -/
def readLiteral (quote : α) : List α → Option (List α × List α)
  | [] => none
  | [a] => if a = quote then some ([], []) else none
  | a :: b :: rest =>
      if a = quote then
        if b = quote then (readLiteral quote rest).map fun x => (quote :: x.1, x.2)
        else some ([], b :: rest)
      else (readLiteral quote (b :: rest)).map fun x => (a :: x.1, x.2)

/-- The text with its quotes doubled. -/
def doubled (quote : α) (text : List α) : List α :=
  text.flatMap fun a => if a = quote then [quote, quote] else [a]

theorem doubled_cons (a : α) : doubled quote (a :: text) =
    (if a = quote then [quote, quote] else [a]) ++ doubled quote text := List.flatMap_cons

theorem readLiteral_cons_of_ne {a : α} (ha : a ≠ quote) : readLiteral quote (a :: input) =
    (readLiteral quote input).map fun x => (a :: x.1, x.2) := by
  cases input with
  | nil => simp [readLiteral, ha]
  | cons b rest => rw [readLiteral, if_neg ha]

theorem readLiteral_doubled (hrest : rest.head? ≠ some quote) :
    readLiteral quote (doubled quote text ++ quote :: rest) = some (text, rest) := by
  induction text with
  | nil =>
      cases rest with
      | nil => simp [doubled, readLiteral]
      | cons b rest =>
          have hb : b ≠ quote := fun he => hrest (by rw [he]; rfl)
          simp [doubled, readLiteral, hb]
  | cons a text ih =>
      rw [doubled_cons, List.append_assoc]
      by_cases ha : a = quote
      · rw [if_pos ha, List.cons_append, List.cons_append, List.nil_append, readLiteral, if_pos rfl,
          if_pos rfl, ih, ha]
        rfl
      · rw [if_neg ha, List.cons_append, List.nil_append, readLiteral_cons_of_ne ha, ih]
        rfl

theorem readLiteral_sound (h : readLiteral quote input = some (text, rest)) :
    input = doubled quote text ++ quote :: rest ∧ rest.head? ≠ some quote := by
  induction input using readLiteral.induct quote generalizing text with
  | case1 => cases h
  | case2 =>
      rw [readLiteral, if_pos rfl] at h
      obtain ⟨rfl, rfl⟩ := Prod.mk.inj (Option.some.inj h)
      exact ⟨rfl, by simp⟩
  | case3 a ha =>
      rw [readLiteral, if_neg ha] at h
      cases h
  | case4 more ih =>
      rw [readLiteral, if_pos rfl, if_pos rfl] at h
      obtain ⟨⟨text', rest'⟩, hmore, hx⟩ := Option.map_eq_some_iff.1 h
      obtain ⟨rfl, rfl⟩ := Prod.mk.inj hx
      obtain ⟨rfl, hrest⟩ := ih hmore
      exact ⟨by rw [doubled_cons, if_pos rfl]; rfl, hrest⟩
  | case5 b more hb =>
      rw [readLiteral, if_pos rfl, if_neg hb] at h
      obtain ⟨rfl, rfl⟩ := Prod.mk.inj (Option.some.inj h)
      exact ⟨rfl, by simpa using hb⟩
  | case6 a b more ha ih =>
      rw [readLiteral, if_neg ha] at h
      obtain ⟨⟨text', rest'⟩, hmore, hx⟩ := Option.map_eq_some_iff.1 h
      obtain ⟨rfl, rfl⟩ := Prod.mk.inj hx
      obtain ⟨hinput, hrest⟩ := ih hmore
      exact ⟨by rw [hinput, doubled_cons, if_neg ha]; rfl, hrest⟩

/-- **Reading a literal undoes the doubling.** -/
theorem readLiteral_iff : readLiteral quote input = some (text, rest) ↔
    input = doubled quote text ++ quote :: rest ∧ rest.head? ≠ some quote := by
  constructor
  · exact readLiteral_sound
  · rintro ⟨rfl, hrest⟩
    exact readLiteral_doubled hrest

theorem length_le_doubled (quote : α) (text : List α) :
    text.length ≤ (doubled quote text).length := by
  induction text with
  | nil => exact Nat.zero_le _
  | cons a text ih =>
      rw [doubled_cons, List.length_cons, List.length_append]
      split
      · simp only [List.length_cons, List.length_nil]
        omega
      · simp only [List.length_cons, List.length_nil]
        omega

theorem doubled_eq_self_iff : doubled quote text = text ↔ quote ∉ text := by
  induction text with
  | nil => simp [doubled]
  | cons a text ih =>
      rw [doubled_cons, List.mem_cons, not_or]
      by_cases ha : a = quote
      · rw [if_pos ha]
        refine ⟨fun h => ?_, fun h => absurd ha.symm h.1⟩
        have hlen := congrArg List.length h
        have hle := length_le_doubled quote text
        simp only [List.length_append, List.length_cons, List.length_nil] at hlen
        omega
      · rw [if_neg ha, List.cons_append, List.nil_append, List.cons_inj_right, ih]
        exact ⟨fun h => ⟨fun he => ha he.symm, h⟩, fun h => h.2⟩

/-- **Without doubling**, a text is read back exactly if it contains no quote. -/
theorem readLiteral_plain_iff (hrest : rest.head? ≠ some quote) :
    readLiteral quote (text ++ quote :: rest) = some (text, rest) ↔ quote ∉ text := by
  rw [readLiteral_iff, and_iff_left hrest, List.append_left_inj, eq_comm, doubled_eq_self_iff]

end FiberConn
