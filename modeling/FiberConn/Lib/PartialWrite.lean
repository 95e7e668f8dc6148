import Mathlib.Data.List.Basic

set_option autoImplicit false

/-! # Partial writes

A writer keeps a buffer and the position up to which it has been accepted; each call offers the rest
of the buffer and is told how much of it was taken. `Follows` says that a list of calls is such a
conversation, and `Ledger.Balanced` that buffer and position agree with everything that has ever
been appended and accepted. Appending keeps the balance at any time, a conversation keeps it when
the buffer stays, and one that ends with nothing left keeps it when the buffer is emptied. -/

namespace FiberConn

variable {α : Type*}

/-- A call: what was offered, and how many elements of it were taken. -/
abbrev WriteCall (α : Type*) := List α × ℕ

/-- Everything the calls took, in order. -/
def written (calls : List (WriteCall α)) : List α := calls.flatMap fun c => c.1.take c.2

@[simp] theorem written_nil : written ([] : List (WriteCall α)) = [] := rfl

@[simp] theorem written_cons (c : WriteCall α) (calls : List (WriteCall α)) :
    written (c :: calls) = c.1.take c.2 ++ written calls := List.flatMap_cons

/-- `Follows rest calls rest'`: each call offers exactly what is left of `rest`, no call takes more
    than it was offered, and `rest'` is left in the end. -/
inductive Follows : List α → List (WriteCall α) → List α → Prop
  | nil (rest : List α) : Follows rest [] rest
  | cons {rest rest' : List α} {n : ℕ} {calls : List (WriteCall α)} (hn : n ≤ rest.length)
      (h : Follows (rest.drop n) calls rest') : Follows rest ((rest, n) :: calls) rest'

/-- What was taken and what is left make up what there was. -/
theorem Follows.written_append {rest rest' : List α} {calls : List (WriteCall α)}
    (h : Follows rest calls rest') : written calls ++ rest' = rest := by
  induction h with
  | nil rest => rfl
  | @cons rest rest' n calls hn h ih =>
      rw [written_cons, List.append_assoc, ih]
      exact List.take_append_drop n rest

/-- What a conversation does to a buffer and its position: some of the rest is taken, or all of it
    and the buffer is emptied. -/
inductive Delivers (buffer : List α) (pos : ℕ) (calls : List (WriteCall α)) : List α → ℕ → Prop
  | part {pos' : ℕ} (hpos : pos' ≤ buffer.length)
      (h : Follows (buffer.drop pos) calls (buffer.drop pos')) :
      Delivers buffer pos calls buffer pos'
  | all (h : Follows (buffer.drop pos) calls []) : Delivers buffer pos calls [] 0

/-- No call at all. -/
theorem Delivers.none {buffer : List α} {pos : ℕ} (hpos : pos ≤ buffer.length) :
    Delivers buffer pos [] buffer pos :=
  .part hpos (.nil _)

theorem Delivers.follows {buffer buffer' : List α} {pos pos' : ℕ} {calls : List (WriteCall α)}
    (h : Delivers buffer pos calls buffer' pos') :
    Follows (buffer.drop pos) calls (buffer'.drop pos') := by
  cases h with
  | part hpos h => exact h
  | all h => exact h

theorem Delivers.pos_le {buffer buffer' : List α} {pos pos' : ℕ} {calls : List (WriteCall α)}
    (h : Delivers buffer pos calls buffer' pos') : pos' ≤ buffer'.length := by
  cases h with
  | part hpos h => exact hpos
  | all h => exact Nat.zero_le _

/-- One more call in front, which does not take the whole rest. -/
theorem Delivers.cons {buffer buffer' : List α} {pos pos' n : ℕ} {calls : List (WriteCall α)}
    (hn : n ≤ (buffer.drop pos).length) (h : Delivers buffer (pos + n) calls buffer' pos') :
    Delivers buffer pos ((buffer.drop pos, n) :: calls) buffer' pos' := by
  cases h with
  | part hpos h => exact .part hpos (.cons hn (List.drop_drop ▸ h))
  | all h => exact .all (.cons hn (List.drop_drop ▸ h))

/-- An empty buffer stays empty. -/
theorem Delivers.of_nil {buffer' : List α} {pos' : ℕ} {calls : List (WriteCall α)}
    (h : Delivers [] 0 calls buffer' pos') : buffer' = [] ∧ pos' = 0 := by
  cases h with
  | part hpos h => exact ⟨rfl, Nat.le_zero.1 hpos⟩
  | all h => exact ⟨rfl, rfl⟩

/-- One more call in front, which takes the whole rest. -/
theorem Delivers.empty {buffer buffer' : List α} {pos pos' n : ℕ} {calls : List (WriteCall α)}
    (hn : n ≤ (buffer.drop pos).length) (hall : buffer.length ≤ pos + n)
    (h : Delivers [] 0 calls buffer' pos') :
    Delivers buffer pos ((buffer.drop pos, n) :: calls) buffer' pos' := by
  have hrest : (buffer.drop pos).drop n = [] := by
    rw [List.drop_drop]
    exact List.drop_eq_nil_of_le hall
  obtain ⟨rfl, rfl⟩ := h.of_nil
  exact .all (.cons hn (hrest ▸ h.follows))

/-- Everything appended, everything accepted, and the buffers emptied so far. -/
structure Ledger (α : Type*) where
  appended : List α
  accepted : List α
  completed : List α
deriving DecidableEq

namespace Ledger

def empty : Ledger α := ⟨[], [], []⟩

def append (l : Ledger α) (xs : List α) : Ledger α := { l with appended := l.appended ++ xs }

/-- Calls took `xs`. -/
def accept (l : Ledger α) (xs : List α) : Ledger α := { l with accepted := l.accepted ++ xs }

/-- The buffer, which held `xs`, is emptied. -/
def complete (l : Ledger α) (xs : List α) : Ledger α := { l with completed := l.completed ++ xs }

/-- A buffer that is accepted up to `pos` agrees with the history. -/
structure Balanced (l : Ledger α) (buffer : List α) (pos : ℕ) : Prop where
  pos_le : pos ≤ buffer.length
  appended : l.appended = l.completed ++ buffer
  accepted : l.accepted = l.completed ++ buffer.take pos

variable {l : Ledger α} {buffer : List α} {pos pos' : ℕ} {calls : List (WriteCall α)}

theorem Balanced.start : (empty : Ledger α).Balanced [] 0 := ⟨Nat.le_refl 0, rfl, rfl⟩

/-- What has been accepted is a prefix of what has been appended. -/
theorem Balanced.isPrefix (h : l.Balanced buffer pos) : l.accepted <+: l.appended := by
  rw [h.accepted, h.appended]
  exact (List.prefix_append_right_inj l.completed).2 (List.take_prefix pos buffer)

/-- The buffer may grow at any time. -/
theorem Balanced.append (h : l.Balanced buffer pos) (xs : List α) :
    (l.append xs).Balanced (buffer ++ xs) pos where
  pos_le := by
    rw [List.length_append]
    exact Nat.le_add_right_of_le h.pos_le
  appended := by
    show l.appended ++ xs = l.completed ++ (buffer ++ xs)
    rw [h.appended, List.append_assoc]
  accepted := by
    rw [List.take_append_of_le_length h.pos_le]
    exact h.accepted

/-- A conversation moves the position. -/
theorem Balanced.advance (h : l.Balanced buffer pos) (hpos : pos' ≤ buffer.length)
    (hf : Follows (buffer.drop pos) calls (buffer.drop pos')) :
    (l.accept (written calls)).Balanced buffer pos' where
  pos_le := hpos
  appended := h.appended
  accepted := by
    have htake : buffer.take pos ++ written calls = buffer.take pos' := by
      have hsplit : buffer.take pos ++ written calls ++ buffer.drop pos' =
          buffer.take pos' ++ buffer.drop pos' := by
        rw [List.append_assoc, hf.written_append, List.take_append_drop, List.take_append_drop]
      exact List.append_cancel_right hsplit
    rw [Ledger.accept, h.accepted, List.append_assoc, htake]

/-- A conversation that leaves nothing empties the buffer. -/
theorem Balanced.finish (h : l.Balanced buffer pos) (hf : Follows (buffer.drop pos) calls []) :
    ((l.accept (written calls)).complete buffer).Balanced [] 0 where
  pos_le := Nat.le_refl 0
  appended := by
    rw [List.append_nil]
    exact h.appended
  accepted := by
    have hwritten : written calls = buffer.drop pos := by
      rw [← hf.written_append, List.append_nil]
    rw [complete, accept, hwritten, h.accepted, List.append_assoc, List.take_append_drop,
      List.take_nil, List.append_nil]

theorem Balanced.deliver [DecidableEq α] {buffer' : List α} (h : l.Balanced buffer pos)
    (hd : Delivers buffer pos calls buffer' pos') :
    ((l.accept (written calls)).complete (if buffer' = [] then buffer else [])).Balanced
      buffer' pos' := by
  cases hd with
  | part hpos hf =>
      have hkept : (l.accept (written calls)).complete (if buffer = [] then buffer else []) =
          l.accept (written calls) := by
        simp [complete, accept]
      rw [hkept]
      exact h.advance hpos hf
  | all hf =>
      rw [if_pos rfl]
      exact h.finish hf

/-- With an empty buffer everything appended has been accepted. -/
theorem Balanced.settled (h : l.Balanced [] pos) : l.accepted = l.appended := by
  rw [h.accepted, h.appended, List.take_nil]

end Ledger

end FiberConn
