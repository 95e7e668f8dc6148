import Mathlib.Data.Finmap

set_option autoImplicit false

/-! # `ThreadSafeMap` (`thread_safe_map.h`)

A locked `std::unordered_map`. The event loop is single-threaded, so the lock is not modelled; the
map itself is a `Finmap`, which is extensional like the source's map (no iteration order is ever
observed) and has the key set that `getSize` counts. -/

namespace FiberConn

universe u v

/-- The map behind the lock. -/
structure ThreadSafeMap (K : Type u) (V : Type v) where
  map : Finmap (fun _ : K => V)

namespace ThreadSafeMap

variable {K : Type u} {V : Type v}

instance : EmptyCollection (ThreadSafeMap K V) := ⟨⟨∅⟩⟩

/-- The keys present. -/
def keys (m : ThreadSafeMap K V) : Finset K := m.map.keys

/-- `getSize`. -/
def getSize (m : ThreadSafeMap K V) : ℕ := m.keys.card

variable [DecidableEq K]

/-- `insert`: `map_[key] = val`. -/
def insert (m : ThreadSafeMap K V) (key : K) (val : V) : ThreadSafeMap K V :=
  ⟨m.map.insert key val⟩

/-- `remove`: erase the entry if there is one. -/
def remove (m : ThreadSafeMap K V) (key : K) : ThreadSafeMap K V := ⟨m.map.erase key⟩

/-- `get`: the value that would be stored through the out-parameter, `none` for `false`. -/
def get (m : ThreadSafeMap K V) (key : K) : Option V := m.map.lookup key

variable {m : ThreadSafeMap K V} {k k' : K} {x : V}

@[simp] theorem get_empty : (∅ : ThreadSafeMap K V).get k = none := Finmap.lookup_empty k

@[simp] theorem get_insert_self : (m.insert k x).get k = some x := Finmap.lookup_insert _

theorem get_insert_of_ne (h : k' ≠ k) : (m.insert k x).get k' = m.get k' :=
  Finmap.lookup_insert_of_ne _ h

theorem get_insert : (m.insert k x).get k' = if k' = k then some x else m.get k' := by
  by_cases h : k' = k
  · subst h; simp
  · rw [if_neg h, get_insert_of_ne h]

@[simp] theorem get_remove_self : (m.remove k).get k = none := Finmap.lookup_erase _ _

theorem get_remove_of_ne (h : k' ≠ k) : (m.remove k).get k' = m.get k' :=
  Finmap.lookup_erase_ne h

theorem get_remove : (m.remove k).get k' = if k' = k then none else m.get k' := by
  by_cases h : k' = k
  · subst h; simp
  · rw [if_neg h, get_remove_of_ne h]

@[simp] theorem keys_insert : (m.insert k x).keys = Insert.insert k m.keys := by
  ext a
  simp [keys, insert, Finmap.mem_keys]

@[simp] theorem keys_remove : (m.remove k).keys = m.keys.erase k := Finmap.keys_erase _ _

theorem mem_keys_iff : k ∈ m.keys ↔ ∃ y, m.get k = some y := by
  rw [keys, Finmap.mem_keys, Finmap.mem_iff]
  rfl

theorem get_eq_none_iff : m.get k = none ↔ k ∉ m.keys := by
  rw [keys, Finmap.mem_keys]
  exact Finmap.lookup_eq_none

end ThreadSafeMap

end FiberConn
