import Mathlib.Algebra.Order.Group.Multiset
import Mathlib.Tactic.Abel

set_option autoImplicit false

/-! # Resource pools

What a pool of reusable resources is for, without counters, threads or callbacks. Jobs arrive and
are granted a free resource or wait; a granted job holds its resource until it is finished; between
the job's end and the resource's return the resource is *settling* (its last user still looks at
it). The lists `submitted`, `queued`, `granted` and `finished` are histories, oldest first.

`Step` lists what a pool may do, and `Lawful` is what every pool that only does this satisfies:
members are never shared, no job is lost or duplicated, and the jobs that waited are granted in the
order in which they started to wait. -/

namespace FiberConn

variable {R J : Type*}

structure ResourcePool (R J : Type*) where
  members : List R
  free : List R
  held : Multiset (R × J)
  settling : Multiset (R × J)
  waiting : List J
  submitted : List J
  queued : List J
  granted : List J
  finished : List J

namespace ResourcePool

/-- The pool before its first member. -/
def empty : ResourcePool R J := ⟨[], [], 0, 0, [], [], [], [], []⟩

/-- What a pool may do. -/
inductive Step : ResourcePool R J → ResourcePool R J → Prop
  /-- A new resource joins. -/
  | join {p : ResourcePool R J} {r : R} (hnew : r ∉ p.members) :
      Step p { p with members := p.members ++ [r], free := p.free ++ [r] }
  /-- A new job gets the first free resource at once. -/
  | grant {p : ResourcePool R J} {r : R} {rest : List R} {j : J} (hfree : p.free = r :: rest)
      (hnew : j ∉ p.submitted) :
      Step p { p with
        free := rest, held := (r, j) ::ₘ p.held,
        submitted := p.submitted ++ [j], granted := p.granted ++ [j] }
  /-- A new job starts to wait. -/
  | defer {p : ResourcePool R J} {j : J} (hnew : j ∉ p.submitted) :
      Step p { p with
        waiting := p.waiting ++ [j], submitted := p.submitted ++ [j], queued := p.queued ++ [j] }
  /-- The job that waits longest gets the first free resource. -/
  | resume {p : ResourcePool R J} {r : R} {rest : List R} {j : J} {js : List J}
      (hfree : p.free = r :: rest) (hwaiting : p.waiting = j :: js) :
      Step p { p with
        free := rest, waiting := js, held := (r, j) ::ₘ p.held, granted := p.granted ++ [j] }
  /-- A job is done. -/
  | finish {p : ResourcePool R J} {r : R} {j : J} {rest : Multiset (R × J)}
      (hheld : p.held = (r, j) ::ₘ rest) :
      Step p { p with
        held := rest, settling := (r, j) ::ₘ p.settling, finished := p.finished ++ [j] }
  /-- Its resource is free again. -/
  | release {p : ResourcePool R J} {r : R} {j : J} {rest : Multiset (R × J)}
      (hsettling : p.settling = (r, j) ::ₘ rest) :
      Step p { p with settling := rest, free := p.free ++ [r] }

/-- The resources in use, each with the job it is used by. -/
def inUse (p : ResourcePool R J) : Multiset (R × J) := p.held + p.settling

/-- The laws of a pool. -/
structure Lawful [DecidableEq J] (p : ResourcePool R J) : Prop where
  members_nodup : p.members.Nodup
  /-- Every member is free or used by one job. -/
  members_eq : (p.members : Multiset R) = p.free + p.inUse.map Prod.fst
  submitted_nodup : p.submitted.Nodup
  /-- Every job submitted waits, holds a resource or is finished. -/
  submitted_eq : (p.submitted : Multiset J) = p.waiting + p.held.map Prod.snd + p.finished
  /-- The jobs granted a resource are those that do not wait. -/
  granted_eq : (p.granted : Multiset J) = p.held.map Prod.snd + p.finished
  settling_finished : ∀ x ∈ p.settling, x.2 ∈ p.finished
  queued_subset : ∀ j ∈ p.queued, j ∈ p.submitted
  /-- Jobs that waited are granted first come, first served. -/
  fifo : p.granted.filter (· ∈ p.queued) ++ p.waiting = p.queued

variable [DecidableEq J] {p p' : ResourcePool R J}

omit [DecidableEq J] in
theorem nodup_snoc {l : List J} {j : J} (h : l.Nodup) (hnew : j ∉ l) : (l ++ [j]).Nodup :=
  (List.perm_append_singleton j l).nodup_iff.2 (List.nodup_cons.2 ⟨hnew, h⟩)

theorem lawful_empty : Lawful (empty : ResourcePool R J) := by
  constructor <;> simp [empty, inUse]

namespace Lawful

theorem inUse_nodup (h : p.Lawful) : (p.inUse.map Prod.fst).Nodup := by
  have hle : p.inUse.map Prod.fst ≤ (p.members : Multiset R) :=
    h.members_eq ▸ Multiset.le_add_left _ _
  exact Multiset.nodup_of_le hle (Multiset.coe_nodup.2 h.members_nodup)

/-- A free resource is not in use. -/
theorem not_inUse_of_free (h : p.Lawful) {r : R} (hr : r ∈ p.free) (j : J) :
    (r, j) ∉ p.inUse := by
  intro hmem
  have hnd : ((p.free : Multiset R) + p.inUse.map Prod.fst).Nodup :=
    h.members_eq ▸ Multiset.coe_nodup.2 h.members_nodup
  exact Multiset.disjoint_left.1 (Multiset.nodup_add.1 hnd).2.2 (Multiset.mem_coe.2 hr)
    (Multiset.mem_map.2 ⟨_, hmem, rfl⟩)

/-- A resource in use is a member. -/
theorem mem_of_inUse (h : p.Lawful) {r : R} {j : J} (hr : (r, j) ∈ p.inUse) : r ∈ p.members := by
  have : r ∈ (p.free : Multiset R) + p.inUse.map Prod.fst :=
    Multiset.mem_add.2 (Or.inr (Multiset.mem_map.2 ⟨_, hr, rfl⟩))
  rwa [← h.members_eq, Multiset.mem_coe] at this

theorem mem_of_free (h : p.Lawful) {r : R} (hr : r ∈ p.free) : r ∈ p.members := by
  have : r ∈ (p.free : Multiset R) + p.inUse.map Prod.fst :=
    Multiset.mem_add.2 (Or.inl (Multiset.mem_coe.2 hr))
  rwa [← h.members_eq, Multiset.mem_coe] at this

/-- No resource serves two jobs. -/
theorem inUse_unique (h : p.Lawful) {r : R} {j j' : J} (hj : (r, j) ∈ p.inUse)
    (hj' : (r, j') ∈ p.inUse) : j = j' :=
  congrArg Prod.snd (Multiset.inj_on_of_nodup_map h.inUse_nodup _ hj _ hj' rfl)

theorem waiting_subset (h : p.Lawful) {j : J} (hj : j ∈ p.waiting) : j ∈ p.queued := by
  rw [← h.fifo]
  exact List.mem_append_right _ hj

theorem granted_subset (h : p.Lawful) {j : J} (hj : j ∈ p.granted) : j ∈ p.submitted := by
  have : j ∈ (p.submitted : Multiset J) := by
    rw [h.submitted_eq, add_assoc, ← h.granted_eq]
    exact Multiset.mem_add.2 (Or.inr (Multiset.mem_coe.2 hj))
  exact Multiset.mem_coe.1 this

theorem granted_nodup (h : p.Lawful) : p.granted.Nodup := by
  have hle : (p.granted : Multiset J) ≤ p.submitted := by
    rw [h.submitted_eq, add_assoc, ← h.granted_eq]
    exact Multiset.le_add_left _ _
  exact Multiset.coe_nodup.1 (Multiset.nodup_of_le hle (Multiset.coe_nodup.2 h.submitted_nodup))

/-- The three places a job can be in do not overlap. -/
theorem places_nodup (h : p.Lawful) :
    ((p.waiting : Multiset J) + p.held.map Prod.snd + p.finished).Nodup :=
  h.submitted_eq ▸ Multiset.coe_nodup.2 h.submitted_nodup

/-- Counting: a job submitted is in one of the three places, once. -/
theorem count_submitted (h : p.Lawful) (j : J) :
    p.waiting.count j + (p.held.map Prod.snd).count j + p.finished.count j
      = p.submitted.count j := by
  have := congrArg (Multiset.count j) h.submitted_eq
  simpa using this.symm

/-! ## Every step keeps the laws -/

/-- A job that was never submitted changes nothing in who waited before. -/
theorem filter_queued_of_new (h : p.Lawful) {j : J} (hnew : j ∉ p.submitted) :
    p.granted.filter (· ∈ p.queued ++ [j]) = p.granted.filter (· ∈ p.queued) := by
  refine List.filter_congr fun i hi => ?_
  have hne : i ≠ j := fun he => hnew (he ▸ h.granted_subset hi)
  simp [hne]

theorem step (h : p.Lawful) (hs : p.Step p') : p'.Lawful := by
  have hmembers := h.members_eq
  have hsubmitted := h.submitted_eq
  have hgranted := h.granted_eq
  -- the balance equations become sums of singletons, which `abel` compares
  cases hs with
  | @join r hnew =>
      exact { h with
        members_nodup := nodup_snoc h.members_nodup hnew
        members_eq := by
          simp only [← Multiset.coe_add, inUse] at hmembers ⊢
          rw [hmembers]
          abel }
  | @grant r rest j hfree hnew =>
      have hj : j ∉ p.queued := fun hj => hnew (h.queued_subset j hj)
      simp only [inUse, hfree, ← Multiset.cons_coe, ← Multiset.singleton_add] at hmembers
      exact { h with
        members_eq := by
          simp only [inUse, Multiset.map_add, Multiset.map_singleton, ← Multiset.singleton_add]
            at hmembers ⊢
          rw [hmembers]
          abel
        submitted_nodup := nodup_snoc h.submitted_nodup hnew
        submitted_eq := by
          simp only [← Multiset.coe_add, Multiset.map_add, Multiset.map_singleton,
            ← Multiset.singleton_add, Multiset.coe_singleton]
          rw [hsubmitted]
          abel
        granted_eq := by
          simp only [← Multiset.coe_add, Multiset.map_add, Multiset.map_singleton,
            ← Multiset.singleton_add, Multiset.coe_singleton]
          rw [hgranted]
          abel
        queued_subset := fun i hi => List.mem_append_left _ (h.queued_subset i hi)
        fifo := by simpa [hj] using h.fifo }
  | @defer j hnew =>
      exact { h with
        submitted_nodup := nodup_snoc h.submitted_nodup hnew
        submitted_eq := by
          simp only [← Multiset.coe_add]
          rw [hsubmitted]
          abel
        queued_subset := by
          intro i hi
          rcases List.mem_append.1 hi with hi | hi
          · exact List.mem_append_left _ (h.queued_subset i hi)
          · exact List.mem_append_right _ hi
        fifo := by
          show p.granted.filter (· ∈ p.queued ++ [j]) ++ (p.waiting ++ [j]) = p.queued ++ [j]
          rw [h.filter_queued_of_new hnew, ← List.append_assoc, h.fifo] }
  | @resume r rest j js hfree hwaiting =>
      have hj : j ∈ p.queued := h.waiting_subset (hwaiting ▸ List.mem_cons_self)
      simp only [inUse, hfree, ← Multiset.cons_coe, ← Multiset.singleton_add] at hmembers
      simp only [hwaiting, ← Multiset.cons_coe, ← Multiset.singleton_add] at hsubmitted
      exact { h with
        members_eq := by
          simp only [inUse, Multiset.map_add, Multiset.map_singleton, ← Multiset.singleton_add]
            at hmembers ⊢
          rw [hmembers]
          abel
        submitted_eq := by
          simp only [Multiset.map_add, Multiset.map_singleton, ← Multiset.singleton_add]
          rw [hsubmitted]
          abel
        granted_eq := by
          simp only [← Multiset.coe_add, Multiset.map_add, Multiset.map_singleton,
            ← Multiset.singleton_add, Multiset.coe_singleton]
          rw [hgranted]
          abel
        fifo := by
          have := h.fifo
          rw [hwaiting] at this
          simpa [List.filter_append, hj] using this }
  | @finish r j rest hheld =>
      simp only [inUse, hheld, Multiset.cons_add] at hmembers
      simp only [hheld, Multiset.map_add, Multiset.map_singleton, ← Multiset.singleton_add]
        at hsubmitted hgranted
      exact { h with
        members_eq := by
          simp only [inUse, Multiset.add_cons]
          exact hmembers
        submitted_eq := by
          simp only [← Multiset.coe_add, Multiset.coe_singleton]
          rw [hsubmitted]
          abel
        granted_eq := by
          simp only [← Multiset.coe_add, Multiset.coe_singleton]
          rw [hgranted]
          abel
        settling_finished := by
          intro x hx
          rcases Multiset.mem_cons.1 hx with rfl | hx
          · exact List.mem_append_right _ (List.mem_singleton_self _)
          · exact List.mem_append_left _ (h.settling_finished x hx) }
  | @release r j rest hsettling =>
      exact { h with
        members_eq := by
          simp only [inUse, hsettling, ← Multiset.coe_add, Multiset.map_add, Multiset.map_singleton,
            ← Multiset.singleton_add, Multiset.coe_singleton] at hmembers ⊢
          rw [hmembers]
          abel
        settling_finished := fun x hx =>
          h.settling_finished x (hsettling ▸ Multiset.mem_cons_of_mem hx) }

end Lawful

end ResourcePool

end FiberConn
