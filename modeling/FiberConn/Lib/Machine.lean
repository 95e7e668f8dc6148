import Mathlib.Data.List.Basic

set_option autoImplicit false

/-! # Labelled machines and their runs

A `Machine` is a partial transition function with labels: every choice of the environment is in
the label, so `next` is a function and a run can be replayed by evaluation (`exec`). A `Run`
records the states it leaves together with the labels it takes, newest first, so that a law about
*every state reached* and a condition on *every step taken* can both be stated about one trace.

The rules a development uses:
* `Run.invariant` — an invariant kept by every step that satisfies a guard holds at the end of
  every run whose steps all satisfy the guard;
* `Run.law_iff_guard` — if, as long as a law has held so far, a step keeps it exactly when the
  guard holds, then a run keeps the law throughout exactly when all its steps satisfy the guard. -/

namespace FiberConn

variable {σ ℓ : Type*}

/-- Initial states and a partial transition function. -/
structure Machine (σ ℓ : Type*) where
  init : σ → Prop
  next : σ → ℓ → Option σ

namespace Machine

variable {M : Machine σ ℓ}

/-- Replay a list of labels. -/
def exec (M : Machine σ ℓ) : σ → List ℓ → Option σ
  | s, [] => some s
  | s, l :: ls => (M.next s l).bind fun t => M.exec t ls

/-- `M.Run tr s`: from an initial state the steps `tr` (newest first, each with the state it was
    taken in) lead to `s`. -/
inductive Run (M : Machine σ ℓ) : List (σ × ℓ) → σ → Prop
  | start {s : σ} (h : M.init s) : Run M [] s
  | step {tr : List (σ × ℓ)} {s t : σ} {l : ℓ} (h : Run M tr s) (hn : M.next s l = some t) :
      Run M ((s, l) :: tr) t

/-- Reachable by some run. -/
def Reachable (M : Machine σ ℓ) (s : σ) : Prop := ∃ tr, M.Run tr s

/-- `P` holds in every state of the run `tr` to `s`. -/
def Throughout (P : σ → Prop) (tr : List (σ × ℓ)) (s : σ) : Prop :=
  P s ∧ ∀ x ∈ tr, P x.1

/-- Every step of `tr` satisfies the guard. -/
def Guarded (G : σ → ℓ → Prop) (tr : List (σ × ℓ)) : Prop :=
  ∀ x ∈ tr, G x.1 x.2

theorem guarded_cons {G : σ → ℓ → Prop} {x : σ × ℓ} {tr : List (σ × ℓ)} :
    Guarded G (x :: tr) ↔ G x.1 x.2 ∧ Guarded G tr :=
  List.forall_mem_cons

theorem throughout_cons {P : σ → Prop} {s t : σ} {l : ℓ} {tr : List (σ × ℓ)} :
    Throughout P ((s, l) :: tr) t ↔ P t ∧ Throughout P tr s := by
  simp only [Throughout, List.forall_mem_cons]

theorem Reachable.start {s : σ} (h : M.init s) : M.Reachable s := ⟨[], .start h⟩

theorem Reachable.step {s t : σ} {l : ℓ} (h : M.Reachable s) (hn : M.next s l = some t) :
    M.Reachable t :=
  let ⟨_, hr⟩ := h
  ⟨_, .step hr hn⟩

/-- **Guarded invariants.** What holds initially and is kept by every step that satisfies `G`
    holds at the end of every run whose steps all satisfy `G`. -/
theorem Run.invariant {I : σ → Prop} {G : σ → ℓ → Prop} {tr : List (σ × ℓ)} {s : σ}
    (h : M.Run tr s) (hinit : ∀ s, M.init s → I s)
    (hstep : ∀ s l t, I s → G s l → M.next s l = some t → I t)
    (hG : Guarded G tr) : I s := by
  induction h with
  | start h => exact hinit _ h
  | step _ hn ih =>
      obtain ⟨hg, hrest⟩ := guarded_cons.1 hG
      exact hstep _ _ _ (ih hrest) hg hn

/-- The unguarded rule, for a reachable state. -/
theorem Reachable.invariant {I : σ → Prop} {s : σ} (h : M.Reachable s)
    (hinit : ∀ s, M.init s → I s) (hstep : ∀ s l t, I s → M.next s l = some t → I t) : I s :=
  let ⟨_, hr⟩ := h
  hr.invariant (G := fun _ _ => True) hinit (fun s l t hI _ hn => hstep s l t hI hn)
    fun _ _ => trivial

/-- Guarded invariants hold in every state of the run, not only in the last. -/
theorem Run.throughout {I : σ → Prop} {G : σ → ℓ → Prop} {tr : List (σ × ℓ)} {s : σ}
    (h : M.Run tr s) (hinit : ∀ s, M.init s → I s)
    (hstep : ∀ s l t, I s → G s l → M.next s l = some t → I t)
    (hG : Guarded G tr) : Throughout I tr s := by
  induction h with
  | start h => exact ⟨hinit _ h, by simp⟩
  | step hr hn ih =>
      obtain ⟨hg, hrest⟩ := guarded_cons.1 hG
      have hprev := ih hrest
      exact throughout_cons.2 ⟨hstep _ _ _ hprev.1 hg hn, hprev⟩

/-- **Exact guards.** `I` is what the proof knows while the law `P` holds. If `P` holds initially
    and each step from a state with `I` reaches a state with `P` exactly when the guard holds, then
    a run satisfies `P` throughout exactly when all its steps satisfy the guard. -/
theorem Run.law_iff_guard {I P : σ → Prop} {G : σ → ℓ → Prop} {tr : List (σ × ℓ)} {s : σ}
    (h : M.Run tr s) (hinit : ∀ s, M.init s → I s) (hIP : ∀ s, I s → P s)
    (hkeep : ∀ s l t, I s → G s l → M.next s l = some t → I t)
    (hbreak : ∀ s l t, I s → M.next s l = some t → P t → G s l) :
    Throughout P tr s ↔ Guarded G tr := by
  constructor
  · intro hP
    induction h with
    | start h => exact fun _ hx => absurd hx (by simp)
    | step hr hn ih =>
        obtain ⟨hPt, hrest⟩ := throughout_cons.1 hP
        have hG := ih hrest
        have hI := hr.invariant hinit hkeep hG
        exact guarded_cons.2 ⟨hbreak _ _ _ hI hn hPt, hG⟩
  · intro hG
    have hI := h.throughout hinit hkeep hG
    exact ⟨hIP _ hI.1, fun x hx => hIP _ (hI.2 x hx)⟩

theorem exec_append {s t : σ} {ls : List ℓ} (h : M.exec s ls = some t) (ls' : List ℓ) :
    M.exec s (ls ++ ls') = M.exec t ls' := by
  induction ls generalizing s with
  | nil =>
      obtain rfl : s = t := Option.some.inj h
      rfl
  | cons l ls ih =>
      obtain ⟨u, hu, hrest⟩ := Option.bind_eq_some_iff.1 h
      show (M.next s l).bind _ = _
      rw [hu]
      exact ih hrest

/-- Replaying labels from a reachable state gives a reachable state. -/
theorem Reachable.exec {s t : σ} {ls : List ℓ} (h : M.Reachable s) (he : M.exec s ls = some t) :
    M.Reachable t := by
  induction ls generalizing s with
  | nil =>
      obtain rfl : s = t := by simpa [Machine.exec] using he
      exact h
  | cons l ls ih =>
      obtain ⟨u, hu, hrest⟩ := Option.bind_eq_some_iff.1 he
      exact ih (h.step hu) hrest

/-! ## Assumptions about the whole run

An assumption `D` on the last state that, by `hback`, held in every state before it. -/

section Under

variable {D I P : σ → Prop} {G : σ → ℓ → Prop} {tr : List (σ × ℓ)} {s : σ}

theorem Run.invariant_under (h : M.Run tr s) (hD : D s)
    (hback : ∀ s l t, M.Reachable s → M.next s l = some t → D t → D s)
    (hinit : ∀ s, M.init s → I s)
    (hstep : ∀ s l t, M.Reachable s → D t → I s → G s l → M.next s l = some t → I t)
    (hG : Guarded G tr) : I s := by
  induction h with
  | start h => exact hinit _ h
  | step hr hn ih =>
      obtain ⟨hg, hrest⟩ := guarded_cons.1 hG
      have hDs := hback _ _ _ ⟨_, hr⟩ hn hD
      exact hstep _ _ _ ⟨_, hr⟩ hD (ih hDs hrest) hg hn

theorem Run.law_iff_guard_under (h : M.Run tr s) (hD : D s)
    (hback : ∀ s l t, M.Reachable s → M.next s l = some t → D t → D s)
    (hinit : ∀ s, M.init s → I s) (hIP : ∀ s, I s → P s)
    (hkeep : ∀ s l t, M.Reachable s → D t → I s → G s l → M.next s l = some t → I t)
    (hbreak : ∀ s l t, M.Reachable s → D t → I s → M.next s l = some t → P t → G s l) :
    Throughout P tr s ↔ Guarded G tr := by
  constructor
  · intro hP
    induction h with
    | start h => exact fun _ hx => absurd hx (by simp)
    | step hr hn ih =>
        obtain ⟨hPt, hrest⟩ := throughout_cons.1 hP
        have hDs := hback _ _ _ ⟨_, hr⟩ hn hD
        have hG := ih hDs hrest
        have hI := hr.invariant_under hDs hback hinit hkeep hG
        exact guarded_cons.2 ⟨hbreak _ _ _ ⟨_, hr⟩ hD hI hn hPt, hG⟩
  · intro hG
    induction h with
    | start h => exact ⟨hIP _ (hinit _ h), by simp⟩
    | step hr hn ih =>
        have hDs := hback _ _ _ ⟨_, hr⟩ hn hD
        have hI := (Run.step hr hn).invariant_under hD hback hinit hkeep hG
        exact throughout_cons.2 ⟨hIP _ hI, ih hDs (guarded_cons.1 hG).2⟩

end Under

/-! ## Restricting a machine to guarded steps -/

/-- The machine that refuses the steps outside the guard; its runs can be replayed by `exec`. -/
def restrict (M : Machine σ ℓ) (G : σ → ℓ → Prop) [∀ s l, Decidable (G s l)] : Machine σ ℓ where
  init := M.init
  next s l := if G s l then M.next s l else none

variable {G : σ → ℓ → Prop} [∀ s l, Decidable (G s l)]

/-- A run of the restricted machine is a run whose steps satisfy the guard. -/
theorem Run.of_restrict {tr : List (σ × ℓ)} {s : σ} (h : (M.restrict G).Run tr s) :
    M.Run tr s ∧ Guarded G tr := by
  induction h with
  | start h => exact ⟨.start h, fun _ hx => absurd hx (by simp)⟩
  | step _ hn ih =>
      simp only [restrict, Option.ite_none_right_eq_some] at hn
      exact ⟨.step ih.1 hn.2, guarded_cons.2 ⟨hn.1, ih.2⟩⟩

/-- Replaying labels under the guard gives a guarded run. -/
theorem exists_guarded_run {s t : σ} {ls : List ℓ} (h : M.init s)
    (he : (M.restrict G).exec s ls = some t) : ∃ tr, M.Run tr t ∧ Guarded G tr := by
  have hs : (M.restrict G).Reachable s := ⟨[], .start h⟩
  obtain ⟨tr, hr⟩ := hs.exec he
  exact ⟨tr, hr.of_restrict⟩

end Machine

end FiberConn
