import FiberConn.Lib.Machine

set_option autoImplicit false

/-! # Machines inside machines

`abs` shows the state of a machine `N` in the state of a machine `M`, and each step of `M` is a step
of `N` or nothing for it. Then a run of `M` is a run of `N`:
* `Run.component` — some run of `N` leads to the same state, and all its steps satisfy a condition
  if those of `M` do;
* `Run.refines` — where `label` reads the step of `N` off a step of `M`, these steps are the run of
  `N`. The proof of a step may use an invariant of `M`, and what is known of the reachable states of
  `N`. -/

namespace FiberConn

namespace Machine

variable {σ ℓ τ κ : Type*} {M : Machine σ ℓ} {N : Machine τ κ} {tr : List (σ × ℓ)} {s : σ}

/-- **A part of a system runs its own program.** -/
theorem Run.component {G : σ → ℓ → Prop} {G' : τ → κ → Prop} (h : M.Run tr s)
    (abs : σ → τ) (hinit : ∀ s, M.init s → N.init (abs s))
    (hstep : ∀ s l t, M.next s l = some t → abs t = abs s ∨
      ∃ k, N.next (abs s) k = some (abs t) ∧ (G s l → G' (abs s) k)) :
    ∃ tr', N.Run tr' (abs s) ∧ (Guarded G tr → Guarded G' tr') := by
  induction h with
  | start h => exact ⟨[], .start (hinit _ h), fun _ => by simp [Guarded]⟩
  | step _ hn ih =>
      obtain ⟨tr', hr', hkept⟩ := ih
      obtain hsame | ⟨k, hn', hkeep⟩ := hstep _ _ _ hn
      · rw [hsame]
        exact ⟨tr', hr', fun hG => hkept (guarded_cons.1 hG).2⟩
      · refine ⟨_, .step hr' hn', fun hG => ?_⟩
        obtain ⟨hG, hrest⟩ := guarded_cons.1 hG
        exact guarded_cons.2 ⟨hkeep hG, hkept hrest⟩

/-- **Refinement.** The steps of `N` in a run of `M` are a run of `N`. -/
theorem Run.refines {I : σ → Prop} (h : M.Run tr s) (abs : σ → τ)
    (label : σ → ℓ → Option κ) (hinit : ∀ s, M.init s → N.init (abs s) ∧ I s)
    (hstep : ∀ s l t, I s → N.Reachable (abs s) → M.next s l = some t → I t ∧
      (∀ k, label s l = some k → N.next (abs s) k = some (abs t)) ∧
        (label s l = none → abs t = abs s)) :
    N.Run (tr.filterMap fun x => (label x.1 x.2).map fun k => (abs x.1, k)) (abs s) ∧ I s := by
  induction h with
  | start h => exact ⟨.start (hinit _ h).1, (hinit _ h).2⟩
  | @step tr s t l _ hn ih =>
      obtain ⟨hrun, hI⟩ := ih
      obtain ⟨ht, hsome, hnone⟩ := hstep s l t hI ⟨_, hrun⟩ hn
      refine ⟨?_, ht⟩
      rw [List.filterMap_cons]
      cases hl : label s l with
      | some k => exact hrun.step (hsome k hl)
      | none => exact (hnone hl).symm ▸ hrun

end Machine

end FiberConn
