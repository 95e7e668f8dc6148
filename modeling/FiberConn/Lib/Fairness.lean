import FiberConn.Lib.Machine
import Mathlib.Data.Nat.Init
import Mathlib.Order.Nat

set_option autoImplicit false

/-! # Fair executions

An `Execution` goes on for ever, and at any time it may take no step. It gets anywhere only if what
is owed is paid: `owed s d` says that the debt `d` is open in the state `s`, `pays s l d` that the
step `l` pays it there, and an execution is `Fair` if every debt that is open at some time is paid
then or later. What a debt is, and so what is assumed of the world, is for the user to say.

* `Execution.settles` — if in every state short of `P` something is owed, and each payment
  decreases a measure that no other step increases, then `P` holds from some time on;
* `exists_fair` — if whatever is owed can be paid, there is a fair execution. -/

namespace FiberConn

namespace Machine

variable {σ ℓ δ : Type*} {M : Machine σ ℓ}

/-- The state after a step, or after none. -/
def after (M : Machine σ ℓ) (s : σ) : Option ℓ → Option σ
  | none => some s
  | some l => M.next s l

/-- An execution from `s`: the state at each time, and the step taken then, if any. -/
structure Execution (M : Machine σ ℓ) (s : σ) where
  state : ℕ → σ
  label : ℕ → Option ℓ
  start : state 0 = s
  step : ∀ i, M.after (state i) (label i) = some (state (i + 1))

namespace Execution

variable {s t : σ} {l : ℓ} {owed : σ → δ → Prop} {pays : σ → ℓ → δ → Prop} {D : ℓ → Prop}
  {P I : σ → Prop}

/-- Every debt is paid in the end. -/
def Fair (e : M.Execution s) (owed : σ → δ → Prop) (pays : σ → ℓ → δ → Prop) : Prop :=
  ∀ i d, owed (e.state i) d → ∃ j, i ≤ j ∧ ∃ l, e.label j = some l ∧ pays (e.state j) l d

/-- From some time on, no step is one of `D`. -/
def Finitely (e : M.Execution s) (D : ℓ → Prop) : Prop :=
  ∃ n, ∀ i, n ≤ i → ∀ l, e.label i = some l → ¬ D l

/-- From some time on, `P` holds. -/
def Settles (e : M.Execution s) (P : σ → Prop) : Prop := ∃ n, ∀ i, n ≤ i → P (e.state i)

/-! ## Along an execution -/

variable (e : M.Execution s)

theorem rests_or_steps (i : ℕ) : e.state (i + 1) = e.state i ∨
    ∃ l, e.label i = some l ∧ M.next (e.state i) l = some (e.state (i + 1)) := by
  have hstep := e.step i
  cases hl : e.label i with
  | none =>
      rw [hl] at hstep
      exact Or.inl (Option.some.inj hstep).symm
  | some l =>
      rw [hl] at hstep
      exact Or.inr ⟨l, rfl, hstep⟩

theorem step_of_label {i : ℕ} (hl : e.label i = some l) :
    M.next (e.state i) l = some (e.state (i + 1)) := by
  have hstep := e.step i
  rwa [hl] at hstep

/-- An invariant of the machine holds at all times. -/
theorem throughout (hI : I s) (hkeep : ∀ s l t, I s → M.next s l = some t → I t) (i : ℕ) :
    I (e.state i) := by
  induction i with
  | zero =>
      rw [e.start]
      exact hI
  | succ i ih =>
      rcases e.rests_or_steps i with hrest | ⟨l, -, hn⟩
      · rw [hrest]
        exact ih
      · exact hkeep _ _ _ ih hn

/-- What no step but one of `D` ends goes on once `D` is over. -/
theorem persists {n : ℕ} (hfree : ∀ i, n ≤ i → ∀ l, e.label i = some l → ¬ D l)
    (hI : ∀ i, I (e.state i))
    (hkeep : ∀ s l t, I s → P s → ¬ D l → M.next s l = some t → P t) {i j : ℕ} (hn : n ≤ i)
    (hij : i ≤ j) (hP : P (e.state i)) : P (e.state j) := by
  induction j, hij using Nat.le_induction with
  | base => exact hP
  | succ j hij ih =>
      rcases e.rests_or_steps j with hrest | ⟨l, hl, hnext⟩
      · rw [hrest]
        exact ih
      · exact hkeep _ _ _ (hI j) ih (hfree j (hn.trans hij) l hl) hnext

variable {e}

/-- **Progress under fairness.** An invariant `I` holds, `P` once reached is not left, and short of
    `P` something is owed. No step but one of `D` increases the measure, and a payment decreases
    it. Then a fair execution with finitely many steps of `D` settles in `P`. -/
theorem settles (hfair : e.Fair owed pays) (hfin : e.Finitely D) (hs : I s)
    (hkeep : ∀ s l t, I s → M.next s l = some t → I t)
    (hstable : ∀ s l t, I s → P s → ¬ D l → M.next s l = some t → P t)
    (howed : ∀ s, I s → ¬ P s → ∃ d, owed s d) (measure : σ → ℕ)
    (hle : ∀ s l t, I s → ¬ D l → M.next s l = some t → measure t ≤ measure s)
    (hlt : ∀ s l t d, I s → pays s l d → M.next s l = some t → measure t < measure s) :
    e.Settles P := by
  obtain ⟨n, hfree⟩ := hfin
  have hI := e.throughout hs hkeep
  have hmono {i j : ℕ} (hn : n ≤ i) (hij : i ≤ j) :
      measure (e.state j) ≤ measure (e.state i) :=
    e.persists (P := fun t => measure t ≤ measure (e.state i)) hfree hI
      (fun s l t hs hle' hD hn => (hle s l t hs hD hn).trans hle') hn hij le_rfl
  -- the measure decreases for as long as `P` does not hold
  have hreach (k : ℕ) : ∀ i, n ≤ i → measure (e.state i) = k → ∃ j, n ≤ j ∧ P (e.state j) := by
    induction k using Nat.strongRecOn with
    | ind k ih =>
        rintro i hn rfl
        by_cases hP : P (e.state i)
        · exact ⟨i, hn, hP⟩
        obtain ⟨d, hd⟩ := howed _ (hI i) hP
        obtain ⟨j, hij, l, hl, hpays⟩ := hfair i d hd
        have hdrop := hlt _ _ _ d (hI j) hpays (e.step_of_label hl)
        have hstep := hdrop.trans_le (hmono hn hij)
        exact ih _ hstep (j + 1) (hn.trans (Nat.le_succ_of_le hij)) rfl
  obtain ⟨j, hn, hP⟩ := hreach _ n le_rfl rfl
  exact ⟨j, fun i hij => e.persists hfree hI hstable hn hij hP⟩

/-! ## Making executions -/

/-- Nothing happens any more. -/
def idle (M : Machine σ ℓ) (s : σ) : M.Execution s := ⟨fun _ => s, fun _ => none, rfl, fun _ => rfl⟩

/-- One step, and then an execution. -/
def cons (hn : M.next s l = some t) (e : M.Execution t) : M.Execution s where
  state
    | 0 => s
    | i + 1 => e.state i
  label
    | 0 => some l
    | i + 1 => e.label i
  start := rfl
  step
    | 0 => hn.trans (congrArg some e.start.symm)
    | i + 1 => e.step i

theorem fair_idle (h : ∀ d, ¬ owed s d) : (idle M s).Fair owed pays :=
  fun _ d hd => absurd hd (h d)

/-- The step pays its state's debts or leaves them open. -/
theorem Fair.cons {e : M.Execution t} (h : e.Fair owed pays) (hn : M.next s l = some t)
    (hkeep : ∀ d, owed s d → pays s l d ∨ owed t d) : (cons hn e).Fair owed pays := by
  have hlater {i : ℕ} {d : δ} (hd : owed (e.state i) d) : ∃ j, i ≤ j ∧ ∃ l',
      (Execution.cons hn e).label (j + 1) = some l' ∧
        pays ((Execution.cons hn e).state (j + 1)) l' d := h i d hd
  rintro (_ | i) d hd
  · rcases hkeep d hd with hpays | hopen
    · exact ⟨0, le_rfl, l, rfl, hpays⟩
    · rw [← e.start] at hopen
      obtain ⟨j, -, hj⟩ := hlater hopen
      exact ⟨j + 1, Nat.zero_le _, hj⟩
  · obtain ⟨j, hij, hj⟩ := hlater hd
    exact ⟨j + 1, Nat.succ_le_succ hij, hj⟩

theorem Finitely.cons {e : M.Execution t} (h : e.Finitely D) (hn : M.next s l = some t) :
    (cons hn e).Finitely D := by
  obtain ⟨n, hfree⟩ := h
  refine ⟨n + 1, ?_⟩
  rintro (_ | i) hi
  · exact absurd hi (Nat.not_succ_le_zero n)
  · exact hfree i (Nat.le_of_succ_le_succ hi)

theorem settles_cons {e : M.Execution t} (hn : M.next s l = some t) :
    (cons hn e).Settles P ↔ e.Settles P := by
  constructor
  · rintro ⟨n, hP⟩
    exact ⟨n, fun i hi => hP (i + 1) (Nat.le_succ_of_le hi)⟩
  · rintro ⟨n, hP⟩
    refine ⟨n + 1, ?_⟩
    rintro (_ | i) hi
    · exact absurd hi (Nat.not_succ_le_zero n)
    · exact hP i (Nat.le_of_succ_le_succ hi)

end Execution

variable {s t : σ} {owed : σ → δ → Prop} {pays : σ → ℓ → δ → Prop} {D : ℓ → Prop} {P I : σ → Prop}

/-- A run to a state in which nothing is owed is a fair execution that ends there. -/
theorem exists_fair_exec {ls : List ℓ} (he : M.exec s ls = some t) (hs : I s)
    (hkeep : ∀ s l t, I s → M.next s l = some t → I t ∧ ∀ d, owed s d → pays s l d ∨ owed t d)
    (hnone : ∀ d, ¬ owed t d) : ∃ e : M.Execution s,
      e.Fair owed pays ∧ e.Finitely D ∧ (e.Settles P ↔ P t) := by
  induction ls generalizing s with
  | nil =>
      obtain rfl : s = t := Option.some.inj he
      refine ⟨.idle M s, Execution.fair_idle hnone, ⟨0, fun _ _ _ hl => nomatch hl⟩, ?_⟩
      exact ⟨fun ⟨n, hP⟩ => hP n le_rfl, fun hP => ⟨0, fun _ _ => hP⟩⟩
  | cons l ls ih =>
      obtain ⟨u, hn, he⟩ := Option.bind_eq_some_iff.1 he
      obtain ⟨hu, hdebts⟩ := hkeep s l u hs hn
      obtain ⟨e, hfair, hfin, hsettles⟩ := ih he hu
      exact ⟨.cons hn e, hfair.cons hn hdebts, hfin.cons hn,
        (Execution.settles_cons hn).trans hsettles⟩

/-- **Fairness can be met.** If whatever is owed allows a step that decreases a measure, and no step
    but a payment ends a debt, there is a fair execution with finitely many steps of `D`. -/
theorem exists_fair (measure : σ → ℕ) (hs : I s)
    (hkeep : ∀ s l t, I s → M.next s l = some t → I t ∧ ∀ d, owed s d → pays s l d ∨ owed t d)
    (hmore : ∀ s d, I s → owed s d → ∃ l t, M.next s l = some t ∧ measure t < measure s) :
    ∃ e : M.Execution s, e.Fair owed pays ∧ e.Finitely D := by
  have hrun (k : ℕ) : ∀ s, I s → measure s = k →
      ∃ ls t, M.exec s ls = some t ∧ ∀ d, ¬ owed t d := by
    induction k using Nat.strongRecOn with
    | ind k ih =>
        rintro s hs rfl
        by_cases hopen : ∃ d, owed s d
        · obtain ⟨d, hd⟩ := hopen
          obtain ⟨l, u, hn, hlt⟩ := hmore s d hs hd
          obtain ⟨ls, t, he, hnone⟩ := ih _ hlt u (hkeep s l u hs hn).1 rfl
          exact ⟨l :: ls, t, Option.bind_eq_some_iff.2 ⟨u, hn, he⟩, hnone⟩
        · exact ⟨[], s, rfl, not_exists.1 hopen⟩
  obtain ⟨ls, t, he, hnone⟩ := hrun _ s hs rfl
  obtain ⟨e, hfair, hfin, -⟩ := exists_fair_exec (P := fun _ => True) he hs hkeep hnone
  exact ⟨e, hfair, hfin⟩

end Machine

end FiberConn
