import Mathlib.Tactic

/-!
# Runs of a step function

In a state, an action of one of several parties is possible and leads to a state, or is not possible. A run is a list of
actions that are each possible when they come; what every step preserves, every run preserves.
-/

namespace OpenVibes.Theory

variable {σ α : Type*}

theorem update_cases {κ β : Type*} [DecidableEq κ] {f : κ → β} {k j : κ} {v b : β} (h : Function.update f k v j = b) :
    j = k ∧ v = b ∨ j ≠ k ∧ f j = b := by
  by_cases hj : j = k
  · subst hj
    exact .inl ⟨rfl, (Function.update_self ..).symm.trans h⟩
  · exact .inr ⟨hj, (Function.update_of_ne hj ..).symm.trans h⟩

/-- The state after a list of actions; `none` when one of them is not possible. -/
def run (step : σ → α → Option σ) (s : σ) (as : List α) : Option σ := as.foldlM step s

variable {step : σ → α → Option σ}

@[simp] theorem run_nil (s : σ) : run step s [] = some s := rfl

variable {s : σ} {as : List α} {C : σ → α → Prop}

variable {s' : σ} {a : α} {I : σ → Prop}

theorem run_cons : run step s (a :: as) = some s' ↔ ∃ s₁, step s a = some s₁ ∧ run step s₁ as = some s' := by
  rw [run, List.foldlM_cons]
  exact Option.bind_eq_some_iff

theorem run_append {bs : List α} :
    run step s (as ++ bs) = some s' ↔ ∃ s₁, run step s as = some s₁ ∧ run step s₁ bs = some s' := by
  rw [run, List.foldlM_append]
  exact Option.bind_eq_some_iff

/-- Every step of a run is taken under a condition on the state it is taken in. -/
def StepsMeet (step : σ → α → Option σ) (C : σ → α → Prop) (s : σ) (as : List α) : Prop :=
  ∀ before a after s₁, as = before ++ a :: after → run step s before = some s₁ → C s₁ a

theorem stepsMeet_nil : StepsMeet step C s [] := fun before a after _ h => by
  simp at h

theorem stepsMeet_cons : StepsMeet step C s (a :: as) ↔ C s a ∧ ∀ s₁ ∈ step s a, StepsMeet step C s₁ as := by
  constructor
  · intro h
    refine ⟨h [] a as s rfl rfl, fun s₁ hs before b after s₂ has hrun => ?_⟩
    exact h (a :: before) b after s₂ (by rw [has, List.cons_append]) (run_cons.mpr ⟨s₁, hs, hrun⟩)
  rintro ⟨ha, has⟩ before b after s₂ heq hrun
  cases before with
  | nil =>
    obtain ⟨rfl, rfl⟩ := List.cons.inj heq
    cases hrun
    exact ha
  | cons c before =>
    obtain ⟨rfl, rfl⟩ := List.cons.inj heq
    obtain ⟨s₁, hs, hrun⟩ := run_cons.mp hrun
    exact has s₁ hs before b after s₂ rfl hrun

instance decidableStepsMeet {C : σ → α → Prop} [∀ s a, Decidable (C s a)] :
    ∀ (s : σ) (as : List α), Decidable (StepsMeet step C s as)
  | _, [] => isTrue stepsMeet_nil
  | _, _ :: as =>
    have : ∀ s₁, Decidable (StepsMeet step C s₁ as) := fun s₁ => decidableStepsMeet s₁ as
    decidable_of_iff _ stepsMeet_cons.symm

/-- **The invariant rule under a condition** that every step of the run meets. -/
theorem run_invariant_of (hst : ∀ s a s', I s → C s a → step s a = some s' → I s') (h : I s)
    (hC : StepsMeet step C s as) (hrun : run step s as = some s') : I s' := by
  induction as generalizing s with
  | nil =>
    cases hrun
    exact h
  | cons a as ih =>
    obtain ⟨s₁, hs₁, hrun⟩ := run_cons.mp hrun
    obtain ⟨ha, has⟩ := stepsMeet_cons.mp hC
    exact ih (hst s a s₁ h ha hs₁) (has s₁ hs₁) hrun

/-- **The invariant rule**: what every step preserves, every run preserves. -/
theorem run_invariant (hst : ∀ s a s', I s → step s a = some s' → I s') (h : I s) (hrun : run step s as = some s') :
    I s' :=
  run_invariant_of (C := fun _ _ => True) (fun s a s' hs _ => hst s a s' hs) h (fun _ _ _ _ _ _ => trivial) hrun

/-- What is seen of a run, when `see` says what each step shows. -/
def observe {β : Type*} (step : σ → α → Option σ) (see : σ → α → Option β) : σ → List α → List β
  | _, [] => []
  | s, a :: as => (see s a).toList ++ (step s a).elim [] fun s' => observe step see s' as

/-- **The invariant rule with what is seen** so far. -/
theorem run_observe {β : Type*} {see : σ → α → Option β} {I : σ → List β → Prop}
    (hst : ∀ s a s' log, I s log → step s a = some s' → I s' (log ++ (see s a).toList)) {log : List β} (h : I s log)
    (hrun : run step s as = some s') : I s' (log ++ observe step see s as) := by
  induction as generalizing s log with
  | nil =>
    cases hrun
    simpa [observe] using h
  | cons a as ih =>
    obtain ⟨s₁, hs₁, hrun⟩ := run_cons.mp hrun
    rw [observe, hs₁, ← List.append_assoc]
    exact ih (hst s a s₁ log h hs₁) hrun

end OpenVibes.Theory
