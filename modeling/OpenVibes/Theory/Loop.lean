import Mathlib.Tactic

/-!
# While loops

A `while` loop as a step on the variables it changes: a turn goes round again with new values (`Sum.inl`) or leaves with
a result (`Sum.inr`). `loop step n s` runs at most `n` turns. A loop whose turns make a measure smaller always leaves
(`loop_eq_some_runLoop`); what it computes is proved by `runLoop_rule`.
-/

namespace OpenVibes.Theory

variable {σ ρ : Type*} {step : σ → σ ⊕ ρ} {μ : σ → ℕ}

/-- At most `n` turns of the loop; `none` if it is still going round then. -/
def loop (step : σ → σ ⊕ ρ) : ℕ → σ → Option ρ
  | 0, _ => none
  | n + 1, s =>
    match step s with
    | .inl s' => loop step n s'
    | .inr r => some r

/-- Every turn that goes round again makes the measure smaller. -/
def Decreases (step : σ → σ ⊕ ρ) (μ : σ → ℕ) : Prop := ∀ s s', step s = .inl s' → μ s' < μ s

theorem loop_isSome (h : Decreases step μ) : ∀ (n : ℕ) (s : σ), μ s < n → (loop step n s).isSome := by
  intro n
  induction n with
  | zero => intro s hs; omega
  | succ n ih =>
    intro s hs
    simp only [loop]
    cases hst : step s with
    | inl s' => exact ih s' (by have := h s s' hst; omega)
    | inr r => rfl

theorem loop_eq_of_lt (h : Decreases step μ) :
    ∀ (n m : ℕ) (s : σ), μ s < n → μ s < m → loop step n s = loop step m s := by
  intro n
  induction n with
  | zero => intro m s hs; omega
  | succ n ih =>
    intro m s hs hm
    obtain ⟨m, rfl⟩ : ∃ k, m = k + 1 := ⟨m - 1, by omega⟩
    simp only [loop]
    cases hst : step s with
    | inl s' =>
      have := h s s' hst
      exact ih m s' (by omega) (by omega)
    | inr r => rfl

/-- The result of a loop whose turns make a measure smaller. -/
def runLoop (step : σ → σ ⊕ ρ) (μ : σ → ℕ) (h : Decreases step μ) (s : σ) : ρ :=
  (loop step (μ s + 1) s).get (loop_isSome h _ _ (Nat.lt_succ_self _))

variable {h : Decreases step μ} {s : σ}

/-- **Termination**: with more turns than the measure the loop leaves, with its result. -/
theorem loop_eq_some_runLoop {n : ℕ} (hn : μ s < n) : loop step n s = some (runLoop step μ h s) := by
  rw [runLoop, Option.some_get]
  exact loop_eq_of_lt h n _ s hn (Nat.lt_succ_self _)

theorem runLoop_inr {r : ρ} (hs : step s = .inr r) : runLoop step μ h s = r := by
  apply Option.some_injective
  rw [← loop_eq_some_runLoop (Nat.lt_succ_self _)]
  simp [loop, hs]

theorem runLoop_inl {s s' : σ} (hs : step s = .inl s') : runLoop step μ h s = runLoop step μ h s' := by
  apply Option.some_injective
  rw [← loop_eq_some_runLoop (Nat.lt_succ_self _), ← loop_eq_some_runLoop (h s s' hs)]
  simp [loop, hs]

/-- **The rule of loops**: what holds when the loop leaves, and holds before a turn if it holds after it, holds of the
loop. -/
theorem runLoop_rule (P : σ → ρ → Prop) (exit : ∀ s r, step s = .inr r → P s r)
    (turn : ∀ s s' r, step s = .inl s' → P s' r → P s r) (s : σ) :
    P s (runLoop step μ h s) := by
  induction hn : μ s using Nat.strongRecOn generalizing s with
  | _ n ih =>
    cases hst : step s with
    | inl s' =>
      rw [runLoop_inl hst]
      exact turn s s' _ hst (ih (μ s') (hn ▸ h s s' hst) s' rfl)
    | inr r =>
      rw [runLoop_inr hst]
      exact exit s r hst

end OpenVibes.Theory
