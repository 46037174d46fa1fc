import Mathlib.Tactic

/-!
# Computations that can fail

A function that can refuse is a chain of steps of which each can refuse, and a loop over a list that can refuse is
`mapM`. A result comes from results of all the steps.
-/

namespace OpenVibes.Theory

open List

theorem bind_eq_ok {ε α β : Type} {x : Except ε α} {f : α → Except ε β} {b : β} (h : x >>= f = .ok b) :
    ∃ a, x = .ok a ∧ f a = .ok b := by
  cases x with
  | error e => cases h
  | ok a => exact ⟨a, rfl, h⟩

section

variable {α β : Type} {f : α → Option β} {xs : List α} {ys : List β}

theorem forall₂_of_mapM (h : xs.mapM f = some ys) : List.Forall₂ (fun x y => f x = some y) xs ys := by
  induction xs generalizing ys with
  | nil =>
    obtain rfl : [] = ys := by simpa using h
    exact .nil
  | cons x xs ih =>
    simp only [mapM_cons, Option.bind_eq_bind, Option.bind_eq_some_iff, Option.pure_def, Option.some.injEq] at h
    obtain ⟨y, hy, rest, hrs, rfl⟩ := h
    exact .cons hy (ih hrs)

theorem mem_zip_of_forall₂ {R : α → β → Prop} (h : List.Forall₂ R xs ys) {x : α} (hx : x ∈ xs) :
    ∃ y, (y, x) ∈ ys.zip xs ∧ R x y := by
  induction h with
  | nil => cases hx
  | cons hxy _ ih =>
    rcases mem_cons.mp hx with rfl | hx
    · exact ⟨_, mem_cons_self, hxy⟩
    · obtain ⟨y, hy, hR⟩ := ih hx
      exact ⟨y, mem_cons_of_mem _ hy, hR⟩

theorem exists_of_mem_mapM (h : xs.mapM f = some ys) {y : β} (hy : y ∈ ys) : ∃ x ∈ xs, f x = some y := by
  obtain ⟨x, hzip, hf⟩ := mem_zip_of_forall₂ (forall₂_of_mapM h).flip hy
  exact ⟨x, (of_mem_zip hzip).1, hf⟩

theorem mapM_eq_some_of_forall {g : α → β} (h : ∀ x ∈ xs, f x = some (g x)) : xs.mapM f = some (xs.map g) := by
  induction xs with
  | nil => rfl
  | cons x xs ih =>
    rw [mapM_cons, h x mem_cons_self, ih fun y hy => h y (mem_cons_of_mem _ hy)]
    rfl

end

end OpenVibes.Theory
