import Mathlib.Tactic

/-!
# Rights given through roles

A principal's rights are those of its roles. Someone who changes roles shares their own rights when every role that
anyone holds afterwards was held and gives no more, or gives no more than they have. Such changes, in whatever number,
give anyone only what they had and what the one who shares had (`rights_subset_of_shares`).
-/

namespace OpenVibes.Theory

variable {π ρ τ : Type*}

structure Grants (π ρ τ : Type*) where
  holds : π → Set ρ
  gives : ρ → Set τ

namespace Grants

def rights (g : Grants π ρ τ) (p : π) : Set τ := {t | ∃ r ∈ g.holds p, t ∈ g.gives r}

def Shares (e : π) (g g' : Grants π ρ τ) : Prop :=
  ∀ p, ∀ r ∈ g'.holds p, r ∈ g.holds p ∧ g'.gives r ⊆ g.gives r ∨ g'.gives r ⊆ g.rights e

variable {e p : π} {g g' : Grants π ρ τ}

theorem Shares.refl (e : π) (g : Grants π ρ τ) : Shares e g g := fun _ _ hr => .inl ⟨hr, subset_rfl⟩

theorem Shares.rights_subset (h : Shares e g g') (p : π) : g'.rights p ⊆ g.rights p ∪ g.rights e := by
  rintro t ⟨r, hr, ht⟩
  rcases h p r hr with ⟨hhd, hgiv⟩ | hgiv
  · exact .inl ⟨r, hhd, hgiv ht⟩
  · exact .inr (hgiv ht)

theorem Shares.rights_self (h : Shares e g g') : g'.rights e ⊆ g.rights e := by
  simpa using h.rights_subset e

/-- **Sharing gives nobody more than they had and the one who shares had**, however often. -/
theorem rights_subset_of_shares (h : Relation.ReflTransGen (Shares e) g g') :
    g'.rights e ⊆ g.rights e ∧ ∀ p, g'.rights p ⊆ g.rights p ∪ g.rights e := by
  induction h with
  | refl => exact ⟨subset_rfl, fun p => Set.subset_union_left⟩
  | tail _ hla ih =>
    obtain ⟨hsf, hall⟩ := ih
    refine ⟨hla.rights_self.trans hsf, fun p => (hla.rights_subset p).trans ?_⟩
    exact Set.union_subset (hall p) (hsf.trans Set.subset_union_right)

end Grants

end OpenVibes.Theory
