import Mathlib

/-!
# Counts stored under an id

Several parties count, each under an id; a store keeps one row per id, with the largest count reported under it. It
holds what the parties counted in all exactly when no two of them use one id (`sum_eq_sum_iff_nodup`).
-/

namespace OpenVibes.Theory

open List

variable {ρ γ ι : Type*}

/-- The rows hold the largest of the counts under their id. -/
structure Tally (rows : List ρ) (row : ρ → ι × ℕ) (parties : List γ) (party : γ → ι × ℕ) : Prop where
  nodup : (rows.map fun r => (row r).1).Nodup
  covers : ∀ g ∈ parties, ∃ r ∈ rows, (row r).1 = (party g).1 ∧ (party g).2 ≤ (row r).2
  counted : ∀ r ∈ rows, ∃ g ∈ parties, (party g).1 = (row r).1 ∧ (row r).2 ≤ (party g).2
  pos : ∀ g ∈ parties, 0 < (party g).2

namespace Tally

variable {rows : List ρ} {row : ρ → ι × ℕ} {parties : List γ} {party : γ → ι × ℕ} {f : γ → ℕ}

theorem sum_eq_zero_iff (hpos : ∀ g ∈ parties, 0 < f g) : (parties.map f).sum = 0 ↔ parties = [] := by
  cases parties with
  | nil => simp
  | cons g gs =>
    have hg := hpos g mem_cons_self
    simp
    omega

/-- The largest of some positive counts is at most their sum, and is their sum only when there is one. -/
theorem le_sum_and_eq_iff {n : ℕ} {g : γ} (hg : g ∈ parties) (hle : ∀ x ∈ parties, f x ≤ n) (hn : n ≤ f g)
    (hpos : ∀ x ∈ parties, 0 < f x) : n ≤ (parties.map f).sum ∧ (n = (parties.map f).sum ↔ parties.length = 1) := by
  obtain ⟨pre, post, rfl⟩ := append_of_mem hg
  have hgn : f g = n := Nat.le_antisymm (hle g hg) hn
  have hpre : (pre.map f).sum = 0 ↔ pre = [] := sum_eq_zero_iff fun x hx => hpos x (mem_append_left _ hx)
  have hps : (post.map f).sum = 0 ↔ post = [] :=
    sum_eq_zero_iff fun x hx => hpos x (mem_append_right _ (mem_cons_of_mem _ hx))
  rw [← length_eq_zero_iff] at hpre hps
  simp only [map_append, map_cons, sum_append, sum_cons, length_append, length_cons]
  omega

variable [DecidableEq ι]

theorem sum_filter_add_sum_filter (parties : List γ) (p : γ → Bool) (f : γ → ℕ) :
    ((parties.filter p).map f).sum + ((parties.filter fun g => !p g).map f).sum = (parties.map f).sum := by
  induction parties with
  | nil => rfl
  | cons g gs ih =>
    cases hp : p g <;> simp [hp] <;> omega

/-- The ids of a list are distinct when the first is, and those of the rest are. -/
theorem nodup_iff_of_id (parties : List γ) (id : γ → ι) (i : ι) :
    (parties.map id).Nodup ↔
      (parties.filter fun g => id g = i).length ≤ 1 ∧ ((parties.filter fun g => !decide (id g = i)).map id).Nodup := by
  have hone : (parties.filter fun g => id g = i).length = (parties.map id).count i := by
    rw [count, countP_map, countP_eq_length_filter]
    rfl
  have hrs : ∀ j, ((parties.filter fun g => !decide (id g = i)).map id).count j =
      if j = i then 0 else (parties.map id).count j := by
    intro j
    simp only [count, countP_map, countP_filter]
    split_ifs with hj
    · exact countP_eq_zero.mpr (by simp [hj])
    · exact countP_congr fun g _ => by simpa using fun h => h ▸ hj
  simp only [nodup_iff_count_le_one, hone, hrs]
  refine ⟨fun h => ⟨h i, fun j => ?_⟩, fun ⟨hi, h⟩ j => ?_⟩
  · split_ifs
    · exact Nat.zero_le 1
    · exact h j
  · by_cases hj : j = i
    · exact hj ▸ hi
    · simpa [hj] using h j

theorem tail {r : ρ} (h : Tally (r :: rows) row parties party) :
    Tally rows row (parties.filter fun g => !decide ((party g).1 = (row r).1)) party where
  nodup := (nodup_cons.mp h.nodup).2
  covers := fun g hg => by
    obtain ⟨hg, hne⟩ := mem_filter.mp hg
    obtain ⟨r', hr', hid, hle⟩ := h.covers g hg
    rcases mem_cons.mp hr' with rfl | hr'
    · simp [hid] at hne
    · exact ⟨r', hr', hid, hle⟩
  counted := fun r' hr' => by
    obtain ⟨g, hg, hid, hle⟩ := h.counted r' (mem_cons_of_mem _ hr')
    have hne : (row r').1 ≠ (row r).1 := fun heq =>
      (nodup_cons.mp h.nodup).1 (mem_map.mpr ⟨r', hr', heq⟩)
    exact ⟨g, mem_filter.mpr ⟨hg, by simpa [hid] using hne⟩, hid, hle⟩
  pos := fun g hg => h.pos g (mem_filter.mp hg).1

/-- The rows hold at most what was counted, and all of it exactly when no two parties share an id. -/
theorem sum_le_and_eq_iff (h : Tally rows row parties party) :
    (rows.map fun r => (row r).2).sum ≤ (parties.map fun g => (party g).2).sum ∧
      ((rows.map fun r => (row r).2).sum = (parties.map fun g => (party g).2).sum ↔
        (parties.map fun g => (party g).1).Nodup) := by
  induction rows generalizing parties with
  | nil =>
    have hnil : parties = [] := eq_nil_iff_forall_not_mem.mpr fun g hg => by
      obtain ⟨r, hr, _⟩ := h.covers g hg
      cases hr
    subst hnil
    simp
  | cons r rows ih =>
    obtain ⟨hle, heq⟩ := ih h.tail
    obtain ⟨g, hg, hid, hgr⟩ := h.counted r mem_cons_self
    have hcov : ∀ x ∈ parties.filter (fun x => (party x).1 = (row r).1), (party x).2 ≤ (row r).2 := by
      intro x hx
      obtain ⟨hx, hxr⟩ := mem_filter.mp hx
      obtain ⟨r', hr', hxr', hle'⟩ := h.covers x hx
      have : r' = r := inj_on_of_nodup_map h.nodup hr' mem_cons_self (hxr'.trans (of_decide_eq_true hxr))
      exact this ▸ hle'
    have hmn := le_sum_and_eq_iff (f := fun x => (party x).2) (mem_filter.mpr ⟨hg, decide_eq_true hid⟩) hcov hgr
      fun x hx => h.pos x (mem_filter.mp hx).1
    have hpos : 0 < (parties.filter fun x => (party x).1 = (row r).1).length :=
      length_pos_of_mem (mem_filter.mpr ⟨hg, decide_eq_true hid⟩)
    rw [nodup_iff_of_id parties (fun g => (party g).1) (row r).1, ← heq,
      ← sum_filter_add_sum_filter parties (fun x => (party x).1 = (row r).1) fun x => (party x).2, map_cons,
      sum_cons]
    omega

/-- **The rows hold what was counted exactly when no two parties share an id.** -/
theorem sum_eq_sum_iff_nodup (h : Tally rows row parties party) :
    (rows.map fun r => (row r).2).sum = (parties.map fun g => (party g).2).sum ↔
      (parties.map fun g => (party g).1).Nodup :=
  h.sum_le_and_eq_iff.2

end Tally

/-- **Counts by key** add up, when every element that counts has one of the keys. -/
theorem sum_countP_key [DecidableEq ι] (key : γ → ι) {ks : List ι} (hks : ks.Nodup) {l : List γ}
    {p : γ → Bool} (hl : ∀ x ∈ l, p x = true → key x ∈ ks) :
    (ks.map fun k => l.countP fun x => key x = k && p x).sum = l.countP p := by
  induction ks generalizing p with
  | nil => exact (countP_eq_zero.mpr fun x hx hp => not_mem_nil (hl x hx hp)).symm
  | cons k ks ih =>
    obtain ⟨hk, hks⟩ := nodup_cons.mp hks
    have hrs : ∀ j ∈ ks, (l.countP fun x => key x = j && p x) = l.countP fun x => key x = j && (!decide
        (key x = k) && p x) := by
      intro j hj
      refine countP_congr fun x _ => ?_
      have hjk : j ≠ k := fun h => hk (h ▸ hj)
      aesop
    rw [map_cons, sum_cons, map_congr_left hrs, ih hks fun x hx hp => ?_]
    · rw [countP_eq_countP_filter_add l p fun x => key x = k, countP_filter, countP_filter]
      simp only [Bool.and_comm]
    · simp only [Bool.and_eq_true, Bool.not_eq_true', decide_eq_false_iff_not] at hp
      exact (mem_cons.mp (hl x hx hp.2)).resolve_left hp.1

end OpenVibes.Theory
