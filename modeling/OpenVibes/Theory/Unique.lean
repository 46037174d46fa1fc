import OpenVibes.Theory.Commits

/-!
# Unique indexes

Two rows clash when a unique index has the same entry for both. A write (`Cells.check`) waits for a transaction that
holds a row with which it would clash, now or if that fails, and is refused if one clashes: no rows clash
(`Cells.Apart`).
-/

namespace OpenVibes.Theory

namespace Cells

variable {τ κ ρ : Type*} [DecidableEq τ] [DecidableEq κ]

inductive Check where
  | wait
  | clash
  | pass
deriving DecidableEq

/-- The row `v` of `k` against the other rows, which have the keys `keys`. -/
def check (clashes : ρ → ρ → Bool) (keys : List κ) (t : τ) (k : κ) (v : ρ) (cells : Cells τ κ (Option ρ)) : Check :=
  if keys.any fun j => j ≠ k && !(cells j).free t &&
      ((cells j).committed.any (clashes v) || (cells j).latest.any (clashes v)) then .wait
  else if keys.any fun j => j ≠ k && ((cells j).view t).any (clashes v) then .clash
  else .pass

structure Apart (clashes : ρ → ρ → Bool) (cells : Cells τ κ (Option ρ)) : Prop where
  committed : ∀ {i j a b}, i ≠ j → (cells i).committed = some a → (cells j).committed = some b → clashes a b = false
  /-- What a transaction has written, with what it sees and with what was written last. -/
  own : ∀ {t i j old a b}, i ≠ j → (cells i).own t = some (old, some a) →
    ((cells j).view t = some b ∨ (cells j).latest = some b) → clashes a b = false

variable {clashes : ρ → ρ → Bool} {keys : List κ} {t : τ} {k : κ} {v : ρ} {cells : Cells τ κ (Option ρ)}

omit [DecidableEq κ] in
theorem Apart.settled (hsy : ∀ a b, clashes a b = clashes b a) (h : Apart clashes cells) {i j : κ} (hij : i ≠ j)
    (hhd : (cells i).held = none) {a b : ρ} (ha : (cells i).committed = some a)
    (hb : (cells j).view t = some b ∨ (cells j).latest = some b) : clashes a b = false := by
  have hvw : ∀ u, (cells i).view u = some a := by
    intro u
    rw [Cell.view, Cell.own, hhd]
    exact ha
  have hown : ∀ {u old}, (cells j).own u = some (old, some b) → clashes a b = false := by
    intro u old hj
    rw [hsy]
    exact h.own (.symm hij) hj (.inl (hvw u))
  rcases hb with hb | hb
  · cases hj : (cells j).own t with
    | none => exact h.committed hij ha ((Cell.view_of_none hj).symm.trans hb)
    | some p =>
      obtain ⟨old, new⟩ := p
      obtain rfl : new = some b := (Cell.view_of_own hj).symm.trans hb
      exact hown hj
  rw [Cell.latest] at hb
  cases hj : (cells j).held with
  | none =>
    rw [hj] at hb
    exact h.committed hij ha hb
  | some p =>
    obtain ⟨u, new⟩ := p
    rw [hj] at hb
    obtain rfl : new = some b := hb
    exact hown (Cell.own_iff.mpr ⟨rfl, hj⟩)

/-- **A row that passes** clashes with nothing that the transaction sees or that was written last. -/
theorem check_pass (hky : ∀ j, j ∉ keys → cells j = Cell.settled none) (h : cells.check clashes keys t k v = .pass)
    {j : κ} (hj : j ≠ k) {b : ρ} (hb : (cells j).view t = some b ∨ (cells j).latest = some b) : clashes v b = false :=
        by
  have hmem : j ∈ keys := by
    by_contra hnot
    rw [hky j hnot] at hb
    rcases hb with hb | hb <;> cases hb
  rw [check] at h
  split_ifs at h with hwt hcls
  have hvw : ((cells j).view t).any (clashes v) = false := by
    by_contra hany
    exact hcls (List.any_eq_true.mpr ⟨j, hmem, by simpa [hj] using hany⟩)
  have hsee : ∀ b, (cells j).view t = some b → clashes v b = false := by
    intro b hb
    rw [hb] at hvw
    exact hvw
  rcases hb with hb | hb
  · exact hsee b hb
  cases hfr : (cells j).free t with
  | true =>
    rw [Cell.latest_of_free hfr] at hb
    exact hsee b hb
  | false =>
    by_contra hany
    have hcla : clashes v b = true := by simpa using hany
    refine hwt (List.any_eq_true.mpr ⟨j, hmem, ?_⟩)
    simp [hj, hfr, hb, hcla]

theorem Apart.write (hsy : ∀ a b, clashes a b = clashes b a) (hky : ∀ j, j ∉ keys → cells j = Cell.settled none)
    (h : Apart clashes cells) (hfr : (cells k).free t = true) (hps : cells.check clashes keys t k v = .pass) :
    Apart clashes (cells.write t k (some v)) where
  committed hij ha hb := by
    rw [committed_write] at ha hb
    exact h.committed hij ha hb
  own {u i j old a b} hij ha hb := by
    rcases own_write_cases hfr ha with ⟨rfl, rfl, heq⟩ | ha
    · cases heq
      rw [write_of_ne (Ne.symm hij)] at hb
      exact check_pass hky hps (.symm hij) hb
    have hlat : (cells i).latest = some a := by rw [Cell.latest, (Cell.own_iff.mp ha).2]; rfl
    have hnew : j = k → some v = some b → clashes a b = false := by
      rintro rfl heq
      rw [← Option.some.inj heq, hsy]
      exact check_pass hky hps hij (.inr hlat)
    rw [view_write hfr, latest_write] at hb
    rcases hb with hb | hb
    · split_ifs at hb with hj
      · exact hnew hj.1 hb
      · exact h.own hij ha (.inl hb)
    · split_ifs at hb with hj
      · exact hnew hj hb
      · exact h.own hij ha (.inr hb)

theorem Apart.keep (hsy : ∀ a b, clashes a b = clashes b a) (h : Apart clashes cells) (hfr : (cells k).free t = true)
    (hvw : (cells k).view t = some v) : Apart clashes (cells.write t k (some v)) := by
  have hvw' : ∀ u j, (cells.write t k (some v) j).view u = (cells j).view u := by
    intro u j
    rw [view_write hfr]
    split_ifs with hj
    · rw [hj.1, hj.2, hvw]
    · rfl
  have hlat : ∀ j, (cells.write t k (some v) j).latest = (cells j).latest := by
    intro j
    rw [latest_write]
    split_ifs with hj
    · rw [hj, Cell.latest_of_free hfr, hvw]
    · rfl
  refine ⟨fun hij ha hb => ?_, fun {u i j old a b} hij ha hb => ?_⟩
  · rw [committed_write] at ha hb
    exact h.committed hij ha hb
  rw [hvw', hlat] at hb
  rcases own_write_cases hfr ha with ⟨rfl, rfl, heq⟩ | ha
  · cases heq
    cases hi : (cells i).own u with
    | some p =>
      obtain ⟨old, new⟩ := p
      rw [Cell.view_of_own hi] at hvw
      obtain rfl : new = some v := hvw
      exact h.own hij hi hb
    | none =>
      rcases Cell.free_cases hfr with ⟨p, hp⟩ | hhd
      · rw [hi] at hp
        cases hp
      · exact h.settled hsy hij hhd ((Cell.view_of_none hi).symm.trans hvw) hb
  · exact h.own hij ha hb

theorem Apart.erase (h : Apart clashes cells) (hfr : (cells k).free t = true) :
    Apart clashes (cells.write t k none) where
  committed hij ha hb := by
    rw [committed_write] at ha hb
    exact h.committed hij ha hb
  own {u i j old a b} hij ha hb := by
    rcases own_write_cases hfr ha with ⟨-, -, heq⟩ | ha
    · cases heq
    refine h.own hij ha ?_
    rw [view_write hfr, latest_write] at hb
    rcases hb with hb | hb
    · split_ifs at hb
      exact .inl hb
    · split_ifs at hb
      exact .inr hb

omit [DecidableEq κ] in
theorem latest_commit (t : τ) (cells : Cells τ κ (Option ρ)) (k : κ) : (cells.commit t k).latest = (cells k).latest :=
    by
  rw [commit]
  cases hown : (cells k).own t with
  | none => rw [Cell.commit_of_none hown]
  | some p =>
    rw [Cell.commit_of_own hown, Cell.latest, Cell.latest, (Cell.own_iff.mp hown).2]
    rfl

omit [DecidableEq κ] in
theorem Apart.commit (hsy : ∀ a b, clashes a b = clashes b a) (h : Apart clashes cells) (t : τ) :
    Apart clashes (cells.commit t) where
  committed {i j a b} hij ha hb := by
    rw [Cells.commit, Cell.committed_commit] at ha hb
    cases hi : (cells i).own t with
    | some p =>
      obtain ⟨old, new⟩ := p
      rw [Cell.view_of_own hi] at ha
      obtain rfl : new = some a := ha
      exact h.own hij hi (.inl hb)
    | none =>
      cases hj : (cells j).own t with
      | some p =>
        obtain ⟨old, new⟩ := p
        rw [Cell.view_of_own hj] at hb
        obtain rfl : new = some b := hb
        rw [hsy]
        exact h.own (.symm hij) hj (.inl ha)
      | none =>
        rw [Cell.view_of_none hi] at ha
        rw [Cell.view_of_none hj] at hb
        exact h.committed hij ha hb
  own {u i j old a b} hij ha hb := by
    obtain ⟨hu, ha⟩ := Cell.own_commit_eq_some_iff.mp ha
    rcases hb with hb | hb
    · rcases Cell.view_commit hu (cells j) with heq | ⟨-, heq⟩
      · exact h.own hij ha (.inl (heq.symm.trans hb))
      -- What the committing transaction sees: its own row, or a committed one, which the other sees too.
      have hvw : (cells j).view t = some b := heq.symm.trans hb
      cases hj : (cells j).own t with
      | none =>
        rw [Cells.commit, Cell.commit_of_none hj] at hb
        exact h.own hij ha (.inl hb)
      | some p =>
        refine h.own hij ha (.inr ?_)
        rw [Cell.view_of_own hj] at hvw
        rw [Cell.latest, (Cell.own_iff.mp hj).2]
        exact hvw
    · rw [latest_commit] at hb
      exact h.own hij ha (.inr hb)

omit [DecidableEq κ] in
theorem Apart.abort (h : Apart clashes cells) (t : τ) : Apart clashes (cells.abort t) where
  committed hij ha hb := by
    rw [Cells.abort, Cell.committed_abort] at ha hb
    exact h.committed hij ha hb
  own {u i j old a b} hij ha hb := by
    obtain ⟨hu, ha⟩ := Cell.own_abort_eq_some_iff.mp ha
    rcases hb with hb | hb
    · rw [Cells.abort, Cell.view_abort hu] at hb
      exact h.own hij ha (.inl hb)
    cases hj : (cells j).own t with
    | none =>
      rw [Cells.abort, Cell.abort_of_own_none hj] at hb
      exact h.own hij ha (.inr hb)
    | some p =>
      -- The row is as it was committed, which is what the other saw of it.
      rw [Cells.abort, Cell.abort_of_own hj, ← Cell.committed_of_own hj] at hb
      refine h.own hij ha (.inl ?_)
      rw [Cell.view_of_none (Cell.own_none_of_ne hu hj)]
      exact hb

end Cells

end OpenVibes.Theory
