import Mathlib.Tactic

/-!
# Rows under locks

A table at READ COMMITTED. A row has its committed version, and, while a transaction holds its lock, the version which
that has written. A transaction sees its own versions and otherwise what is committed; a write waits until no other
transaction holds the row. A row's number is its place. A row whose insertion was rolled back has no version.
-/

namespace OpenVibes.Theory

open List Option

variable {τ ρ : Type*}

structure Versioned (τ ρ : Type*) where
  /-- The committed version; none before its insertion is committed. -/
  committed : Option ρ
  /-- The transaction that holds the lock, and its version. -/
  pending : Option (τ × ρ)

variable {t : τ} {r : Versioned τ ρ} {v : ρ}

namespace Versioned

def Free (t : τ) (r : Versioned τ ρ) : Prop := ∀ holder ∈ r.pending.map Prod.fst, holder = t

instance [DecidableEq τ] (t : τ) (r : Versioned τ ρ) : Decidable (r.Free t) :=
  match h : r.pending.map Prod.fst with
  | none => isTrue fun holder hm => by rw [h] at hm; cases hm
  | some holder =>
    if heq : holder = t then isTrue fun other hm => by rw [h] at hm; exact Option.some.inj hm ▸ heq
    else isFalse fun hfr => heq (hfr holder (by rw [h]; rfl))

def write (t : τ) (v : ρ) (r : Versioned τ ρ) : Versioned τ ρ := ⟨r.committed, some (t, v)⟩

variable [DecidableEq τ]

def view (t : τ) (r : Versioned τ ρ) : Option ρ :=
  match r.pending with
  | some (holder, v) => if holder = t then some v else r.committed
  | none => r.committed

/-- The row after the transaction ended: if it held the row, that is free. -/
def settle (t : τ) (left : ρ → Option ρ) (r : Versioned τ ρ) : Versioned τ ρ :=
  match r.pending with
  | some (holder, v) => if holder = t then ⟨left v, none⟩ else r
  | none => r

def commit (t : τ) (r : Versioned τ ρ) : Versioned τ ρ := r.settle t some

def abort (t : τ) (r : Versioned τ ρ) : Versioned τ ρ := r.settle t fun _ => r.committed

/-- What a transaction sees of a row that it may write. -/
theorem view_of_free (hfr : r.Free t) (hvw : r.view t = some v) :
    r.pending = some (t, v) ∨ r.pending = none ∧ r.committed = some v := by
  rw [view] at hvw
  cases hp : r.pending with
  | none =>
    rw [hp] at hvw
    exact .inr ⟨rfl, hvw⟩
  | some p =>
    obtain ⟨holder, w⟩ := p
    obtain rfl : holder = t := hfr holder (by rw [hp]; rfl)
    rw [hp] at hvw
    obtain rfl := some.inj ((if_pos rfl).symm.trans hvw)
    exact .inl rfl

theorem settle_cases (t : τ) (left : ρ → Option ρ) (r : Versioned τ ρ) :
    (∃ v, r.pending = some (t, v) ∧ r.settle t left = ⟨left v, none⟩) ∨
      (∀ v, r.pending ≠ some (t, v)) ∧ r.settle t left = r := by
  rw [settle]
  cases hp : r.pending with
  | none => exact .inr ⟨fun v => some_ne_none (t, v) |>.symm, rfl⟩
  | some p =>
    obtain ⟨holder, w⟩ := p
    by_cases ht : holder = t
    · subst ht
      exact .inl ⟨w, rfl, if_pos rfl⟩
    · exact .inr ⟨fun v h => ht (congrArg Prod.fst (some.inj h)), if_neg ht⟩

end Versioned

abbrev Rows (τ ρ : Type*) := List (Versioned τ ρ)

variable {rows : Rows τ ρ} {vs : List ρ}

namespace Rows

def insert (t : τ) (v : ρ) (rows : Rows τ ρ) : Rows τ ρ := rows ++ [⟨none, some (t, v)⟩]

variable [DecidableEq τ]

def view (t : τ) (rows : Rows τ ρ) (k : ℕ) : Option ρ := rows[k]?.bind (Versioned.view t)

/-- `UPDATE … WHERE id = k`; it waits for another holder of the row. -/
def update (t : τ) (k : ℕ) (f : ρ → ρ) (rows : Rows τ ρ) : Option (Rows τ ρ) :=
  match rows[k]? with
  | none => some rows
  | some r =>
    match r.view t with
    | none => some rows
    | some v => if r.Free t then some (rows.set k (r.write t (f v))) else none

def commit (t : τ) (rows : Rows τ ρ) : Rows τ ρ := rows.map (Versioned.commit t)

/-- `ROLLBACK`. -/
def abort (t : τ) (rows : Rows τ ρ) : Rows τ ρ := rows.map (Versioned.abort t)

/-- **An update** leaves a table without the row, or writes a row that it may write. -/
theorem update_cases {k : ℕ} {f : ρ → ρ} {rows' : Rows τ ρ} (h : rows.update t k f = some rows') :
    (rows.view t k = none ∧ rows' = rows) ∨
      ∃ r v, rows[k]? = some r ∧ r.Free t ∧ r.view t = some v ∧ rows' = rows.set k (r.write t (f v)) := by
  rw [update] at h
  rw [view]
  cases hr : rows[k]? with
  | none =>
    rw [hr] at h
    exact .inl ⟨rfl, (some.inj h).symm⟩
  | some r =>
    rw [hr] at h
    dsimp only at h
    cases hv : r.view t with
    | none =>
      rw [hv] at h
      exact .inl ⟨hv, (some.inj h).symm⟩
    | some v =>
      rw [hv] at h
      dsimp only at h
      split_ifs at h with hfr
      exact .inr ⟨r, v, rfl, hfr, hv, (some.inj h).symm⟩

omit [DecidableEq τ] in
theorem getElem?_set_iff {k j : ℕ} {old new : Versioned τ ρ} (hk : rows[k]? = some old) :
    (rows.set k new)[j]? = some r ↔ (j = k ∧ r = new) ∨ (j ≠ k ∧ rows[j]? = some r) := by
  by_cases hj : j = k
  · subst hj
    obtain ⟨hlt, -⟩ := List.getElem?_eq_some_iff.mp hk
    rw [getElem?_set_self hlt, some.injEq]
    exact ⟨fun h => .inl ⟨rfl, h.symm⟩, by rintro (⟨-, h⟩ | ⟨h, -⟩) <;> [exact h.symm; exact absurd rfl h]⟩
  · rw [getElem?_set_ne (Ne.symm hj)]
    exact ⟨fun h => .inr ⟨hj, h⟩, by rintro (⟨h, -⟩ | ⟨-, h⟩) <;> [exact absurd h hj; exact h]⟩

omit [DecidableEq τ] in
theorem getElem?_insert_iff {j : ℕ} :
    (rows.insert t v)[j]? = some r ↔ (j = rows.length ∧ r = ⟨none, some (t, v)⟩) ∨ rows[j]? = some r := by
  rw [insert, getElem?_append]
  split_ifs with hlt
  · exact ⟨.inr, by rintro (⟨h, -⟩ | h) <;> [omega; exact h]⟩
  have hnn : rows[j]? = none := getElem?_eq_none (by omega)
  rw [hnn, getElem?_singleton]
  split_ifs with hj
  · rw [some.injEq]
    exact ⟨fun h => .inl ⟨by omega, h.symm⟩, by rintro (⟨-, h⟩ | h) <;> [exact h.symm; cases h]⟩
  · exact ⟨nofun, by rintro (⟨h, -⟩ | h) <;> [omega; cases h]⟩

/-! ### A transaction alone -/

/-- The transaction may write every row, and sees this list. -/
def Shows (t : τ) (rows : Rows τ ρ) (vs : List ρ) : Prop :=
  List.Forall₂ (fun (r : Versioned τ ρ) v => r.Free t ∧ r.view t = some v) rows vs

def settled (vs : List ρ) : Rows τ ρ := vs.map fun v => ⟨some v, none⟩

theorem shows_settled (t : τ) (vs : List ρ) : Shows t (settled vs) vs := by
  rw [Shows, settled, forall₂_map_left_iff, forall₂_same]
  exact fun v _ => ⟨nofun, rfl⟩

theorem Shows.view (h : Shows t rows vs) (k : ℕ) : rows.view t k = vs[k]? := by
  rw [Rows.view]
  induction h generalizing k with
  | nil => rfl
  | cons hr _ ih =>
    cases k with
    | zero => exact hr.2
    | succ k => exact ih k

theorem Shows.insert (h : Shows t rows vs) (v : ρ) : Shows t (rows.insert t v) (vs ++ [v]) := by
  exact rel_append h (List.Forall₂.cons ⟨fun holder hh => (some.inj hh).symm, if_pos rfl⟩ List.Forall₂.nil)

theorem Shows.update (h : Shows t rows vs) (k : ℕ) (f : ρ → ρ) :
    ∃ rows', rows.update t k f = some rows' ∧ Shows t rows' (vs.modify k f) := by
  induction h generalizing k with
  | nil => exact ⟨[], rfl, by rw [modify_nil]; exact List.Forall₂.nil⟩
  | @cons r v rows vs hr hrw ih =>
    cases k with
    | zero =>
      refine ⟨r.write t (f v) :: rows, ?_, List.Forall₂.cons ⟨fun holder hh => ?_, if_pos rfl⟩ hrw⟩
      · simp only [Rows.update, getElem?_cons_zero, hr.2, if_pos hr.1, set_cons_zero]
      · exact (some.inj hh).symm
    | succ k =>
      obtain ⟨rows', hrw', hshw⟩ := ih k
      refine ⟨r :: rows', ?_, List.Forall₂.cons hr hshw⟩
      rcases update_cases hrw' with ⟨hnn, rfl⟩ | ⟨r', v', hr', hfr, hv', rfl⟩
      · rw [Rows.view] at hnn
        simp only [Rows.update, getElem?_cons_succ]
        cases hk : rows'[k]? with
        | none => rfl
        | some r' =>
          rw [hk] at hnn
          simp only [show r'.view t = none from hnn]
      · simp only [Rows.update, getElem?_cons_succ, hr', hv', if_pos hfr, set_cons_succ]

theorem Shows.commit (h : Shows t rows vs) : rows.commit t = settled vs := by
  induction h with
  | nil => rfl
  | @cons r v rows vs hr _ ih =>
    refine cons_eq_cons.mpr ⟨?_, ih⟩
    rw [Versioned.commit, Versioned.settle]
    rcases Versioned.view_of_free hr.1 hr.2 with hp | ⟨hp, hc⟩
    · rw [hp]
      exact if_pos rfl
    rw [hp]
    cases r
    cases hp
    cases hc
    rfl

end Rows

end OpenVibes.Theory
