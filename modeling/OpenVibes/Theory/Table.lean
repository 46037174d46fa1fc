import Mathlib.Tactic

/-!
# Tables with a key

A table is a list of rows, no two with the same key. Each operation comes with what it does to the row of every key
(`get?`): `deleteWhere` and `updateWhere`; `insertNew` and `insertAllNew` (`ON CONFLICT DO NOTHING`); `upsert` and
`upsertAll` (`ON CONFLICT DO UPDATE`, which fails when two of its rows have one key).
-/

namespace OpenVibes.Theory

open List

variable {ρ κ : Type*}

@[ext]
structure Table (ρ : Type*) {κ : Type*} (key : ρ → κ) where
  rows : List ρ
  nodup : (rows.map key).Nodup

namespace Table

variable {key : ρ → κ}

def empty : Table ρ key := ⟨[], nodup_nil⟩

variable (t : Table ρ key) {r r' : ρ}

theorem eq_of_key_eq (hr : r ∈ t.rows) (hr' : r' ∈ t.rows) (h : key r = key r') : r = r' :=
  inj_on_of_nodup_map t.nodup hr hr' h

/-- `DELETE … WHERE p`. -/
def deleteWhere (t : Table ρ key) (p : ρ → Bool) : Table ρ key :=
  ⟨t.rows.filter fun r => !p r, (t.nodup.sublist (filter_sublist.map key))⟩

/-- `UPDATE … SET … WHERE p`, of columns outside the key. -/
def updateWhere (t : Table ρ key) (p : ρ → Bool) (f : ρ → ρ) (hf : ∀ r, key (f r) = key r) : Table ρ key where
  rows := t.rows.map fun r => if p r then f r else r
  nodup := by
    have h : (t.rows.map fun r => if p r then f r else r).map key = t.rows.map key := by
      rw [map_map]
      refine map_congr_left fun r _ => ?_
      simp only [Function.comp]
      split
      · exact hf r
      · rfl
    rw [h]
    exact t.nodup

variable {set : ρ → ρ → ρ} (k : κ) (r : ρ) {hset : ∀ old new, key (set old new) = key old}

section

variable [DecidableEq κ] {k : κ} {g : ρ → ℕ}

def get? (t : Table ρ key) (k : κ) : Option ρ := t.rows.find? fun r => key r = k

theorem get?_eq_some_iff {t : Table ρ key} {r : ρ} : t.get? k = some r ↔ r ∈ t.rows ∧ key r = k := by
  constructor
  · intro h
    exact ⟨mem_of_find?_eq_some h, by simpa using find?_some h⟩
  rintro ⟨hr, rfl⟩
  cases h : t.get? (key r) with
  | none => exact absurd (find?_eq_none.mp h r hr) (by simp)
  | some r' =>
    have hr' : key r' = key r := by simpa using find?_some h
    rw [t.eq_of_key_eq (mem_of_find?_eq_some h) hr hr']

theorem get?_eq_none_iff {t : Table ρ key} : t.get? k = none ↔ k ∉ t.rows.map key := by
  simp [get?, find?_eq_none]

theorem key_of_get? {t : Table ρ key} {r : ρ} (h : t.get? k = some r) : key r = k := (get?_eq_some_iff.mp h).2

theorem filter_key (p : ρ → Bool) : (t.rows.filter fun r => key r = k ∧ p r) = ((t.get? k).filter p).toList := by
  obtain ⟨rows, hnd⟩ := t
  rw [get?]
  induction rows with
  | nil => rfl
  | cons r rows ih =>
    obtain ⟨hr, hrw⟩ := nodup_cons.mp hnd
    by_cases hk : key r = k
    · have hnn : (rows.filter fun r => key r = k ∧ p r) = [] := by
        refine filter_eq_nil_iff.mpr fun r' hr' h => hr ?_
        exact mem_map.mpr ⟨r', hr', (of_decide_eq_true h).1.trans hk.symm⟩
      rw [find?_cons_of_pos (by simpa using hk), filter_cons, hnn]
      cases hp : p r <;> simp [hk, hp, Option.filter]
    · rw [find?_cons_of_neg (by simpa using hk), filter_cons_of_neg (by simp [hk])]
      exact ih hrw

@[simp] theorem get?_empty : (empty : Table ρ key).get? k = none := rfl

@[simp] theorem get?_deleteWhere (p : ρ → Bool) (k : κ) :
    (t.deleteWhere p).get? k = (t.get? k).filter fun r => !p r := by
  ext r
  rw [get?_eq_some_iff, Option.filter_eq_some_iff, get?_eq_some_iff]
  simp only [deleteWhere, mem_filter]
  tauto

@[simp] theorem get?_updateWhere (p : ρ → Bool) (f : ρ → ρ) (hf : ∀ r, key (f r) = key r) (k : κ) :
    (t.updateWhere p f hf).get? k = (t.get? k).map fun r => if p r then f r else r := by
  have hkey : ∀ r, key (if p r then f r else r) = key r := fun r => by
    split
    · exact hf r
    · rfl
  ext r
  simp only [Option.map_eq_some_iff, get?_eq_some_iff]
  constructor
  · rintro ⟨hr, rfl⟩
    obtain ⟨r', hr', rfl⟩ := mem_map.mp hr
    exact ⟨r', ⟨hr', (hkey r').symm⟩, rfl⟩
  · rintro ⟨r', ⟨hr', rfl⟩, rfl⟩
    exact ⟨mem_map.mpr ⟨r', hr', rfl⟩, hkey r'⟩

theorem get?_updateWhere_key (k₀ : κ) (f : ρ → ρ) (hf : ∀ r, key (f r) = key r) (k : κ) :
    (t.updateWhere (fun r => key r = k₀) f hf).get? k = if k₀ = k then (t.get? k).map f else t.get? k := by
  rw [get?_updateWhere]
  cases hr : t.get? k with
  | none => simp
  | some r =>
    have hk := key_of_get? hr
    by_cases h₀ : k₀ = k
    · simp [hk, h₀]
    · simp [hk, h₀, Ne.symm h₀]

/-- `INSERT … ON CONFLICT DO NOTHING` of one row. -/
def insertNew (t : Table ρ key) (r : ρ) : Table ρ key :=
  if h : key r ∈ t.rows.map key then t
  else ⟨t.rows ++ [r], by
    rw [map_append, nodup_append]
    refine ⟨t.nodup, by simp, ?_⟩
    rintro k hk k' hk' rfl
    rw [map_singleton, mem_singleton] at hk'
    exact h (hk' ▸ hk)⟩

@[simp] theorem get?_insertNew (k : κ) :
    (t.insertNew r).get? k = if key r = k then (t.get? k).or (some r) else t.get? k := by
  rw [insertNew]
  split_ifs with h hk hk
  · subst hk
    cases hg : t.get? (key r) with
    | none => exact absurd h (get?_eq_none_iff.mp hg)
    | some r' => rfl
  · rfl
  · simp [get?, find?_append, hk]
  · simp [get?, find?_append, hk]

theorem get?_insertNew_of_some {t : Table ρ key} {r r' : ρ} (h : t.get? k = some r) :
    (t.insertNew r').get? k = some r := by
  rw [get?_insertNew, h]
  split_ifs <;> rfl

theorem rows_insertNew_of_fresh {t : Table ρ key} {r : ρ} (h : t.get? (key r) = none) :
    (t.insertNew r).rows = t.rows ++ [r] := by
  rw [insertNew, dif_neg (get?_eq_none_iff.mp h)]

/-- `INSERT … ON CONFLICT DO NOTHING` of a list of rows: of two with one key the first
is kept. -/
def insertAllNew (t : Table ρ key) (rs : List ρ) : Table ρ key := rs.foldl insertNew t

@[simp] theorem get?_insertAllNew (rs : List ρ) (k : κ) :
    (t.insertAllNew rs).get? k = (t.get? k).or (rs.find? fun r => key r = k) := by
  induction rs generalizing t with
  | nil => simp [insertAllNew]
  | cons r rs ih =>
    rw [insertAllNew, foldl_cons, ← insertAllNew, ih, get?_insertNew]
    by_cases hk : key r = k
    · rw [if_pos hk, find?_cons_of_pos (by simpa using hk), Option.or_assoc, Option.some_or]
    · rw [if_neg hk, find?_cons_of_neg (by simpa using hk)]

theorem exists_rows_insertNew : ∃ new ⊆ [r], (t.insertNew r).rows = t.rows ++ new := by
  rw [insertNew]
  split_ifs
  · exact ⟨[], by simp, by simp⟩
  · exact ⟨[r], .refl _, rfl⟩

theorem exists_rows_insertAllNew (rs : List ρ) : ∃ new ⊆ rs, (t.insertAllNew rs).rows = t.rows ++ new := by
  induction rs generalizing t with
  | nil => exact ⟨[], by simp, by simp [insertAllNew]⟩
  | cons r rs ih =>
    obtain ⟨new₁, hsub₁, h₁⟩ := t.exists_rows_insertNew r
    obtain ⟨new₂, hsub₂, h₂⟩ := ih (t.insertNew r)
    refine ⟨new₁ ++ new₂, append_subset.mpr ⟨fun x hx => ?_, fun x hx => mem_cons_of_mem _ (hsub₂ hx)⟩, ?_⟩
    · rw [mem_singleton.mp (hsub₁ hx)]
      exact mem_cons_self
    · rw [insertAllNew, foldl_cons, ← insertAllNew, h₂, h₁, append_assoc]

/-- `INSERT … ON CONFLICT DO UPDATE` of one row; `set old new` replaces `old`. -/
def upsert (set : ρ → ρ → ρ) (hset : ∀ old new, key (set old new) = key old) (t : Table ρ key) (r : ρ) :
    Table ρ key :=
  (t.updateWhere (fun old => key old = key r) (fun old => set old r) fun old => hset old r).insertNew r

@[simp] theorem get?_upsert (k : κ) :
    (t.upsert set hset r).get? k = if key r = k then some ((t.get? k).elim r fun old => set old r) else t.get? k := by
  rw [upsert, get?_insertNew, get?_updateWhere_key]
  by_cases hk : key r = k
  · rw [if_pos hk, if_pos hk, if_pos hk]
    cases t.get? k <;> rfl
  · rw [if_neg hk, if_neg hk, if_neg hk]

theorem upsert_eq_self {t : Table ρ key} {r old : ρ}
    (hold : t.get? (key r) = some old) (h : set old r = old) : t.upsert set hset r = t := by
  obtain ⟨hmem, hkey⟩ := get?_eq_some_iff.mp hold
  have hupd : t.updateWhere (fun old => key old = key r) (fun old => set old r) (fun old => hset old r) = t := by
    refine Table.ext ((map_congr_left fun r' hr' => ?_).trans (map_id t.rows))
    by_cases hk : key r' = key r
    · obtain rfl := t.eq_of_key_eq hr' hmem (hk.trans hkey.symm)
      simp [hk, h]
    · simp [hk]
  rw [upsert, hupd, insertNew, dif_pos (mem_map.mpr ⟨old, hmem, hkey⟩)]

theorem sum_map_update {f : ρ → ρ} {n : ℕ} {rows : List ρ} (hnd : (rows.map key).Nodup)
    (hk : k ∈ rows.map key) (hg : ∀ r, key r = k → g (f r) = g r + n) :
    ((rows.map fun r => if key r = k then f r else r).map g).sum = (rows.map g).sum + n := by
  obtain ⟨r, hr, rfl⟩ := mem_map.mp hk
  obtain ⟨pre, post, rfl⟩ := append_of_mem hr
  have hsm : ∀ rows : List ρ, key r ∉ rows.map key → (rows.map fun r' => if key r' = key r then f r' else r') = rows :=
    fun rows hnot => (map_congr_left fun r' hr' => if_neg fun h : key r' = key r => hnot (h ▸ mem_map_of_mem hr')).trans
      (map_id rows)
  rw [map_append, map_cons, nodup_middle, nodup_cons, mem_append, not_or] at hnd
  rw [map_append, map_cons, hsm pre hnd.1.1, hsm post hnd.1.2, if_pos rfl]
  simp [hg r rfl]
  omega

/-- **An upsert that adds** raises a sum over the rows by what the new row has. -/
theorem sum_upsert (hg : ∀ old, key old = key r → g (set old r) = g old + g r) :
    ((t.upsert set hset r).rows.map g).sum = (t.rows.map g).sum + g r := by
  have hky : (t.updateWhere (fun old => key old = key r) (fun old => set old r) fun old => hset old r).rows.map key =
      t.rows.map key := by
    rw [updateWhere, map_map]
    refine map_congr_left fun old _ => ?_
    rw [Function.comp]
    split
    · exact hset old r
    · rfl
  rw [upsert, insertNew]
  by_cases hk : key r ∈ t.rows.map key
  · rw [dif_pos (hky ▸ hk)]
    simp only [updateWhere, decide_eq_true_eq]
    exact sum_map_update t.nodup hk hg
  rw [dif_neg (hky ▸ hk)]
  have hsm : (t.updateWhere (fun old => key old = key r) (fun old => set old r) fun old => hset old r).rows =
      t.rows := by
    refine (map_congr_left fun old hold => if_neg fun heq => hk ?_).trans (map_id t.rows)
    exact of_decide_eq_true heq ▸ mem_map_of_mem hold
  simp [hsm]

def upsertEach (set : ρ → ρ → ρ) (hset : ∀ old new, key (set old new) = key old) (t : Table ρ key) (rs : List ρ) :
    Table ρ key :=
  rs.foldl (upsert set hset) t

/-- `INSERT … ON CONFLICT DO UPDATE` of a list of rows, which fails when it would write
one row twice. -/
def upsertAll (set : ρ → ρ → ρ) (hset : ∀ old new, key (set old new) = key old) (t : Table ρ key) (rs : List ρ) :
    Option (Table ρ key) :=
  if (rs.map key).Nodup then some (t.upsertEach set hset rs) else none

theorem get?_upsertEach {rs : List ρ} (h : (rs.map key).Nodup) (k : κ) : (t.upsertEach set hset rs).get? k =
      ((rs.find? fun r => key r = k).elim (t.get? k) fun r => some ((t.get? k).elim r fun old => set old r)) := by
  induction rs generalizing t with
  | nil => rfl
  | cons r rs ih =>
    obtain ⟨hr, hrs⟩ := nodup_cons.mp h
    rw [upsertEach, foldl_cons, ← upsertEach, ih _ hrs, get?_upsert]
    by_cases hk : key r = k
    · have hnn : (rs.find? fun r => key r = k) = none := by
        rw [find?_eq_none]
        rintro r' hr' hk'
        exact hr (mem_map.mpr ⟨r', hr', by simpa [hk] using hk'⟩)
      rw [hnn, if_pos hk, find?_cons_of_pos (by simpa using hk)]
      rfl
    · rw [if_neg hk, find?_cons_of_neg (by simpa using hk)]

end

end Table

end OpenVibes.Theory
