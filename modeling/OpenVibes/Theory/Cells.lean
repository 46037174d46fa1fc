import OpenVibes.Theory.RowLocks

/-!
# Cells under locks

What transactions share, keyed: a table, a setting, a lock with a name. A cell has its committed value, and, while a
transaction holds it, the value which that has given it. A row that can be absent is a cell of an optional value; of two
transactions that insert one key the second waits. A log is a list of rows to which nobody waits to append.
-/

namespace OpenVibes.Theory

open List Function Option

variable {τ κ ν ρ : Type*}

structure Cell (τ ν : Type*) where
  committed : ν
  held : Option (τ × ν)
deriving DecidableEq

variable {t u : τ} {c : Cell τ ν} {p : ν × ν} {v : ν}

namespace Cell

def settled (v : ν) : Cell τ ν := ⟨v, none⟩

/-- The transaction takes the cell with a value of its own. -/
def write (t : τ) (v : ν) (c : Cell τ ν) : Cell τ ν := ⟨c.committed, some (t, v)⟩

def latest (c : Cell τ ν) : ν := (c.held.map Prod.snd).getD c.committed

variable [DecidableEq τ] {c' : Cell τ ν}

def free (t : τ) (c : Cell τ ν) : Bool := c.held.all fun h => h.1 = t

def holds (t : τ) (c : Cell τ ν) : Bool := c.held.any fun h => h.1 = t

/-- What the transaction has in hand of the cell: the committed value and its own. -/
def own (t : τ) (c : Cell τ ν) : Option (ν × ν) :=
  match c.held with
  | some (holder, v) => if holder = t then some (c.committed, v) else none
  | none => none

def view (t : τ) (c : Cell τ ν) : ν := ((c.own t).map Prod.snd).getD c.committed

def commit (t : τ) (c : Cell τ ν) : Cell τ ν :=
  match c.own t with
  | some (_, v) => settled v
  | none => c

def abort (t : τ) (c : Cell τ ν) : Cell τ ν :=
  match c.own t with
  | some (old, _) => settled old
  | none => c

theorem own_iff : c.own t = some p ↔ c.committed = p.1 ∧ c.held = some (t, p.2) := by
  obtain ⟨old, new⟩ := p
  rw [own]
  cases hhd : c.held with
  | none => simp
  | some h =>
    obtain ⟨holder, v⟩ := h
    by_cases ht : holder = t
    · simp [ht]
    · simp [ht]

theorem own_eq_none_iff : c.own t = none ↔ c.holds t = false := by
  rw [own, holds]
  cases c.held with
  | none => simp
  | some h => by_cases ht : h.1 = t <;> simp [ht]

theorem holds_iff : c.holds t = true ↔ ∃ p, c.own t = some p := by
  rw [← ne_none_iff_exists', Ne, own_eq_none_iff, Bool.not_eq_false]

theorem view_of_own (h : c.own t = some p) : c.view t = p.2 := by
  rw [view, h]
  rfl

theorem view_of_none (h : c.own t = none) : c.view t = c.committed := by
  rw [view, h]
  rfl

theorem committed_of_own (h : c.own t = some p) : c.committed = p.1 := (own_iff.mp h).1

theorem own_of_held_none (h : c.held = none) : c.own t = none := by
  rw [own, h]

theorem ne_of_held (hown : c.own t = none) (hhd : c.held = some (u, v)) : u ≠ t := by
  rintro rfl
  have hsm : c.own u = some (c.committed, v) := own_iff.mpr ⟨rfl, hhd⟩
  rw [hown] at hsm
  cases hsm

theorem free_of_own (h : c.own t = some p) : c.free t = true := by
  rw [free, (own_iff.mp h).2]
  simp

theorem free_cases (h : c.free t = true) : (∃ p, c.own t = some p) ∨ c.held = none := by
  rw [free] at h
  cases hhd : c.held with
  | none => exact .inr rfl
  | some p =>
    obtain ⟨holder, v⟩ := p
    rw [hhd] at h
    obtain rfl : holder = t := by simpa using h
    exact .inl ⟨(c.committed, v), own_iff.mpr ⟨rfl, hhd⟩⟩

theorem latest_of_free (h : c.free t = true) : c.latest = c.view t := by
  rcases free_cases h with ⟨p, hp⟩ | hnn
  · rw [view_of_own hp, latest, (own_iff.mp hp).2]
    rfl
  · rw [latest, hnn, view, own, hnn]
    rfl

theorem own_unique {q : ν × ν} (ht : c.own t = some p) (hu : c.own u = some q) : t = u := by
  have h := (own_iff.mp ht).2.symm.trans (own_iff.mp hu).2
  exact congrArg Prod.fst (some.inj h)

theorem own_none_of_ne (hu : u ≠ t) (h : c.own t = some p) : c.own u = none := by
  cases hq : c.own u with
  | none => rfl
  | some q => exact absurd (own_unique hq h) hu

theorem holds_unique (ht : c.holds t = true) (hu : c.holds u = true) : t = u := by
  obtain ⟨p, hp⟩ := holds_iff.mp ht
  obtain ⟨q, hq⟩ := holds_iff.mp hu
  exact own_unique hp hq

@[simp] theorem own_settled (t : τ) (v : ν) : (settled v : Cell τ ν).own t = none := rfl

@[simp] theorem view_settled (t : τ) (v : ν) : (settled v : Cell τ ν).view t = v := rfl

@[simp] theorem own_write_self (t : τ) (v : ν) (c : Cell τ ν) : (c.write t v).own t = some (c.committed, v) :=
  own_iff.mpr ⟨rfl, rfl⟩

@[simp] theorem view_write_self (t : τ) (v : ν) (c : Cell τ ν) : (c.write t v).view t = v :=
  view_of_own (own_write_self t v c)

@[simp] theorem holds_write_self (t : τ) (v : ν) (c : Cell τ ν) : (c.write t v).holds t = true :=
  holds_iff.mpr ⟨_, own_write_self t v c⟩

theorem holds_congr (h : c'.own t = c.own t) : c'.holds t = c.holds t := by
  rw [Bool.eq_iff_iff, holds_iff, holds_iff, h]

/-- **What another transaction holds** is not changed by taking a cell that is free. -/
theorem own_write (hu : u ≠ t) (hfr : c.free t = true) : (c.write t v).own u = c.own u := by
  have hnn : (c.write t v).own u = none := by
    rw [own, write]
    exact if_neg (Ne.symm hu)
  rw [hnn]
  rcases free_cases hfr with ⟨p, hp⟩ | hhd
  · rw [own_none_of_ne hu hp]
  · rw [own, hhd]

theorem holds_write (hfr : c.free t = true) (hu : c.holds u = true) : (c.write t v).holds u = true := by
  by_cases h : u = t
  · rw [h, holds_write_self]
  · rw [holds_congr (own_write h hfr)]
    exact hu

theorem commit_of_own (h : c.own t = some p) : c.commit t = settled p.2 := by
  rw [commit, h]

theorem commit_of_none (h : c.own t = none) : c.commit t = c := by
  rw [commit, h]

theorem abort_of_own (h : c.own t = some p) : c.abort t = settled p.1 := by
  rw [abort, h]

theorem abort_of_own_none (h : c.own t = none) : c.abort t = c := by
  rw [abort, h]

def Has (c : Cell τ ν) (v : ν) : Prop := c.committed = v ∨ ∃ t, c.held = some (t, v)

theorem has_view (t : τ) (c : Cell τ ν) : c.Has (c.view t) := by
  cases hown : c.own t with
  | none => exact .inl (view_of_none hown).symm
  | some p =>
    rw [view_of_own hown]
    exact .inr ⟨t, (own_iff.mp hown).2⟩

/-- How a transaction leaves a cell: as it is, or settled with one of the values it had. -/
def Ends (t : τ) (c c' : Cell τ ν) : Prop := c.own t = none ∧ c' = c ∨ ∃ p v, c.own t = some p ∧ c.Has v ∧
    c' = settled v

theorem ends_commit (t : τ) (c : Cell τ ν) : c.Ends t (c.commit t) := by
  cases hown : c.own t with
  | none => exact .inl ⟨hown, commit_of_none hown⟩
  | some p => exact .inr ⟨p, p.2, hown, .inr ⟨t, (own_iff.mp hown).2⟩, commit_of_own hown⟩

theorem ends_abort (t : τ) (c : Cell τ ν) : c.Ends t (c.abort t) := by
  cases hown : c.own t with
  | none => exact .inl ⟨hown, abort_of_own_none hown⟩
  | some p => exact .inr ⟨p, p.1, hown, .inl (committed_of_own hown), abort_of_own hown⟩

section

variable {c' : Cell τ ν} (h : c.Ends t c')

include h

theorem Ends.own_self : c'.own t = none := by
  rcases h with ⟨hown, rfl⟩ | ⟨-, v, -, -, rfl⟩
  · exact hown
  · exact own_settled t v

theorem Ends.own (hu : u ≠ t) : c'.own u = c.own u := by
  rcases h with ⟨-, rfl⟩ | ⟨p, v, hown, -, rfl⟩
  · rfl
  · rw [own_settled, own_none_of_ne hu hown]

theorem Ends.own_iff : c'.own u = some p ↔ u ≠ t ∧ c.own u = some p := by
  by_cases hu : u = t
  · simp [hu, h.own_self]
  · rw [h.own hu, and_iff_right hu]

theorem Ends.holds_iff : c'.holds u = true ↔ u ≠ t ∧ c.holds u = true := by
  simp [Cell.holds_iff, h.own_iff]

end

@[simp] theorem own_commit_self (t : τ) (c : Cell τ ν) : (c.commit t).own t = none := (ends_commit t c).own_self

@[simp] theorem own_abort_self (t : τ) (c : Cell τ ν) : (c.abort t).own t = none := (ends_abort t c).own_self

theorem own_commit (hu : u ≠ t) (c : Cell τ ν) : (c.commit t).own u = c.own u := (ends_commit t c).own hu

theorem own_abort (hu : u ≠ t) (c : Cell τ ν) : (c.abort t).own u = c.own u := (ends_abort t c).own hu

theorem own_commit_eq_some_iff : (c.commit t).own u = some p ↔ u ≠ t ∧ c.own u = some p :=
  (ends_commit t c).own_iff

theorem own_abort_eq_some_iff : (c.abort t).own u = some p ↔ u ≠ t ∧ c.own u = some p :=
  (ends_abort t c).own_iff

theorem holds_commit_iff : (c.commit t).holds u = true ↔ u ≠ t ∧ c.holds u = true := (ends_commit t c).holds_iff

theorem holds_abort_iff : (c.abort t).holds u = true ↔ u ≠ t ∧ c.holds u = true := (ends_abort t c).holds_iff

theorem commit_of_settled (h : c = settled v) (t : τ) : c.commit t = settled v := by
  rw [h, commit_of_none (own_settled t v)]

theorem abort_of_settled (h : c = settled v) (t : τ) : c.abort t = settled v := by
  rw [h, abort_of_own_none (own_settled t v)]

theorem committed_commit (t : τ) (c : Cell τ ν) : (c.commit t).committed = c.view t := by
  cases h : c.own t with
  | none => rw [commit_of_none h, view_of_none h]
  | some p =>
    rw [commit_of_own h, view_of_own h]
    rfl

@[simp] theorem committed_abort (t : τ) (c : Cell τ ν) : (c.abort t).committed = c.committed := by
  cases h : c.own t with
  | none => rw [abort_of_own_none h]
  | some p =>
    rw [abort_of_own h, committed_of_own h]
    rfl

theorem view_eq (hown : c'.own t = c.own t) (hcom : c'.committed = c.committed) : c'.view t = c.view t := by
  rw [view, view, hown, hcom]

theorem view_commit (hu : u ≠ t) (c : Cell τ ν) :
    (c.commit t).view u = c.view u ∨ c.own u = none ∧ (c.commit t).view u = c.view t := by
  cases h : c.own u with
  | none =>
    refine .inr ⟨rfl, ?_⟩
    rw [view_of_none ((own_commit hu c).trans h), committed_commit]
  | some p => exact .inl ((view_of_own ((own_commit hu c).trans h)).trans (view_of_own h).symm)

theorem view_commit_self (t : τ) (c : Cell τ ν) : (c.commit t).view t = c.view t := by
  rw [view_of_none (own_commit_self t c), committed_commit]

theorem view_abort_self (t : τ) (c : Cell τ ν) : (c.abort t).view t = c.committed := by
  rw [view_of_none (own_abort_self t c), committed_abort]

theorem view_abort (hu : u ≠ t) (c : Cell τ ν) : (c.abort t).view u = c.view u :=
  view_eq (own_abort hu c) (committed_abort t c)

variable {row : Cell τ (Option ρ)}

theorem there_of_view (h : (row.view t).isSome) : row.committed.isSome ∨ row.held.isSome := by
  cases hown : row.own t with
  | none =>
    rw [view_of_none hown] at h
    exact .inl h
  | some p => exact .inr (by rw [(own_iff.mp hown).2]; rfl)

end Cell

abbrev Cells (τ κ ν : Type*) := κ → Cell τ ν

variable {k : κ}

namespace Cells

variable [DecidableEq κ] {j : κ}

def write (t : τ) (k : κ) (v : ν) (cells : Cells τ κ ν) : Cells τ κ ν := update cells k ((cells k).write t v)

@[simp] theorem write_self (t : τ) (k : κ) (v : ν) (cells : Cells τ κ ν) :
    cells.write t k v k = (cells k).write t v := update_self ..

theorem write_of_ne (h : j ≠ k) (t : τ) (v : ν) (cells : Cells τ κ ν) : cells.write t k v j = cells j :=
  update_of_ne h ..

variable {cells : Cells τ κ ν}

/-- What holds of every cell still does, if it holds of the one that is written. -/
theorem forall_write {P : κ → Cell τ ν → Prop} (h : ∀ j, P j (cells j)) (hk : P k ((cells k).write t v)) (j : κ) :
    P j (cells.write t k v j) :=
  (forall_update_iff cells P).mpr ⟨hk, fun j _ => h j⟩ j

/-- Rows that are not in use stay as they are while one in use is written. -/
theorem unused_write {p : κ → Prop} {c : Cell τ ν} (h : ∀ j, p j → cells j = c) (hk : ¬p k) (j : κ) (hj : p j) :
    cells.write t k v j = c := by
  have hne : j ≠ k := fun heq => hk (heq ▸ hj)
  exact (write_of_ne hne t v cells).trans (h j hj)

variable [DecidableEq τ]

/-- `INSERT … ON CONFLICT DO UPDATE`, `UPDATE` or `DELETE` by key; it waits for another holder. -/
def put (t : τ) (k : κ) (v : ν) (cells : Cells τ κ ν) : Option (Cells τ κ ν) :=
  if (cells k).free t then some (cells.write t k v) else none

/-- `SELECT … WHERE key = k FOR UPDATE`: a row that is there is taken as it is. -/
def lock (t : τ) (k : κ) (cells : Cells τ κ (Option ρ)) : Option (Option ρ × Cells τ κ (Option ρ)) :=
  match (cells k).view t with
  | none => some (none, cells)
  | some r => (cells.put t k (some r)).map fun cells => (some r, cells)

omit [DecidableEq κ] in
def commit (t : τ) (cells : Cells τ κ ν) : Cells τ κ ν := fun k => (cells k).commit t

omit [DecidableEq κ] in
/-- `ROLLBACK`. -/
def abort (t : τ) (cells : Cells τ κ ν) : Cells τ κ ν := fun k => (cells k).abort t

theorem put_eq_some_iff {cells' : Cells τ κ ν} :
    cells.put t k v = some cells' ↔ (cells k).free t = true ∧ cells' = cells.write t k v := by
  rw [put]
  split_ifs with h
  · exact ⟨fun heq => ⟨h, (some.inj heq).symm⟩, fun heq => congrArg some heq.2.symm⟩
  · exact ⟨nofun, fun heq => absurd heq.1 h⟩

theorem map_put_iff {β : Type*} {f : Cells τ κ ν → β} {b : β} :
    (cells.put t k v).map f = some b ↔ (cells k).free t = true ∧ f (cells.write t k v) = b := by
  rw [put]
  split_ifs with h <;> simp [h]

/-- **A locking read** answers what the transaction sees, and takes a row that is there. -/
theorem lock_eq_some_iff {cells cells' : Cells τ κ (Option ρ)} {r : Option ρ} :
    cells.lock t k = some (r, cells') ↔ (cells k).view t = r ∧ (r = none ∧ cells' = cells ∨
        r ≠ none ∧ (cells k).free t = true ∧ cells' = cells.write t k r) := by
  rw [lock]
  cases hvw : (cells k).view t with
  | none =>
    simp only [some.injEq, Prod.mk.injEq]
    constructor
    · rintro ⟨rfl, rfl⟩
      exact ⟨rfl, .inl ⟨rfl, rfl⟩⟩
    · rintro ⟨rfl, ⟨-, rfl⟩ | ⟨h, -⟩⟩
      · exact ⟨rfl, rfl⟩
      · exact absurd rfl h
  | some row =>
    simp only [map_eq_some_iff, put_eq_some_iff, Prod.mk.injEq]
    constructor
    · rintro ⟨_, ⟨hfr, rfl⟩, rfl, rfl⟩
      exact ⟨rfl, .inr ⟨some_ne_none row, hfr, rfl⟩⟩
    · rintro ⟨rfl, ⟨h, -⟩ | ⟨-, hfr, rfl⟩⟩
      · cases h
      · exact ⟨_, ⟨hfr, rfl⟩, rfl, rfl⟩

theorem own_write (hu : u ≠ t) (hfr : (cells k).free t = true) (j : κ) :
    (cells.write t k v j).own u = (cells j).own u := by
  by_cases hj : j = k
  · subst hj
    rw [write_self, Cell.own_write hu hfr]
  · rw [write_of_ne hj]

theorem own_write_cases (hfr : (cells k).free t = true) (h : (cells.write t k v j).own u = some p) :
    (j = k ∧ u = t ∧ p = ((cells k).committed, v)) ∨ (cells j).own u = some p := by
  by_cases hu : u = t
  · by_cases hj : j = k
    · subst hu hj
      rw [write_self, Cell.own_write_self] at h
      exact .inl ⟨rfl, rfl, (some.inj h).symm⟩
    · rw [write_of_ne hj] at h
      exact .inr h
  · rw [own_write hu hfr] at h
    exact .inr h

theorem view_write (hfr : (cells k).free t = true) (u : τ) (j : κ) :
    (cells.write t k v j).view u = if j = k ∧ u = t then v else (cells j).view u := by
  by_cases hj : j = k
  · subst hj
    by_cases hu : u = t
    · rw [if_pos ⟨rfl, hu⟩, write_self, hu, Cell.view_write_self]
    · rw [if_neg fun h => hu h.2, write_self, Cell.view_eq (Cell.own_write hu hfr) rfl]
  · rw [if_neg fun h => hj h.1, write_of_ne hj]

omit [DecidableEq τ] in
theorem latest_write (t : τ) (k : κ) (v : ν) (cells : Cells τ κ ν) (j : κ) :
    (cells.write t k v j).latest = if j = k then v else (cells j).latest := by
  by_cases hj : j = k
  · subst hj
    rw [if_pos rfl, write_self]
    rfl
  · rw [if_neg hj, write_of_ne hj]

theorem holds_write (hfr : (cells k).free t = true) (h : (cells j).holds u = true) :
    (cells.write t k v j).holds u = true := by
  by_cases hj : j = k
  · subst hj
    rw [write_self]
    exact Cell.holds_write hfr h
  · rwa [write_of_ne hj]

omit [DecidableEq τ] in
theorem committed_write (t : τ) (k : κ) (v : ν) (cells : Cells τ κ ν) (j : κ) :
    (cells.write t k v j).committed = (cells j).committed := by
  by_cases hj : j = k
  · subst hj
    rw [write_self]
    rfl
  · rw [write_of_ne hj]

end Cells

/-! ### Logs -/

variable {rows : Rows τ ρ}

namespace Rows

def published (rows : Rows τ ρ) : List ρ := rows.filterMap Versioned.committed

/-- The rows that are not committed are new, and of transactions as `P` says. -/
def PendingBy (P : τ → Prop) (rows : Rows τ ρ) : Prop :=
  ∀ r ∈ rows, ∀ p ∈ r.pending, r.committed = none ∧ P p.1

variable {P : τ → Prop}

theorem PendingBy.imp {P' : τ → Prop} (h : rows.PendingBy P) (hP : ∀ t, P t → P' t) : rows.PendingBy P' :=
  fun r hr p hp => ⟨(h r hr p hp).1, hP _ (h r hr p hp).2⟩

theorem PendingBy.insert (h : rows.PendingBy P) (ht : P t) (v : ρ) : (rows.insert t v).PendingBy P := by
  intro r hr p hp
  rcases mem_append.mp hr with hr | hr
  · exact h r hr p hp
  · obtain rfl := mem_singleton.mp hr
    cases hp
    exact ⟨rfl, ht⟩

@[simp] theorem published_insert (t : τ) (v : ρ) (rows : Rows τ ρ) : (rows.insert t v).published = rows.published := by
  simp [published, insert]

variable [DecidableEq τ]

def seen (t : τ) (rows : Rows τ ρ) : List ρ := rows.filterMap (Versioned.view t)

@[simp] theorem seen_insert_self (t : τ) (v : ρ) (rows : Rows τ ρ) : (rows.insert t v).seen t = rows.seen t ++ [v] := by
  simp [seen, insert, Versioned.view]

theorem seen_insert (hu : u ≠ t) (v : ρ) (rows : Rows τ ρ) : (rows.insert t v).seen u = rows.seen u := by
  simp [seen, insert, Versioned.view, Ne.symm hu]

theorem seen_eq_published (h : rows.PendingBy (· ≠ t)) : rows.seen t = rows.published := by
  refine filterMap_congr fun r hr => ?_
  rw [Versioned.view]
  cases hp : r.pending with
  | none => rfl
  | some p => exact if_neg (h r hr p hp).2

theorem published_commit (h : rows.PendingBy (· = t)) : (rows.commit t).published = rows.seen t := by
  rw [published, commit, filterMap_map]
  refine filterMap_congr fun r hr => ?_
  rw [Function.comp, Versioned.commit, Versioned.settle, Versioned.view]
  cases hp : r.pending with
  | none => rfl
  | some p =>
    have ht : p.1 = t := (h r hr p hp).2
    simp [ht]

theorem settle_of_pendingBy (h : rows.PendingBy (· ≠ t)) {r : Versioned τ ρ} (hr : r ∈ rows) (left : ρ → Option ρ) :
    r.settle t left = r := by
  rcases r.settle_cases t left with ⟨v, hv, -⟩ | ⟨-, heq⟩
  · exact absurd rfl (h r hr (t, v) hv).2
  · exact heq

theorem commit_eq_self (h : rows.PendingBy (· ≠ t)) : rows.commit t = rows :=
  (map_congr_left fun _ hr => settle_of_pendingBy h hr _).trans (map_id rows)

theorem abort_eq_self (h : rows.PendingBy (· ≠ t)) : rows.abort t = rows :=
  (map_congr_left fun _ hr => settle_of_pendingBy h hr _).trans (map_id rows)

@[simp] theorem published_abort (t : τ) (rows : Rows τ ρ) : (rows.abort t).published = rows.published := by
  rw [published, abort, filterMap_map]
  refine filterMap_congr fun r _ => ?_
  rw [Function.comp, Versioned.abort]
  rcases r.settle_cases t fun _ => r.committed with ⟨v, -, heq⟩ | ⟨-, heq⟩
  · rw [heq]
  · rw [heq]

theorem PendingBy.settle (h : rows.PendingBy P) (t : τ) (left : Versioned τ ρ → ρ → Option ρ) :
    Rows.PendingBy (fun u => P u ∧ u ≠ t) (rows.map fun r => r.settle t (left r)) := by
  intro r' hr' p hp
  obtain ⟨r, hr, rfl⟩ := mem_map.mp hr'
  rcases r.settle_cases t (left r) with ⟨v, -, heq⟩ | ⟨hne, heq⟩
  · rw [heq] at hp
    cases hp
  rw [heq] at hp ⊢
  obtain ⟨hnn, hP⟩ := h r hr p hp
  refine ⟨hnn, hP, fun ht => hne p.2 ?_⟩
  rw [← ht]
  exact hp

theorem PendingBy.commit (h : rows.PendingBy P) (t : τ) :
    (rows.commit t).PendingBy fun u => P u ∧ u ≠ t := h.settle t fun _ => some

theorem PendingBy.abort (h : rows.PendingBy P) (t : τ) :
    (rows.abort t).PendingBy fun u => P u ∧ u ≠ t := h.settle t fun r _ => r.committed

end Rows

/-! ### Logs under the lock of a cell -/

/-- Only the transaction that holds the cell has rows of the log pending. -/
def Guards [DecidableEq τ] (c : Cell τ ν) (rows : Rows τ ρ) : Prop := rows.PendingBy fun t => c.holds t = true

namespace Guards

variable [DecidableEq τ]

section

variable (h : Guards c rows)

include h

theorem of_own (hown : c.own t = some p) : rows.PendingBy (· = t) :=
  h.imp fun _ hu => Cell.holds_unique hu (Cell.holds_iff.mpr ⟨p, hown⟩)

theorem of_own_none (hown : c.own t = none) : rows.PendingBy (· ≠ t) :=
  h.imp fun u hu heq => by
    rw [heq, Cell.own_eq_none_iff.mp hown] at hu
    cases hu

theorem write (hfr : c.free t = true) (v : ν) : Guards (c.write t v) rows := h.imp fun _ => Cell.holds_write hfr

theorem insert (ht : c.holds t = true) (r : ρ) : Guards c (rows.insert t r) := Rows.PendingBy.insert h ht r

theorem commit (t : τ) : Guards (c.commit t) (rows.commit t) :=
  (Rows.PendingBy.commit h t).imp fun _ hu => (Cell.holds_congr (Cell.own_commit hu.2 c)).trans hu.1

theorem abort (t : τ) : Guards (c.abort t) (rows.abort t) :=
  (Rows.PendingBy.abort h t).imp fun _ hu => (Cell.holds_congr (Cell.own_abort hu.2 c)).trans hu.1

end

end Guards

end OpenVibes.Theory
