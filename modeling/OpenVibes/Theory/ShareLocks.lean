import OpenVibes.Theory.Commits

/-!
# Rows that transactions share

A keyed table (`Theory.Cells`) whose rows a transaction can also lock for reading (`SELECT … FOR SHARE`): what it sees
of a row that it shares stays as it is. Rows are never deleted; along a relation `R` that every update keeps to, a row
only moves forward.
-/

namespace OpenVibes.Theory

open Option Function Cells Cell

variable {τ κ ν : Type*}

structure Shared (τ κ ν : Type*) where
  rows : Cells τ κ (Option ν)
  sharers : κ → List τ

namespace Shared

variable [DecidableEq τ]

/-- `INSERT … ON CONFLICT DO NOTHING`; whether a row was inserted. It waits for another inserter. -/
def insert [DecidableEq κ] (t : τ) (k : κ) (v : ν) (T : Shared τ κ ν) : Option (Bool × Shared τ κ ν) :=
  match (T.rows k).view t with
  | some _ => some (false, T)
  | none => (T.rows.put t k (some v)).map fun rows => (true, { T with rows := rows })

/-- `UPDATE … WHERE key = k` and a condition; whether a row was updated. It waits for holders and sharers. -/
def update [DecidableEq κ] (t : τ) (k : κ) (cond : ν → Bool) (f : ν → ν) (T : Shared τ κ ν) : Option
    (Bool × Shared τ κ ν) :=
  match (T.rows k).view t with
  | none => some (false, T)
  | some row =>
    if !cond row then some (false, T)
    else if (T.sharers k).all fun u => u = t then
      (T.rows.put t k (some (f row))).map fun rows => (true, { T with rows := rows })
    else none

/-- `SELECT … WHERE key = k` and a condition, `FOR SHARE`. It waits for one who holds the row. -/
def share [DecidableEq κ] (t : τ) (k : κ) (cond : ν → Bool) (T : Shared τ κ ν) : Option (Option ν × Shared τ κ ν) :=
  match (T.rows k).view t with
  | none => some (none, T)
  | some row =>
    if !cond row then some (none, T)
    else if (T.rows k).free t then
      some (some row, { T with sharers := Function.update T.sharers k (t :: T.sharers k) })
    else none

def drop (t : τ) (sharers : κ → List τ) : κ → List τ := fun k => (sharers k).filter fun u => u ≠ t

def commit (t : τ) (T : Shared τ κ ν) : Shared τ κ ν := ⟨T.rows.commit t, drop t T.sharers⟩

/-- `ROLLBACK`. -/
def abort (t : τ) (T : Shared τ κ ν) : Shared τ κ ν := ⟨T.rows.abort t, drop t T.sharers⟩

def shared (t : τ) (T : Shared τ κ ν) : κ → Option ν := fun k => if t ∈ T.sharers k then (T.rows k).view t else none

structure AtRest (T : Shared τ κ ν) : Prop where
  held : ∀ k, (T.rows k).held = none
  sharers : ∀ k, T.sharers k = []

inductive Acts [DecidableEq κ] (R : ν → ν → Prop) (t : τ) (T : Shared τ κ ν) : Shared τ κ ν → Prop
  | idle : Acts R t T T
  | insert {k : κ} (v : ν) (hfr : (T.rows k).free t = true) (hvw : (T.rows k).view t = none) :
    Acts R t T { T with rows := T.rows.write t k (some v) }
  | update {k : κ} {old new : ν} (hfr : (T.rows k).free t = true) (hvw : (T.rows k).view t = some old)
    (halo : ∀ u ∈ T.sharers k, u = t) (hR : R old new) : Acts R t T { T with rows := T.rows.write t k (some new) }
  | share {k : κ} {row : ν} (hfr : (T.rows k).free t = true) (hvw : (T.rows k).view t = some row) :
    Acts R t T { T with sharers := Function.update T.sharers k (t :: T.sharers k) }

structure Ok (R : ν → ν → Prop) (T : Shared τ κ ν) : Prop where
  exclusive : ∀ k t v u, (T.rows k).held = some (t, v) → u ∈ T.sharers k → u = t
  present : ∀ k u, u ∈ T.sharers k → (T.rows k).view u ≠ none
  follows : ∀ k t v, (T.rows k).held = some (t, v) → ∃ new, v = some new ∧ ∀ old, (T.rows k).committed = some old →
    R old new

variable {R : ν → ν → Prop} {t u : τ} {k : κ} {T T' : Shared τ κ ν}

/-! ### Statements -/

variable {b : Bool} {v old : ν} {cond : ν → Bool}

theorem insert_cases [DecidableEq κ] (h : T.insert t k v = some (b, T')) :
    b = false ∧ T' = T ∨ b = true ∧ (T.rows k).free t = true ∧ (T.rows k).view t = none ∧
      T' = { T with rows := T.rows.write t k (some v) } := by
  unfold insert at h
  split at h
  · cases h
    exact .inl ⟨rfl, rfl⟩
  rename_i hvw
  obtain ⟨hfr, hr⟩ := map_put_iff.mp h
  cases hr
  exact .inr ⟨rfl, hfr, hvw, rfl⟩

theorem update_cases [DecidableEq κ] {f : ν → ν} (h : T.update t k cond f = some (b, T')) :
    b = false ∧ T' = T ∨ ∃ old, b = true ∧ (T.rows k).free t = true ∧ (T.rows k).view t = some old ∧ cond old = true ∧
      (∀ u ∈ T.sharers k, u = t) ∧ T' = { T with rows := T.rows.write t k (some (f old)) } := by
  unfold update at h
  split at h
  · cases h
    exact .inl ⟨rfl, rfl⟩
  rename_i old hvw
  split_ifs at h with hcd halo
  · cases h
    exact .inl ⟨rfl, rfl⟩
  · obtain ⟨hfr, hr⟩ := map_put_iff.mp h
    cases hr
    exact .inr ⟨old, rfl, hfr, hvw, by simpa using hcd, by simpa using halo, rfl⟩

theorem share_cases [DecidableEq κ] {r : Option ν} (h : T.share t k cond = some (r, T')) :
    r = none ∧ T' = T ∨ ∃ row, r = some row ∧ (T.rows k).free t = true ∧ (T.rows k).view t = some row ∧
      cond row = true ∧ T' = { T with sharers := Function.update T.sharers k (t :: T.sharers k) } := by
  unfold share at h
  split at h
  · cases h
    exact .inl ⟨rfl, rfl⟩
  rename_i row hvw
  split_ifs at h with hcd hfr
  · cases h
    exact .inl ⟨rfl, rfl⟩
  · cases h
    exact .inr ⟨row, rfl, hfr, hvw, by simpa using hcd, rfl⟩

/-! ### What the others see -/

theorem Acts.hand [DecidableEq κ] (h : Acts R t T T') (hu : u ≠ t) : T'.rows.hand u = T.rows.hand u := by
  cases h with
  | idle | share => rfl
  | insert _ hfr | update hfr => exact (takes_write hfr _).hand hu

theorem Acts.committed [DecidableEq κ] (h : Acts R t T T') (k : κ) : (T'.rows k).committed = (T.rows k).committed := by
  cases h with
  | idle | share => rfl
  | insert | update => exact committed_write ..

theorem Acts.view [DecidableEq κ] (h : Acts R t T T') (hu : u ≠ t) (k : κ) : (T'.rows k).view u = (T.rows k).view u :=
  view_eq (congrFun (h.hand hu) k) (h.committed k)

omit [DecidableEq τ] in
theorem mem_share [DecidableEq κ] {sharers : κ → List τ} {j : κ} :
    u ∈ Function.update sharers k (t :: sharers k) j ↔ j = k ∧ u = t ∨ u ∈ sharers j := by
  by_cases hj : j = k
  · subst hj
    simp
  · simp [hj]

theorem Acts.mem_sharers [DecidableEq κ] (h : Acts R t T T') (hu : u ≠ t) (k : κ) : u ∈ T'.sharers k ↔
    u ∈ T.sharers k := by
  cases h with
  | idle | insert | update => rfl
  | share => simp [mem_share, hu]

theorem Acts.shared [DecidableEq κ] (h : Acts R t T T') (hu : u ≠ t) : T'.shared u = T.shared u := by
  funext k
  rw [Shared.shared, Shared.shared, h.view hu]
  simp [h.mem_sharers hu]

/-- A transaction ends: it leaves the rows, and shares none any more. -/
def Ends (t : τ) (T T' : Shared τ κ ν) : Prop :=
  (∀ k, (T.rows k).Ends t (T'.rows k)) ∧ ∀ k u, u ∈ T'.sharers k ↔ u ∈ T.sharers k ∧ u ≠ t

theorem ends_commit (t : τ) (T : Shared τ κ ν) : T.Ends t (T.commit t) :=
  ⟨fun _ => Cell.ends_commit t _, fun _ _ => by simp [commit, drop]⟩

theorem ends_abort (t : τ) (T : Shared τ κ ν) : T.Ends t (T.abort t) :=
  ⟨fun _ => Cell.ends_abort t _, fun _ _ => by simp [abort, drop]⟩

theorem shared_eq_some_iff {row : ν} : T.shared t k = some row ↔ t ∈ T.sharers k ∧ (T.rows k).view t = some row := by
  rw [shared]
  split_ifs with h
  · exact ⟨fun hrow => ⟨h, hrow⟩, fun hrow => hrow.2⟩
  · exact ⟨nofun, fun hrow => absurd hrow.1 h⟩

theorem Ok.own_none (h : Ok R T) (hu : u ≠ t) (hmem : u ∈ T.sharers k) : (T.rows k).own t = none := by
  cases hown : (T.rows k).own t with
  | none => rfl
  | some p => exact absurd (h.exclusive k t p.2 u (own_iff.mp hown).2 hmem) hu

theorem Ok.shared_ends (h : Ok R T) (hen : T.Ends t T') (hu : u ≠ t) : T'.shared u = T.shared u := by
  funext k
  by_cases hmem : u ∈ T.sharers k
  · rw [shared, shared, if_pos ((hen.2 k u).mpr ⟨hmem, hu⟩), if_pos hmem]
    exact view_eq ((hen.1 k).own hu) ((hen.1 k).committed (h.own_none hu hmem))
  · rw [shared, shared, if_neg (fun h => hmem ((hen.2 k u).mp h).1), if_neg hmem]

theorem Ends.shared_self (hen : T.Ends t T') : T'.shared t = fun _ => none :=
  funext fun k => if_neg fun h => ((hen.2 k t).mp h).2 rfl

/-! ### The invariant -/

theorem AtRest.ok (h : T.AtRest) : Ok R T where
  exclusive k t v u hhd _ := by
    rw [h.held] at hhd
    cases hhd
  present k u hu := by
    rw [h.sharers] at hu
    cases hu
  follows k t v hhd := by
    rw [h.held] at hhd
    cases hhd

theorem AtRest.shared (h : T.AtRest) (t : τ) : T.shared t = fun _ => none :=
  funext fun k => if_neg fun hmem => by
    rw [h.sharers] at hmem
    cases hmem

theorem AtRest.hand (h : T.AtRest) (t : τ) : T.rows.hand t = fun _ => none :=
  funext fun k => own_of_held_none (h.held k)

theorem Ok.view [Std.Refl R] (h : Ok R T) {new : ν} (hvw : (T.rows k).view t = some new) :
    ∀ old, (T.rows k).committed = some old → R old new := by
  intro old hold
  cases hown : (T.rows k).own t with
  | none =>
    rw [view_of_none hown, hold] at hvw
    exact some.inj hvw ▸ refl_of R old
  | some p =>
    obtain ⟨v, hv, hR⟩ := h.follows k t p.2 (own_iff.mp hown).2
    rw [view_of_own hown, hv] at hvw
    exact some.inj hvw ▸ hR old hold

theorem Ok.view_ne_none (h : Ok R T) (hold : (T.rows k).committed = some old) (t : τ) : (T.rows k).view t ≠ none := by
  cases hown : (T.rows k).own t with
  | none =>
    rw [view_of_none hown, hold]
    exact some_ne_none old
  | some p =>
    obtain ⟨v, hv, -⟩ := h.follows k t p.2 (own_iff.mp hown).2
    rw [view_of_own hown, hv]
    exact some_ne_none v

theorem Ok.write [DecidableEq κ] (h : Ok R T) (hfr : (T.rows k).free t = true) (halo : ∀ u ∈ T.sharers k, u = t)
    (hR : ∀ old, (T.rows k).committed = some old → R old v) : Ok R { T with rows := T.rows.write t k (some v) } where
  exclusive j r w u hhd hu := by
    rcases held_write hhd with ⟨rfl, rfl, -⟩ | ⟨-, hhd⟩
    · exact halo u hu
    · exact h.exclusive j r w u hhd hu
  present j u hu := by
    by_cases hj : j = k
    · subst hj
      obtain rfl := halo u hu
      dsimp only
      rw [write_self, view_write_self]
      exact some_ne_none v
    · dsimp only
      rw [write_of_ne hj]
      exact h.present j u hu
  follows j r w hhd := by
    dsimp only
    rw [committed_write]
    rcases held_write hhd with ⟨rfl, rfl, rfl⟩ | ⟨-, hhd⟩
    · exact ⟨v, rfl, hR⟩
    · exact h.follows j r w hhd

theorem Ok.sharers_of_view_none (h : Ok R T) (hfr : (T.rows k).free t = true) (hvw : (T.rows k).view t = none) :
    T.sharers k = [] := by
  have hhd : (T.rows k).held = none := by
    rcases free_cases hfr with ⟨p, hp⟩ | hnn
    · obtain ⟨v, hv, -⟩ := h.follows k t p.2 (own_iff.mp hp).2
      rw [view_of_own hp, hv] at hvw
      cases hvw
    · exact hnn
  have hcom : (T.rows k).committed = none := by rwa [view_of_none (own_of_held_none hhd)] at hvw
  refine List.eq_nil_iff_forall_not_mem.mpr fun u hu => h.present k u hu ?_
  rw [view_of_none (own_of_held_none hhd), hcom]

theorem Acts.ok [DecidableEq κ] [IsPreorder ν R] (hac : Acts R t T T') (h : Ok R T) : Ok R T' := by
  cases hac with
  | idle => exact h
  | @insert k v hfr hvw =>
    have hnn := h.sharers_of_view_none hfr hvw
    refine h.write hfr (fun u hu => ?_) fun old hold => absurd hvw (h.view_ne_none hold t)
    rw [hnn] at hu
    cases hu
  | @update k old new hfr hvw halo hR =>
    exact h.write hfr halo fun first hfst => trans_of R (h.view hvw first hfst) hR
  | @share k row hfr hvw =>
    refine ⟨fun j r v u hhd hu => ?_, fun j u hu => ?_, h.follows⟩
    · rcases mem_share.mp hu with ⟨rfl, rfl⟩ | hu
      · rw [Cell.free, hhd] at hfr
        exact (of_decide_eq_true hfr).symm
      · exact h.exclusive j r v u hhd hu
    · rcases mem_share.mp hu with ⟨rfl, rfl⟩ | hu
      · dsimp only
        rw [hvw]
        exact some_ne_none row
      · exact h.present j u hu

theorem Ok.ends (h : Ok R T) (hen : T.Ends t T') : Ok R T' where
  exclusive k r v u hhd hu := h.exclusive k r v u ((hen.1 k).held hhd).1 ((hen.2 k u).mp hu).1
  present k u hu := by
    obtain ⟨hmem, hne⟩ := (hen.2 k u).mp hu
    have hsm := congrFun (h.shared_ends hen hne) k
    rw [shared, shared, if_pos hu, if_pos hmem] at hsm
    rw [hsm]
    exact h.present k u hmem
  follows k r v hhd := by
    obtain ⟨hhd, hown⟩ := (hen.1 k).held hhd
    obtain ⟨new, hv, hR⟩ := h.follows k r v hhd
    exact ⟨new, hv, fun old hold => hR old (((hen.1 k).committed hown).symm.trans hold)⟩

theorem Ok.committed_commit [Std.Refl R] (h : Ok R T) (hold : (T.rows k).committed = some old) (t : τ) :
    ∃ new, ((T.commit t).rows k).committed = some new ∧ R old new := by
  obtain ⟨new, hnew⟩ := ne_none_iff_exists'.mp (h.view_ne_none hold t)
  exact ⟨new, (Cell.committed_commit t (T.rows k)).trans hnew, h.view hnew old hold⟩

end Shared

end OpenVibes.Theory
