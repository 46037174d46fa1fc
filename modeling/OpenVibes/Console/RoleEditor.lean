import Mathlib

/-!
# The role editor

A permission needs others. The console's role editor turns on with a permission what it needs, and off with it what
needs it; the server refuses a role that misses a need. The catalogue is any with one row for each permission. A set is
the list of its elements in the order they were put in, each once. Left out are the catalogue's rows, and a role's name,
reach and template.
-/

namespace OpenVibes.Console.RoleEditor

open List

inductive Column where
  | view | change | export | approveAndPublish
  deriving DecidableEq

/-- A row of the catalogue. -/
structure PermissionDef (P : Type) where
  (area label : String)
  column : Column
  needs : List P

structure Catalogue (P : Type) where
  all : List P
  row : P → PermissionDef P
  nodup : all.Nodup
  mem_all : ∀ p, p ∈ all

variable {P : Type} [DecidableEq P] (C : Catalogue P)

abbrev Catalogue.needs (p : P) : List P := (C.row p).needs

/-! ### Turning on and off -/

theorem left_shrinks {next : List P} {id : P} (h : id ∉ next) :
    (C.all.filter (· ∉ next ++ [id])).length < (C.all.filter (· ∉ next)).length := by
  have heq : C.all.filter (· ∉ next ++ [id]) = (C.all.filter (· ∉ next)).filter (· ≠ id) := by
    rw [filter_filter]
    exact filter_congr fun x _ => by simp [and_comm]
  rw [heq]
  refine length_filter_lt_length_iff_exists.mpr ⟨id, mem_filter.mpr ⟨C.mem_all id, by simpa using h⟩, by simp⟩

/-- The loop of `turnOn` over its stack, the top first. -/
def turnOnLoop (next added : List P) : List P → List P × List P
  | [] => (next, added)
  | id :: stack =>
    if _h : id ∈ next then turnOnLoop next added stack
    else turnOnLoop (next ++ [id]) (added ++ [id]) ((C.needs id).reverse ++ stack)
termination_by stack => ((C.all.filter (· ∉ next)).length, stack.length)
decreasing_by
  · exact .right _ (Nat.lt_succ_self _)
  · exact .left _ _ (left_shrinks C _h)

/-- The set with `p` and all it needs, and what was added besides `p`. -/
def turnOn (on : List P) (p : P) : List P × List P :=
  let r := turnOnLoop C on [] [p]
  (r.1, r.2.filter (· ≠ p))

/-- One pass of `turnOff` over the set, which deletes as it goes: what is left, and what was deleted. -/
def sweep (next : List P) : List P → List P × List P
  | [] => (next, [])
  | id :: rest =>
    if (C.needs id).any (· ∉ next) then
      let r := sweep (next.erase id) rest
      (r.1, id :: r.2)
    else sweep next rest

theorem sweep_sublist (next visit : List P) : (sweep C next visit).1.Sublist next := by
  induction visit generalizing next with
  | nil => exact .refl next
  | cons id rest ih =>
    rw [sweep]
    split
    · exact (ih _).trans erase_sublist
    · exact ih next

theorem sweep_shrinks {next visit : List P} (hsub : visit ⊆ next) (h : (sweep C next visit).2 ≠ []) :
    (sweep C next visit).1.length < next.length := by
  induction visit with
  | nil => exact absurd rfl h
  | cons id rest ih =>
    obtain ⟨hid, hrs⟩ := cons_subset.mp hsub
    rw [sweep] at h ⊢
    split at h
    · rw [if_pos ‹_›]
      have hle := (sweep_sublist C (next.erase id) rest).length_le
      have hlt := length_erase_of_mem hid
      have hpos := length_pos_of_mem hid
      dsimp only
      omega
    · rw [if_neg ‹_›]
      exact ih hrs h

/-- The passes of `turnOff`, until one deletes nothing. -/
def turnOffLoop (next removed : List P) : List P × List P :=
  let r := sweep C next next
  if _h : r.2 = [] then (next, removed) else turnOffLoop r.1 (removed ++ r.2)
termination_by next.length
decreasing_by exact sweep_shrinks C (Subset.refl next) _h

/-- The set without `p` and all that needs it, and what was removed besides `p`. -/
def turnOff (on : List P) (p : P) : List P × List P := turnOffLoop C (on.erase p) []

/-! ### The editor -/

/-- `RoleState`: the permissions that are on, and what the editor says. -/
structure State (P : Type) where
  on : List P
  notice : String

/-- What a person does. -/
inductive Action (P : Type) where
  | toggle (permission : P)
  | area (area : String)
  | column (column : Column)

/-- One round of the loop of `bulk`. -/
def bulkOne (allOn : Bool) (r : List P × List P) (id : P) : List P × List P :=
  if allOn then ((turnOff C r.1 id).1, r.2 ++ (turnOff C r.1 id).2)
  else if id ∈ r.1 then r
  else ((turnOn C r.1 id).1, r.2 ++ (turnOn C r.1 id).2)

/-- The permissions an action is about. -/
def Action.ids : Action P → List P
  | .toggle p => [p]
  | .area name => C.all.filter fun p => (C.row p).area = name
  | .column c => C.all.filter fun p => (C.row p).column = c

/-- The server's check: a permission of the role and a need of it that the role misses. -/
def missingNeeds (set : List P) : Option (P × P) :=
  set.findSome? fun p => ((C.needs p).find? (· ∉ set)).map fun need => (p, need)

/-! ### What turning on and off do -/

variable {C} {on next visit : List P} {p : P}

/-- No need of a member is missing. -/
def Catalogue.Closed (C : Catalogue P) (T : Set P) : Prop := ∀ q ∈ T, ∀ n ∈ C.needs q, n ∈ T

/-- The ids that an operation on `p` says it changed are those it did change but `p`. -/
structure Tells (on : List P) (p : P) (r : List P × List P) : Prop where
  nodup : r.1.Nodup
  tells_nodup : r.2.Nodup
  mem_iff : ∀ q, q ∈ r.2 ↔ ¬(q ∈ on ↔ q ∈ r.1) ∧ q ≠ p

theorem turnOnLoop_spec (added stack : List P) (hnx : next.Nodup)
    (hnds : ∀ q ∈ next, ∀ n ∈ C.needs q, n ∈ next ∨ n ∈ stack) :
    ∃ more, turnOnLoop C next added stack = (next ++ more, added ++ more) ∧ (next ++ more).Nodup ∧
      stack ⊆ next ++ more ∧ C.Closed {q | q ∈ next ++ more} ∧
      ∀ T : Set P, C.Closed T → (∀ q ∈ next, q ∈ T) → (∀ q ∈ stack, q ∈ T) → ∀ q ∈ next ++ more, q ∈ T := by
  fun_induction turnOnLoop C next added stack with
  | case1 next added =>
    refine ⟨[], by simp, by simpa using hnx, nil_subset _, ?_, fun T _ hT _ => by simpa using hT⟩
    simpa [Catalogue.Closed] using hnds
  | case2 next added id stack h ih =>
    obtain ⟨more, heq, hnd, hstc, hcld, hlea⟩ := ih hnx fun q hq n hn => by
      rcases hnds q hq n hn with hn | hn
      · exact .inl hn
      · rcases mem_cons.mp hn with rfl | hn
        · exact .inl h
        · exact .inr hn
    refine ⟨more, heq, hnd, cons_subset.mpr ⟨mem_append_left _ h, hstc⟩, hcld, fun T hT hnx hall => ?_⟩
    exact hlea T hT hnx fun q hq => hall q (mem_cons_of_mem _ hq)
  | case3 next added id stack h ih =>
    have hnx' : (next ++ [id]).Nodup := (perm_append_singleton id next).nodup_iff.mpr (nodup_cons.mpr ⟨h, hnx⟩)
    obtain ⟨more, heq, hnd, hstc, hcld, hlea⟩ := ih hnx' fun q hq n hn => by
      rcases mem_append.mp hq with hq | hq
      · rcases hnds q hq n hn with hn | hn
        · exact .inl (mem_append_left _ hn)
        · rcases mem_cons.mp hn with rfl | hn
          · exact .inl (mem_append_right _ mem_cons_self)
          · exact .inr (mem_append_right _ hn)
      · rw [mem_singleton.mp hq] at hn
        exact .inr (mem_append_left _ (mem_reverse.mpr hn))
    refine ⟨id :: more, ?_⟩
    rw [append_cons next id more, append_cons added id more]
    refine ⟨heq, hnd, cons_subset.mpr ⟨by simp, (append_subset.mp hstc).2⟩, hcld, fun T hT hnx hall => ?_⟩
    have hid : id ∈ T := hall id mem_cons_self
    refine hlea T hT (fun q hq => ?_) fun q hq => ?_
    · rcases mem_append.mp hq with hq | hq
      · exact hnx q hq
      · exact mem_singleton.mp hq ▸ hid
    · rcases mem_append.mp hq with hq | hq
      · exact hT id hid q (mem_reverse.mp hq)
      · exact hall q (mem_cons_of_mem _ hq)

/-- **`turnOn` gives the least closed set** with the set and `p`, and tells what else it added. -/
theorem turnOn_least (hon : on.Nodup) (hcld : C.Closed {q | q ∈ on}) :
    Tells on p (turnOn C on p) ∧ on ⊆ (turnOn C on p).1 ∧
      IsLeast {T | C.Closed T ∧ {q | q ∈ on} ⊆ T ∧ p ∈ T} {q | q ∈ (turnOn C on p).1} := by
  obtain ⟨more, heq, hnd, hp, hmr, hlea⟩ :=
    turnOnLoop_spec [] [p] hon fun q hq n hn => .inl (hcld q hq n hn)
  have hsub : on ⊆ on ++ more := subset_append_left ..
  rw [turnOn, heq]
  refine ⟨⟨hnd, ((nodup_append.mp hnd).2.1).filter _, fun q => ?_⟩, hsub, ⟨hmr, hsub, hp mem_cons_self⟩, ?_⟩
  · have hds : q ∈ on → q ∉ more := fun h h' => (nodup_append.mp hnd).2.2 q h q h' rfl
    simp only [nil_append, mem_filter, mem_append, decide_eq_true_eq]
    tauto
  · rintro T ⟨hT, honT, hpT⟩
    exact hlea T hT (fun q hq => honT hq) fun q hq => mem_singleton.mp hq ▸ hpT

theorem sweep_perm (hvis : visit.Nodup) (hsub : visit ⊆ next) :
    next.Perm ((sweep C next visit).1 ++ (sweep C next visit).2) := by
  induction visit generalizing next with
  | nil => simp [sweep]
  | cons id rest ih =>
    obtain ⟨hid, hrs⟩ := nodup_cons.mp hvis
    obtain ⟨hmem, hsub⟩ := cons_subset.mp hsub
    rw [sweep]
    split
    · have hlf : rest ⊆ next.erase id := fun x hx =>
        (mem_erase_of_ne fun h : x = id => hid (h ▸ hx)).mpr (hsub hx)
      exact (perm_cons_erase hmem).trans (((ih hrs hlf).cons id).trans perm_middle.symm)
    · exact ih hrs hsub

/-- A closed part of the set survives a pass. -/
theorem sweep_keeps {T : Set P} (hT : C.Closed T) (h : ∀ q ∈ T, q ∈ next) (visit : List P) :
    ∀ q ∈ T, q ∈ (sweep C next visit).1 := by
  induction visit generalizing next with
  | nil => exact h
  | cons id rest ih =>
    rw [sweep]
    split
    · rename_i hms
      obtain ⟨n, hn, hms⟩ := any_eq_true.mp hms
      have hid : id ∉ T := fun hid => of_decide_eq_true hms (h n (hT id hid n hn))
      exact ih fun q hq => (mem_erase_of_ne fun heq : q = id => hid (heq ▸ hq)).mpr (h q hq)
    · exact ih h

theorem needs_of_sweep (h : (sweep C next visit).2 = []) : ∀ q ∈ visit, ∀ n ∈ C.needs q, n ∈ next := by
  induction visit with
  | nil => exact fun q hq => absurd hq not_mem_nil
  | cons id rest ih =>
    rw [sweep] at h
    split at h
    · cases h
    rename_i hms
    refine forall_mem_cons.mpr ⟨fun n hn => ?_, ih h⟩
    by_contra hn'
    exact hms (any_eq_true.mpr ⟨n, hn, decide_eq_true hn'⟩)

theorem turnOffLoop_spec (removed : List P) (hnx : next.Nodup) :
    ∃ rest gone, turnOffLoop C next removed = (rest, removed ++ gone) ∧ next.Perm (rest ++ gone) ∧
      C.Closed {q | q ∈ rest} ∧ ∀ T : Set P, C.Closed T → (∀ q ∈ T, q ∈ next) → ∀ q ∈ T, q ∈ rest := by
  fun_induction turnOffLoop C next removed with
  | case1 next removed r h =>
    exact ⟨next, [], by simp, by simp, needs_of_sweep h, fun T _ hT => hT⟩
  | case2 next removed r h ih =>
    have hpm := sweep_perm (C := C) hnx (.refl next)
    obtain ⟨rest, gone, heq, hgn, hcld, hgr⟩ := ih ((hpm.nodup hnx).sublist (sublist_append_left ..))
    refine ⟨rest, r.2 ++ gone, by rw [heq, append_assoc], ?_, hcld, fun T hT hsub => ?_⟩
    · refine hpm.trans ((hgn.append_right _).trans ?_)
      rw [append_assoc]
      exact perm_append_comm.append_left _
    · exact hgr T hT (sweep_keeps hT hsub next)

/-- **`turnOff` gives the greatest closed part** of the set without `p`, and tells what else it removed. -/
theorem turnOff_greatest (hon : on.Nodup) : Tells on p (turnOff C on p) ∧ (turnOff C on p).1 ⊆ on ∧
    IsGreatest {T | C.Closed T ∧ T ⊆ {q | q ∈ on} ∧ p ∉ T} {q | q ∈ (turnOff C on p).1} := by
  obtain ⟨rest, gone, heq, hpm, hcld, hgr⟩ := turnOffLoop_spec (C := C) [] (hon.erase p)
  have hnd := nodup_append.mp (hpm.nodup (hon.erase p))
  have hmem : ∀ q, q ≠ p ∧ q ∈ on ↔ q ∈ rest ∨ q ∈ gone := fun q =>
    hon.mem_erase_iff.symm.trans (hpm.mem_iff.trans mem_append)
  rw [turnOff, heq]
  refine ⟨⟨hnd.1, hnd.2.1, fun q => ?_⟩, fun q hq => ((hmem q).mpr (.inl hq)).2,
    ⟨hcld, fun q hq => ((hmem q).mpr (.inl hq)).2, fun hp => ((hmem p).mpr (.inl hp)).1 rfl⟩, ?_⟩
  · have hds : q ∈ rest → q ∉ gone := fun h h' => hnd.2.2 q h q h' rfl
    have := hmem q
    simp only [nil_append]
    tauto
  · rintro T ⟨hT, honT, hpT⟩
    exact hgr T hT fun q hq => hon.mem_erase_iff.mpr ⟨fun h => hpT (h ▸ hq), honT hq⟩

/-! ### Sequences of actions -/

structure State.Valid (C : Catalogue P) (s : State P) : Prop where
  nodup : s.on.Nodup
  closed : C.Closed {q | q ∈ s.on}

variable {s : State P} {ids : List P}

/-- The loop of `bulk` goes one way, and collects what changed besides the ids. -/
structure Bulk (C : Catalogue P) (on ids : List P) (allOn : Bool) (r : List P × List P) : Prop where
  nodup : r.1.Nodup
  closed : C.Closed {q | q ∈ r.1}
  way : if allOn then r.1 ⊆ on else on ⊆ r.1
  mem_iff : ∀ q ∉ ids, q ∈ r.2 ↔ ¬(q ∈ on ↔ q ∈ r.1)

theorem Bulk.one {allOn : Bool} {r : List P × List P} (h : Bulk C on ids allOn r) (hp : p ∈ ids) :
    Bulk C on ids allOn (bulkOne C allOn r p) := by
  rw [bulkOne]
  have hway := h.way
  cases allOn with
  | true =>
    obtain ⟨htel, hsub, hgr⟩ := turnOff_greatest (C := C) (p := p) h.nodup
    refine ⟨htel.nodup, hgr.1.1, fun q hq => hway (hsub hq), fun q hq => ?_⟩
    have hne : q ≠ p := fun heq => hq (heq ▸ hp)
    have h₁ := @hway q
    have h₂ := @hsub q
    rw [if_pos rfl, mem_append, h.mem_iff q hq, htel.mem_iff]
    tauto
  | false =>
    rw [if_neg Bool.false_ne_true]
    split
    · exact h
    obtain ⟨htel, hsub, hlea⟩ := turnOn_least (p := p) h.nodup h.closed
    refine ⟨htel.nodup, hlea.1.1, fun q hq => hsub (hway hq), fun q hq => ?_⟩
    have hne : q ≠ p := fun heq => hq (heq ▸ hp)
    have h₁ := @hway q
    have h₂ := @hsub q
    rw [mem_append, h.mem_iff q hq, htel.mem_iff]
    tauto

end OpenVibes.Console.RoleEditor
