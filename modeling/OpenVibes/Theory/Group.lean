import Mathlib.Tactic

/-!
# Grouping items by a key

A loop over a list that changes, for each item, the value at its key of an ordered map. The value at a key is what the
items of that key make of it, so the others, and items that change nothing, can be left out.
-/

namespace OpenVibes.Theory

open List Std

variable {α β κ : Type*} {cmp : κ → κ → Ordering}

/-- The map of a loop over `xs` that changes the value at `key x` by `step x`. -/
def group (cmp : κ → κ → Ordering) (key : α → κ) (step : α → Option β → Option β) (xs : List α) :
    TreeMap κ β cmp :=
  xs.foldl (fun m x => m.alter (key x) (step x)) ∅

variable [TransCmp cmp] [LawfulEqCmp cmp] [DecidableEq κ] {key : α → κ} {step : α → Option β → Option β}

variable {p : α → Bool} {bs : List (List κ)} {l : List α} (xs : List α)

theorem getElem?_group (k : κ) :
    (group cmp key step xs)[k]? = (xs.filter fun x => key x = k).foldl (fun o x => step x o) none := by
  have h : ∀ m : TreeMap κ β cmp, (xs.foldl (fun m x => m.alter (key x) (step x)) m)[k]? =
      (xs.filter fun x => key x = k).foldl (fun o x => step x o) m[k]? := by
    induction xs with
    | nil => intro m; rfl
    | cons x xs ih =>
      intro m
      rw [foldl_cons, ih, TreeMap.getElem?_alter]
      by_cases hk : key x = k
      · rw [if_pos (LawfulEqCmp.compare_eq_iff_eq.mpr hk), filter_cons_of_pos (by simpa using hk), foldl_cons, hk]
      · rw [if_neg (mt LawfulEqCmp.compare_eq_iff_eq.mp hk), filter_cons_of_neg (by simpa using hk)]
  rw [group, h]
  rfl

theorem group_filter_of_skip {xs : List α} (h : ∀ x ∈ xs, p x = false → ∀ o, step x o = o) :
    (group cmp key step (xs.filter p)).toList = (group cmp key step xs).toList := by
  refine TreeMap.Equiv.toList_eq (TreeMap.Equiv.of_forall_constGet?_eq fun k => ?_)
  rw [getElem?_group, getElem?_group, filter_filter]
  generalize (none : Option β) = o
  induction xs generalizing o with
  | nil => rfl
  | cons x xs ih =>
    have hrs := ih fun y hy => h y (mem_cons_of_mem _ hy)
    by_cases hk : key x = k
    · cases hp : p x with
      | true =>
        rw [filter_cons_of_pos (by simp [hk, hp]), filter_cons_of_pos (by simpa using hk), foldl_cons,
          foldl_cons, hrs]
      | false =>
        rw [filter_cons_of_neg (by simp [hp]), filter_cons_of_pos (by simpa using hk), foldl_cons,
          h x mem_cons_self hp, hrs]
    · rw [filter_cons_of_neg (by simp [hk]), filter_cons_of_neg (by simpa using hk), hrs]

theorem group_filter_key (p : κ → Bool) : (group cmp key step (xs.filter fun x => p (key x))).toList =
      (group cmp key step xs).toList.filter fun e => p e.1 := by
  rw [← TreeMap.toList_filter (f := fun k _ => p k)]
  refine TreeMap.Equiv.toList_eq (TreeMap.Equiv.of_forall_constGet?_eq fun k => ?_)
  rw [TreeMap.getElem?_filter', getElem?_group, getElem?_group, filter_filter]
  have hpk : ∀ x, (decide (key x = k) && p (key x)) = (decide (key x = k) && p k) := fun x => by
    by_cases hk : key x = k <;> simp [hk]
  simp only [hpk]
  cases p k with
  | true =>
    simp only [Bool.and_true]
    cases (xs.filter fun x => key x = k).foldl (fun o x => step x o) none <;> rfl
  | false => simp

theorem mem_group {xs : List α} {k : κ} {b : β} :
    (k, b) ∈ (group cmp key step xs).toList ↔
      (xs.filter fun x => key x = k).foldl (fun o x => step x o) none = some b := by
  rw [TreeMap.mem_toList_iff_getElem?_eq_some, getElem?_group]

omit [TransCmp cmp] [LawfulEqCmp cmp] [DecidableEq κ] in
theorem foldl_some (o : Option α) : xs.foldl (fun _ x => some x) o = xs.getLast?.or o := by
  induction xs generalizing o with
  | nil => rfl
  | cons x xs ih =>
    rw [foldl_cons, ih, getLast?_cons]
    cases xs.getLast? <;> rfl

omit [TransCmp cmp] [LawfulEqCmp cmp] [DecidableEq κ] in
theorem foldl_collects {σ : Type*} {add : σ → α → σ} (mem : σ → Prop) (hit : α → Prop)
    (h : ∀ s x, mem (add s x) ↔ mem s ∨ hit x) (xs : List α) (s : σ) :
    mem (xs.foldl add s) ↔ mem s ∨ ∃ x ∈ xs, hit x := by
  induction xs generalizing s with
  | nil => simp
  | cons x xs ih =>
    rw [foldl_cons, ih, h]
    simp only [mem_cons, exists_eq_or_imp, or_assoc]

/-! ### Batches of keys -/

section

variable (key : α → κ)

theorem flatMap_filter_cons {b : List κ} (h : ∀ k ∈ b, k ∉ bs.flatten) (l : List α) :
    ((b :: bs).flatMap fun b => l.filter fun x => key x ∈ b) = (l.filter fun x => key x ∈ b) ++
        bs.flatMap fun b' => (l.filter fun x => key x ∉ b).filter fun x => key x ∈ b' := by
  rw [flatMap_cons]
  congr 1
  refine flatMap_congr fun b' hb' => ?_
  rw [filter_filter]
  refine filter_congr fun x _ => ?_
  by_cases hx : key x ∈ b'
  · have hb : key x ∉ b := fun hb => h _ hb (mem_flatten.mpr ⟨b', hb', hx⟩)
    simp [hx, hb]
  · simp [hx]

theorem flatMap_filter_perm (hbs : bs.flatten.Nodup) (hl : ∀ x ∈ l, key x ∈ bs.flatten) :
    (bs.flatMap fun b => l.filter fun x => key x ∈ b).Perm l := by
  induction bs generalizing l with
  | nil =>
    have hnil : l = [] := eq_nil_iff_forall_not_mem.mpr fun x hx => by simpa using hl x hx
    rw [hnil]
    exact List.Perm.nil
  | cons b bs ih =>
    rw [flatten_cons, nodup_append] at hbs
    rw [flatMap_filter_cons key (fun k hk hk' => hbs.2.2 k hk k hk' rfl)]
    refine (List.Perm.append_left _ (ih hbs.2.1 fun x hx => ?_)).trans ?_
    · obtain ⟨hx, hb⟩ := mem_filter.mp hx
      have := hl x hx
      rw [flatten_cons, mem_append] at this
      exact this.resolve_left (by simpa using hb)
    · simpa using filter_append_perm (fun x => decide (key x ∈ b)) l

omit [TransCmp cmp] [LawfulEqCmp cmp] [DecidableEq κ] in
theorem filter_append_filter_not (h : l.Pairwise fun x y => p y → p x) :
    l.filter p ++ l.filter (fun x => !p x) = l := by
  induction l with
  | nil => rfl
  | cons x l ih =>
    obtain ⟨hx, hl⟩ := pairwise_cons.mp h
    cases hp : p x with
    | true => rw [filter_cons_of_pos hp, filter_cons_of_neg (by simp [hp]), cons_append, ih hl]
    | false =>
      have hnn : l.filter p = [] := filter_eq_nil_iff.mpr fun y hy hpy => by simp [hx y hy hpy] at hp
      rw [filter_cons_of_neg (by simp [hp]), filter_cons_of_pos (by simp [hp]), hnn, nil_append,
        filter_eq_self.mpr fun y hy => by simpa using filter_eq_nil_iff.mp hnn y hy]

variable (cmp) in
theorem flatMap_filter_of_sorted (hbs : bs.flatten.Pairwise fun a b => cmp a b = .lt)
    (hs : l.Pairwise fun x y => (cmp (key x) (key y)).isLE) (hl : ∀ x ∈ l, key x ∈ bs.flatten) :
    (bs.flatMap fun b => l.filter fun x => key x ∈ b) = l := by
  induction bs generalizing l with
  | nil =>
    have hnil : l = [] := eq_nil_iff_forall_not_mem.mpr fun x hx => by simpa using hl x hx
    rw [hnil]
    rfl
  | cons b bs ih =>
    rw [flatten_cons, pairwise_append] at hbs
    have hds : ∀ k ∈ b, k ∉ bs.flatten := fun k hk hk' => by
      have hlt := hbs.2.2 k hk k hk'
      have heq : cmp k k = .eq := ReflCmp.compare_self
      rw [heq] at hlt
      cases hlt
    have hrs : ∀ x ∈ l, key x ∉ b → key x ∈ bs.flatten := fun x hx hb => by
      have := hl x hx
      rw [flatten_cons, mem_append] at this
      exact this.resolve_left hb
    rw [flatMap_filter_cons key hds, ih hbs.2.1 (hs.filter _) fun x hx => by
      obtain ⟨hx, hb⟩ := mem_filter.mp hx
      exact hrs x hx (by simpa using hb)]
    have hdw : l.Pairwise fun x y => decide (key y ∈ b) → decide (key x ∈ b) :=
      hs.imp_of_mem fun {x y} hx _ hle hy => by
        by_contra hxb
        have hlt := hbs.2.2 _ (of_decide_eq_true hy) _ (hrs x hx (by simpa using hxb))
        have hsw : cmp (key x) (key y) = (cmp (key y) (key x)).swap := OrientedCmp.eq_swap
        rw [hsw, hlt] at hle
        cases hle
    simpa using filter_append_filter_not hdw

end

end OpenVibes.Theory
