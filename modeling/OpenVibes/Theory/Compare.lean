import Mathlib.Tactic

/-!
# Comparison functions

A comparison function is a total preorder when it is `Std.TransCmp`. This module adds ways of making such functions that
the library does not have: through a function, of pairs, and of lists as if each went on for ever with one default item,
which is leaving that item out at their ends when it is the least (`compareLex_dropTrailing`).
-/

namespace OpenVibes.Theory

open List Std

variable {α β : Type*}

/-- What a total preorder gives to its users. -/
structure TotalPreorder (cmp : α → α → Ordering) : Prop where
  swap : ∀ a b, cmp b a = (cmp a b).swap
  trans : ∀ a b c, (cmp a b).isLE → (cmp b c).isLE → (cmp a c).isLE
  lt_of_lt_of_le : ∀ a b c, cmp a b = .lt → (cmp b c).isLE → cmp a c = .lt
  /-- Values that compare equal compare alike with every third value. -/
  congr : ∀ a b c, cmp a b = .eq → cmp a c = cmp b c ∧ cmp c a = cmp c b

theorem totalPreorder (cmp : α → α → Ordering) [TransCmp cmp] : TotalPreorder cmp where
  swap _ _ := OrientedCmp.eq_swap
  trans _ _ _ := TransCmp.isLE_trans
  lt_of_lt_of_le _ _ _ := TransCmp.lt_of_lt_of_isLE
  congr _ _ _ h := ⟨TransCmp.congr_left h, TransCmp.congr_right h⟩

theorem transCmp_comap (cmp : β → β → Ordering) [TransCmp cmp] (f : α → β) : TransCmp fun a b => cmp (f a) (f b) where
  eq_swap := OrientedCmp.eq_swap
  isLE_trans := TransCmp.isLE_trans

/-! ### Pairs -/

def cmpProd (c : α → α → Ordering) (d : β → β → Ordering) (p q : α × β) : Ordering :=
  (c p.1 q.1).then (d p.2 q.2)

instance (c : α → α → Ordering) (d : β → β → Ordering) [TransCmp c] [TransCmp d] :
    TransCmp (cmpProd c d) :=
  letI := transCmp_comap c (Prod.fst : α × β → α)
  letI := transCmp_comap d (Prod.snd : α × β → β)
  inferInstanceAs (TransCmp (compareLex (fun p q : α × β => c p.1 q.1) fun p q => d p.2 q.2))

instance (c : α → α → Ordering) (d : β → β → Ordering) [LawfulEqCmp c] [LawfulEqCmp d] :
    LawfulEqCmp (cmpProd c d) where
  compare_self := Ordering.then_eq_eq.mpr ⟨ReflCmp.compare_self, ReflCmp.compare_self⟩
  eq_of_compare {p q} h := by
    obtain ⟨h1, h2⟩ := Ordering.then_eq_eq.mp h
    exact Prod.ext (LawfulEqCmp.eq_of_compare h1) (LawfulEqCmp.eq_of_compare h2)

/-! ### Lists that go on for ever -/

theorem compareLex_append {cmp : α → α → Ordering} :
    ∀ {xs ys zs ws : List α}, xs.length = ys.length →
      List.compareLex cmp (xs ++ zs) (ys ++ ws) = (List.compareLex cmp xs ys).then (List.compareLex cmp zs ws)
  | [], [], _, _, _ => rfl
  | x :: xs, y :: ys, zs, ws, h => by
    rw [cons_append, cons_append, List.compareLex_cons_cons, List.compareLex_cons_cons,
      compareLex_append (Nat.succ.inj h), Ordering.then_assoc]

/-- `xs` made `n` items long by adding `d`. -/
def padTo (d : α) (n : ℕ) (xs : List α) : List α := xs ++ List.replicate (n - xs.length) d

/-- The lexicographic comparison of two lists, the shorter one going on with `d`. -/
def padLex (cmp : α → α → Ordering) (d : α) (xs ys : List α) : Ordering :=
  List.compareLex cmp (padTo d (max xs.length ys.length) xs) (padTo d (max xs.length ys.length) ys)

variable {n : ℕ} {xs ys : List α} {d : α} {p : α → Bool}

theorem length_padTo (h : xs.length ≤ n) : (padTo d n xs).length = n := by
  rw [padTo, length_append, length_replicate]
  omega

theorem padTo_append {m : ℕ} (h : xs.length ≤ m) (hmn : m ≤ n) :
    padTo d n xs = padTo d m xs ++ replicate (n - m) d := by
  rw [padTo, padTo, append_assoc, replicate_append_replicate]
  congr 2
  omega

theorem padLex_eq {cmp : α → α → Ordering} [ReflCmp cmp] (hx : xs.length ≤ n)
    (hy : ys.length ≤ n) : padLex cmp d xs ys = List.compareLex cmp (padTo d n xs) (padTo d n ys) := by
  have hm : max xs.length ys.length ≤ n := Nat.max_le.mpr ⟨hx, hy⟩
  have hrs : ∀ zs : List α, List.compareLex cmp zs zs = .eq := fun _ => ReflCmp.compare_self
  rw [padTo_append (Nat.le_max_left xs.length ys.length) hm, padTo_append (Nat.le_max_right xs.length ys.length) hm,
    compareLex_append (by rw [length_padTo (Nat.le_max_left _ _), length_padTo (Nat.le_max_right _ _)]),
    hrs, Ordering.then_eq, padLex]

instance (cmp : α → α → Ordering) [TransCmp cmp] (d : α) : TransCmp (padLex cmp d) where
  eq_swap {xs ys} := by
    rw [padLex, padLex, Nat.max_comm]
    exact OrientedCmp.eq_swap
  isLE_trans {xs ys zs} h₁ h₂ := by
    obtain ⟨n, hx, hy, hz⟩ : ∃ n, xs.length ≤ n ∧ ys.length ≤ n ∧ zs.length ≤ n :=
      ⟨xs.length + ys.length + zs.length, by omega, by omega, by omega⟩
    rw [padLex_eq hx hy] at h₁
    rw [padLex_eq hy hz] at h₂
    rw [padLex_eq hx hz]
    exact TransCmp.isLE_trans h₁ h₂

section

variable (cmp : α → α → Ordering)

include cmp

theorem padLex_cons_cons (d x y : α) (xs ys : List α) :
    padLex cmp d (x :: xs) (y :: ys) = (cmp x y).then (padLex cmp d xs ys) := by
  simp only [padLex, padTo, length_cons, Nat.add_max_add_right, Nat.add_sub_add_right, cons_append,
    List.compareLex_cons_cons]

theorem padLex_cons_nil (d x : α) (xs : List α) : padLex cmp d (x :: xs) [] = (cmp x d).then (padLex cmp d xs []) := by
  simp [padLex, padTo, replicate_succ, List.compareLex_cons_cons]

theorem padLex_nil_cons (d y : α) (ys : List α) : padLex cmp d [] (y :: ys) = (cmp d y).then (padLex cmp d [] ys) := by
  simp [padLex, padTo, replicate_succ, List.compareLex_cons_cons]

theorem find?_range_padLex (d : α) (xs ys : List α) :
    (((range (max xs.length ys.length)).map fun i => cmp (xs.getD i d) (ys.getD i d)).find? (· ≠ .eq)).getD .eq =
      padLex cmp d xs ys := by
  have hst : ∀ (f : ℕ → Ordering) n, (((range (n + 1)).map f).find? (· ≠ .eq)).getD .eq =
        (f 0).then ((((range n).map fun i => f (i + 1)).find? (· ≠ .eq)).getD .eq) := by
    intro f n
    rw [range_succ_eq_map, map_cons, map_map, find?_cons]
    cases f 0 <;> rfl
  induction xs generalizing ys with
  | nil =>
    induction ys with
    | nil => rfl
    | cons y ys ih =>
      rw [length_nil, Nat.zero_max, length_cons, hst, padLex_nil_cons, ← ih, length_nil, Nat.zero_max]
      rfl
  | cons x xs ih =>
    cases ys with
    | nil =>
      rw [length_nil, Nat.max_zero, length_cons, hst, padLex_cons_nil, ← ih, length_nil, Nat.max_zero]
      rfl
    | cons y ys =>
      rw [length_cons, length_cons, Nat.add_max_add_right, hst, padLex_cons_cons, ← ih]
      rfl

end

/-! ### Lists without their last defaults -/

/-- The list without the items at its end that satisfy `p`. -/
def dropTrailing (p : α → Bool) : List α → List α
  | [] => []
  | x :: xs => if (x :: xs).all p then [] else x :: dropTrailing p xs

theorem mem_of_mem_dropTrailing {x : α} (h : x ∈ dropTrailing p xs) : x ∈ xs := by
  induction xs with
  | nil => exact h
  | cons y xs ih =>
    rw [dropTrailing] at h
    split_ifs at h
    · exact absurd h not_mem_nil
    · rcases mem_cons.mp h with rfl | h
      · exact mem_cons_self
      · exact mem_cons_of_mem _ (ih h)

theorem dropTrailing_map {q : β → Bool} {f : α → β} (h : ∀ x ∈ xs, q (f x) = p x) :
    dropTrailing q (xs.map f) = (dropTrailing p xs).map f := by
  induction xs with
  | nil => rfl
  | cons x xs ih =>
    have hall : ((x :: xs).map f).all q = (x :: xs).all p := by
      rw [all_map, Bool.eq_iff_iff, all_eq_true, all_eq_true]
      exact forall₂_congr fun y hy => by rw [Function.comp, h y hy]
    rw [map_cons] at hall ⊢
    rw [dropTrailing, dropTrailing, hall, ih fun y hy => h y (mem_cons_of_mem _ hy)]
    split <;> rfl

section

variable [DecidableEq α] {cmp : α → α → Ordering}

theorem padLex_of_all [ReflCmp cmp] (hx : xs.all (· = d)) (hy : ys.all (· = d)) : padLex cmp d xs ys = .eq := by
  have hsf : cmp d d = .eq := ReflCmp.compare_self
  induction xs generalizing ys with
  | nil =>
    induction ys with
    | nil => rfl
    | cons y ys ih =>
      rw [all_cons, Bool.and_eq_true, decide_eq_true_eq] at hy
      rw [padLex_nil_cons, hy.1, hsf, ih hy.2]
      rfl
  | cons x xs ih =>
    rw [all_cons, Bool.and_eq_true, decide_eq_true_eq] at hx
    cases ys with
    | nil =>
      rw [padLex_cons_nil, hx.1, hsf, ih hx.2 rfl]
      rfl
    | cons y ys =>
      rw [all_cons, Bool.and_eq_true, decide_eq_true_eq] at hy
      rw [padLex_cons_cons, hx.1, hy.1, hsf, ih hx.2 hy.2]
      rfl

theorem padLex_of_all_of_not_all [ReflCmp cmp] (hd : ∀ x, x ≠ d → cmp d x = .lt)
    (hx : xs.all (· = d)) (hy : ¬ys.all (· = d)) : padLex cmp d xs ys = .lt := by
  have hsf : cmp d d = .eq := ReflCmp.compare_self
  induction ys generalizing xs with
  | nil => exact absurd rfl hy
  | cons y ys ih =>
    have hrs : ∀ {xs : List α}, xs.all (· = d) → (cmp d y).then (padLex cmp d xs ys) = .lt := by
      intro xs hxs
      by_cases heq : y = d
      · rw [heq, hsf, Ordering.eq_then]
        exact ih hxs fun h => hy (by simp [heq, h])
      · rw [hd y heq]
        rfl
    cases xs with
    | nil => rw [padLex_nil_cons, hrs rfl]
    | cons x xs =>
      rw [all_cons, Bool.and_eq_true, decide_eq_true_eq] at hx
      rw [padLex_cons_cons, hx.1, hrs hx.2]

/-- When the default is the least item, lists without it at their end can be compared as they are. -/
theorem compareLex_dropTrailing [TransCmp cmp] (hd : ∀ x, x ≠ d → cmp d x = .lt) (xs ys : List α) :
    List.compareLex cmp (dropTrailing (· = d) xs) (dropTrailing (· = d) ys) = padLex cmp d xs ys := by
  have hnil : ∀ zs : List α, zs.all (· = d) → dropTrailing (· = d) zs = [] := by
    intro zs hz
    cases zs with
    | nil => rfl
    | cons z zs => rw [dropTrailing, if_pos hz]
  induction xs generalizing ys with
  | nil =>
    by_cases hy : ys.all (· = d)
    · rw [hnil ys hy, padLex_of_all rfl hy]
      rfl
    rw [padLex_of_all_of_not_all hd rfl hy]
    cases ys with
    | nil => exact absurd rfl hy
    | cons y ys => rw [dropTrailing, dropTrailing, if_neg hy]; rfl
  | cons x xs ih =>
    by_cases hx : (x :: xs).all (· = d)
    · by_cases hy : ys.all (· = d)
      · rw [hnil _ hx, hnil ys hy, padLex_of_all hx hy]
        rfl
      rw [padLex_of_all_of_not_all hd hx hy, hnil _ hx]
      cases ys with
      | nil => exact absurd rfl hy
      | cons y ys => rw [dropTrailing, if_neg hy]; rfl
    · by_cases hy : ys.all (· = d)
      · rw [hnil ys hy, dropTrailing, if_neg hx, (totalPreorder (padLex cmp d)).swap ys,
          padLex_of_all_of_not_all hd hy hx]
        rfl
      · cases ys with
        | nil => exact absurd rfl hy
        | cons y ys =>
          rw [dropTrailing, if_neg hx, dropTrailing, if_neg hy, List.compareLex_cons_cons, ih, padLex_cons_cons]

end

end OpenVibes.Theory
