import Mathlib
import OpenVibes.Theory.Compare

/-!
# Regular expressions over separated texts

Over Mathlib's `RegularExpression`: classes of characters, bounded repetition, repetition at least once, and the removal
of the match of an expression anchored at the end. Two expressions that speak of the pieces of a text between separators
are characterised by what `List.splitOn` gives.
-/

namespace OpenVibes.Theory

open List

open scoped Computability

variable {α : Type*}

variable {s : List α} {r : RegularExpression α} {sep : α} {ts us : List (List α)}

namespace Regex

/-- `[…]`: one of the listed characters. -/
def oneOf : List α → RegularExpression α
  | [] => 0
  | c :: cs => .char c + oneOf cs

/-- `r{lo,hi}`: from `lo` to `hi` repetitions. -/
def between (r : RegularExpression α) (lo hi : ℕ) : RegularExpression α := r ^ lo * (1 + r) ^ (hi - lo)

/-- `r+`. -/
def oneOrMore (r : RegularExpression α) : RegularExpression α := r * r.star

/-- `r(sep r)*`: pieces with separators between them. -/
def separated (sep : α) (r : RegularExpression α) : RegularExpression α := r * (.char sep * r).star

/-! ### Classes and repetition -/

theorem mem_oneOf {cs : List α} : s ∈ (oneOf cs).matches' ↔ ∃ c ∈ cs, s = [c] := by
  induction cs with
  | nil => simp [oneOf, Language.notMem_zero]
  | cons c cs ih =>
    rw [oneOf, RegularExpression.matches'_add, Language.mem_add, ih, RegularExpression.matches'_char]
    refine .trans (or_congr_left Set.mem_singleton_iff) ?_
    simp

theorem mem_oneOrMore : s ∈ (oneOrMore r).matches' ↔ ∃ ts ≠ [], s = ts.flatten ∧ ∀ t ∈ ts, t ∈ r.matches' := by
  rw [oneOrMore, RegularExpression.matches'_mul, RegularExpression.matches'_star, Language.mem_mul]
  constructor
  · rintro ⟨t, ht, u, hu, rfl⟩
    obtain ⟨ts, rfl, hts⟩ := Language.mem_kstar.mp hu
    exact ⟨t :: ts, cons_ne_nil _ _, rfl, forall_mem_cons.mpr ⟨ht, hts⟩⟩
  rintro ⟨ts, hne, rfl, hts⟩
  obtain _ | ⟨t, ts⟩ := ts
  · exact absurd rfl hne
  · obtain ⟨ht, hts⟩ := forall_mem_cons.mp hts
    exact ⟨t, ht, ts.flatten, Language.mem_kstar.mpr ⟨ts, rfl, hts⟩, rfl⟩

/-- The expression matches the single characters that satisfy `p`, and nothing else. -/
def IsClass (r : RegularExpression α) (p : α → Prop) : Prop := ∀ s, s ∈ r.matches' ↔ ∃ c, p c ∧ s = [c]

theorem isClass_oneOf (cs : List α) : IsClass (oneOf cs) (· ∈ cs) := fun _ => mem_oneOf

theorem isClass_char (c : α) : IsClass (.char c) (· = c) := fun s => by
  rw [RegularExpression.matches'_char, exists_eq_left]
  exact Set.mem_singleton_iff

section

variable {p : α → Prop} {n : ℕ}

theorem IsClass.mem_pow (hr : IsClass r p) : s ∈ r.matches' ^ n ↔ s.length = n ∧ ∀ c ∈ s, p c := by
  induction n generalizing s with
  | zero =>
    rw [pow_zero, Language.mem_one, length_eq_zero_iff]
    constructor
    · rintro rfl
      simp
    · exact And.left
  | succ n ih =>
    rw [pow_succ', Language.mem_mul]
    constructor
    · rintro ⟨a, ha, b, hb, rfl⟩
      obtain ⟨c, hc, rfl⟩ := (hr a).mp ha
      obtain ⟨hlen, hall⟩ := ih.mp hb
      exact ⟨by simp [hlen], forall_mem_cons.mpr ⟨hc, hall⟩⟩
    · rintro ⟨hlen, hall⟩
      obtain _ | ⟨c, s⟩ := s
      · cases hlen
      · obtain ⟨hc, hall⟩ := forall_mem_cons.mp hall
        exact ⟨[c], (hr [c]).mpr ⟨c, hc, rfl⟩, s, ih.mpr ⟨by simpa using hlen, hall⟩, rfl⟩

theorem IsClass.mem_optional_pow (hr : IsClass r p) : s ∈ (1 + r.matches') ^ n ↔ s.length ≤ n ∧ ∀ c ∈ s, p c := by
  induction n generalizing s with
  | zero =>
    rw [pow_zero, Language.mem_one, Nat.le_zero, length_eq_zero_iff]
    constructor
    · rintro rfl
      simp
    · exact And.left
  | succ n ih =>
    rw [pow_succ', Language.mem_mul]
    constructor
    · rintro ⟨a, ha, b, hb, rfl⟩
      obtain ⟨hlen, hall⟩ := ih.mp hb
      rcases (Language.mem_add _ _ _).mp ha with ha | ha
      · rw [(Language.mem_one _).mp ha]
        exact ⟨by simpa using Nat.le_succ_of_le hlen, by simpa using hall⟩
      · obtain ⟨c, hc, rfl⟩ := (hr a).mp ha
        exact ⟨by simpa using hlen, forall_mem_cons.mpr ⟨hc, hall⟩⟩
    · rintro ⟨hlen, hall⟩
      obtain _ | ⟨c, s⟩ := s
      · exact ⟨[], (Language.mem_add _ _ _).mpr (.inl ((Language.mem_one _).mpr rfl)), [], ih.mpr (by simp), rfl⟩
      · obtain ⟨hc, hall⟩ := forall_mem_cons.mp hall
        exact ⟨[c], (Language.mem_add _ _ _).mpr (.inr ((hr [c]).mpr ⟨c, hc, rfl⟩)), s,
          ih.mpr ⟨by simpa using hlen, hall⟩, rfl⟩

/-- **`[…]{lo,hi}`** is a bound on the length and on the characters. -/
theorem IsClass.mem_between (hr : IsClass r p) {lo hi : ℕ} (h : lo ≤ hi) :
    s ∈ (between r lo hi).matches' ↔ lo ≤ s.length ∧ s.length ≤ hi ∧ ∀ c ∈ s, p c := by
  rw [between, RegularExpression.matches'_mul, RegularExpression.matches'_pow, RegularExpression.matches'_pow,
    RegularExpression.matches'_add, RegularExpression.matches'_epsilon, Language.mem_mul]
  constructor
  · rintro ⟨a, ha, b, hb, rfl⟩
    obtain ⟨hla, hca⟩ := hr.mem_pow.mp ha
    obtain ⟨hlb, hcb⟩ := hr.mem_optional_pow.mp hb
    rw [length_append]
    refine ⟨by omega, by omega, fun c hc => ?_⟩
    rcases mem_append.mp hc with hc | hc
    · exact hca c hc
    · exact hcb c hc
  · rintro ⟨hlo, hhi, hall⟩
    refine ⟨s.take lo, hr.mem_pow.mpr ⟨by rw [length_take]; omega, ?_⟩, s.drop lo,
      hr.mem_optional_pow.mpr ⟨by rw [length_drop]; omega, ?_⟩, take_append_drop lo s⟩
    · exact fun c hc => hall c (mem_of_mem_take hc)
    · exact fun c hc => hall c (mem_of_mem_drop hc)

theorem IsClass.mem_oneOrMore (hr : IsClass r p) : s ∈ (oneOrMore r).matches' ↔ s ≠ [] ∧ ∀ c ∈ s, p c := by
  rw [Regex.mem_oneOrMore]
  constructor
  · rintro ⟨ts, hne, rfl, hts⟩
    refine ⟨fun h => ?_, fun c hc => ?_⟩
    · obtain ⟨t, ht⟩ := exists_mem_of_ne_nil ts hne
      obtain ⟨c, -, rfl⟩ := (hr t).mp (hts t ht)
      exact absurd (flatten_eq_nil_iff.mp h _ ht) (cons_ne_nil _ _)
    · obtain ⟨t, ht, hct⟩ := mem_flatten.mp hc
      obtain ⟨d, hd, rfl⟩ := (hr t).mp (hts t ht)
      rwa [mem_singleton.mp hct]
  · rintro ⟨hne, hall⟩
    refine ⟨s.map ([·]), by simpa using hne, (flatMap_singleton' s).symm, fun t ht => ?_⟩
    obtain ⟨c, hc, rfl⟩ := mem_map.mp ht
    exact (hr [c]).mpr ⟨c, hall c hc, rfl⟩

end

/-! ### Texts of pieces -/

def led (sep : α) (ts : List (List α)) : List α := (ts.map (sep :: ·)).flatten

@[simp] theorem led_nil (sep : α) : led sep [] = [] := rfl

@[simp] theorem led_cons (sep : α) (t : List α) (ts : List (List α)) : led sep (t :: ts) = sep :: t ++ led sep ts := rfl

theorem intercalate_cons_led (sep : α) (t : List α) (ts : List (List α)) :
    [sep].intercalate (t :: ts) = t ++ led sep ts := by
  induction ts generalizing t with
  | nil => simp
  | cons u ts ih => rw [intercalate_cons_cons, ih, led_cons]; simp

theorem exists_led (h : ∀ u ∈ us, u ∈ (RegularExpression.char sep * r).matches') :
    ∃ ts, us.flatten = led sep ts ∧ (us = [] ↔ ts = []) ∧ ∀ t ∈ ts, t ∈ r.matches' := by
  induction us with
  | nil => exact ⟨[], by simp⟩
  | cons u us ih =>
    obtain ⟨hu, hus⟩ := forall_mem_cons.mp h
    obtain ⟨ts, heq, -, hts⟩ := ih hus
    rw [RegularExpression.matches'_mul, RegularExpression.matches'_char, Language.mem_mul] at hu
    obtain ⟨a, ha, t, ht, rfl⟩ := hu
    rw [Set.mem_singleton_iff.mp ha]
    exact ⟨t :: ts, by simp [heq], by simp, forall_mem_cons.mpr ⟨ht, hts⟩⟩

theorem mem_led (h : ∀ t ∈ ts, t ∈ r.matches') :
    ∀ u ∈ ts.map (sep :: ·), u ∈ (RegularExpression.char sep * r).matches' := by
  intro u hu
  obtain ⟨t, ht, rfl⟩ := mem_map.mp hu
  rw [RegularExpression.matches'_mul, RegularExpression.matches'_char]
  exact ⟨[sep], rfl, t, h t ht, rfl⟩

theorem mem_separated :
    s ∈ (separated sep r).matches' ↔ ∃ t ts, s = [sep].intercalate (t :: ts) ∧ ∀ u ∈ t :: ts, u ∈ r.matches' := by
  rw [separated, RegularExpression.matches'_mul, RegularExpression.matches'_star, Language.mem_mul]
  constructor
  · rintro ⟨t, ht, v, hv, rfl⟩
    obtain ⟨us, rfl, hus⟩ := Language.mem_kstar.mp hv
    obtain ⟨ts, heq, -, hts⟩ := exists_led hus
    exact ⟨t, ts, by rw [intercalate_cons_led, heq], forall_mem_cons.mpr ⟨ht, hts⟩⟩
  · rintro ⟨t, ts, rfl, h⟩
    obtain ⟨ht, hts⟩ := forall_mem_cons.mp h
    exact ⟨t, ht, led sep ts, Language.mem_kstar.mpr ⟨_, rfl, mem_led hts⟩, (intercalate_cons_led sep t ts).symm⟩

theorem mem_oneOrMore_led :
    s ∈ (oneOrMore (.char sep * r)).matches' ↔ ∃ ts ≠ [], s = led sep ts ∧ ∀ t ∈ ts, t ∈ r.matches' := by
  rw [mem_oneOrMore]
  constructor
  · rintro ⟨us, hne, rfl, hus⟩
    obtain ⟨ts, heq, hiff, hts⟩ := exists_led hus
    exact ⟨ts, fun h => hne (hiff.mpr h), heq, hts⟩
  · rintro ⟨ts, hne, rfl, hts⟩
    exact ⟨_, by simpa using hne, rfl, mem_led hts⟩

variable [DecidableEq α] {t : List α}

/-- **`r(sep r)*`** matches a text when `r` matches each of its pieces. -/
theorem rmatch_separated (hr : ∀ t ∈ r.matches', sep ∉ t) :
    (separated sep r).rmatch s ↔ ∀ t ∈ s.splitOn sep, t ∈ r.matches' := by
  rw [RegularExpression.rmatch_iff_matches', mem_separated]
  constructor
  · rintro ⟨t, ts, rfl, h⟩
    rw [splitOn_intercalate sep (fun u hu => hr u (h u hu)) (cons_ne_nil _ _)]
    exact h
  · intro h
    obtain ⟨t, ts, hts⟩ := exists_cons_of_ne_nil (splitOn_ne_nil sep s)
    exact ⟨t, ts, by rw [← hts, intercalate_splitOn], by rwa [← hts]⟩

/-! ### Removing a match at the end -/

/-- The text without the match of `r$`: of the suffixes that `r` matches, the one that starts first is removed. -/
def removeSuffix (r : RegularExpression α) : List α → List α
  | [] => []
  | c :: s => if r.rmatch (c :: s) then [] else c :: removeSuffix r s

theorem led_inj (ht : ∀ t ∈ ts, sep ∉ t) (hu : ∀ u ∈ us, sep ∉ u) (h : led sep ts = led sep us) : ts = us := by
  have hspl : ∀ {vs : List (List α)}, (∀ v ∈ vs, sep ∉ v) → (led sep vs).splitOn sep = [] :: vs := by
    intro vs hv
    have h := splitOn_intercalate sep (forall_mem_cons.mpr ⟨not_mem_nil, hv⟩) (cons_ne_nil [] vs)
    rwa [intercalate_cons_led, nil_append] at h
  have := (hspl ht).symm.trans ((congrArg (splitOn sep) h).trans (hspl hu))
  exact (cons.inj this).2

theorem removeSuffix_append (ht : sep ∉ t) (s : List α) :
    removeSuffix (oneOrMore (.char sep * r)) (t ++ s) = t ++ removeSuffix (oneOrMore (.char sep * r)) s := by
  induction t with
  | nil => rfl
  | cons c t ih =>
    rw [mem_cons, not_or] at ht
    have hno : ¬(oneOrMore (.char sep * r)).rmatch (c :: (t ++ s)) := by
      rw [RegularExpression.rmatch_iff_matches', mem_oneOrMore_led]
      rintro ⟨ts, hne, heq, -⟩
      obtain _ | ⟨u, ts⟩ := ts
      · exact hne rfl
      · exact ht.1 (cons.inj heq).1.symm
    rw [cons_append, removeSuffix, if_neg hno, ih ht.2, cons_append]

theorem removeSuffix_led (hr : ∀ t ∈ r.matches', sep ∉ t) (ht : ∀ t ∈ ts, sep ∉ t) :
    removeSuffix (oneOrMore (.char sep * r)) (led sep ts) = led sep (dropTrailing r.rmatch ts) := by
  induction ts with
  | nil => rfl
  | cons t ts ih =>
    have hmch : (oneOrMore (.char sep * r)).rmatch (led sep (t :: ts)) ↔ (t :: ts).all r.rmatch := by
      rw [RegularExpression.rmatch_iff_matches', mem_oneOrMore_led, all_eq_true]
      simp only [RegularExpression.rmatch_iff_matches']
      constructor
      · rintro ⟨us, -, heq, hus⟩
        rw [led_inj ht (fun u hu => hr u (hus u hu)) heq]
        exact hus
      · exact fun h => ⟨t :: ts, cons_ne_nil _ _, rfl, h⟩
    rw [dropTrailing]
    by_cases h : (t :: ts).all r.rmatch
    · rw [if_pos h, led_cons, cons_append, removeSuffix, ← cons_append, ← led_cons, if_pos (hmch.mpr h), led_nil]
    · obtain ⟨ht₀, hts⟩ := forall_mem_cons.mp ht
      rw [if_neg h, led_cons, cons_append, removeSuffix, ← cons_append, ← led_cons,
        if_neg (fun h' => h (hmch.mp h')), removeSuffix_append ht₀, ih hts, led_cons, cons_append]

/-- **Removing `(sep r)+$`** drops the last pieces that `r` matches, though never the first. -/
theorem removeSuffix_separated (hr : ∀ t ∈ r.matches', sep ∉ t) (ht : ∀ u ∈ t :: ts, sep ∉ u) :
    removeSuffix (oneOrMore (.char sep * r)) ([sep].intercalate (t :: ts)) =
      [sep].intercalate (t :: dropTrailing r.rmatch ts) := by
  obtain ⟨ht₀, hts⟩ := forall_mem_cons.mp ht
  rw [intercalate_cons_led, removeSuffix_append ht₀, removeSuffix_led hr hts, intercalate_cons_led]

end Regex

end OpenVibes.Theory
