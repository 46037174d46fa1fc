import Mathlib.Data.List.TakeWhile
import OpenVibes.Rust.Bytes
import OpenVibes.Theory.Compare
import OpenVibes.Theory.Loop

/-!
# dpkg version order

`crates/openvibes-vulns/src/dpkgver.rs`: the loops of `verrevcmp` over both strings are `Theory.runLoop`s; skipping
zeros is `List.dropWhile`. The meaning is Debian Policy's: a part is a list of chunks, a run of non-digits and the
number after it (`chunks`), compared one after the other, a string that has ended going on with empty runs and zeros
(`Theory.padLex`). Runs of non-digits compare in the order `~`, the end of the run, letters, everything else (`cmpRun`).
-/

namespace OpenVibes.Vulns.Dpkg

open Rust Theory List Std

/-! ### The program -/

/-- Sort weight of one character; digits and the end weigh the same. -/
def weight : Option UInt8 → ℤ
  | none => 0
  | some c =>
    if isAsciiDigit c then 0
    else if isAsciiAlphabetic c then c.toNat
    else if c = 126 then -1
    else c.toNat + 256

/-- `digit`: the string begins with a digit. -/
def digit (s : Bytes) : Bool := s.head?.any isAsciiDigit

/-- The loop over non-digits: a difference of weights decides, or both strings are at a digit or the end. -/
def nonDigitStep : Bytes × Bytes → (Bytes × Bytes) ⊕ (Ordering ⊕ (Bytes × Bytes))
  | (a, b) =>
    if (a ≠ [] ∧ digit a = false) ∨ (b ≠ [] ∧ digit b = false) then
      if weight a.head? ≠ weight b.head? then .inr (.inl (compare (weight a.head?) (weight b.head?)))
      else .inl (a.tail, b.tail)
    else .inr (.inr (a, b))

/-- The loop over digits, with the first difference so far. -/
def digitStep : Ordering × Bytes × Bytes → (Ordering × Bytes × Bytes) ⊕ (Ordering × Bytes × Bytes)
  | (first, a, b) =>
    if digit a ∧ digit b then
      .inl (if first = .eq then compare (a.headD 0) (b.headD 0) else first, a.tail, b.tail)
    else .inr (first, a, b)

theorem nonDigitStep_decreases : Decreases nonDigitStep fun s => s.1.length + s.2.length := by
  rintro ⟨a, b⟩ ⟨a', b'⟩ h
  simp only [nonDigitStep] at h
  split_ifs at h with h1 h2
  cases h
  simp only [length_tail]
  rcases h1 with ⟨h1, -⟩ | ⟨h1, -⟩ <;> have := length_pos_iff.mpr h1 <;> omega

theorem digitStep_decreases : Decreases digitStep fun s => s.2.1.length := by
  rintro ⟨first, a, b⟩ ⟨first', a', b'⟩ h
  simp only [digitStep] at h
  by_cases h1 : digit a ∧ digit b
  · rw [if_pos h1] at h
    obtain ⟨-, h⟩ := Prod.mk.inj (Sum.inl.inj h)
    cases h
    cases a with
    | nil => simp [digit] at h1
    | cons c a => simp
  · rw [if_neg h1] at h
    cases h

/-- What follows the digits: the string with digits left has the longer number; else the first difference decides. -/
def afterDigits : Ordering × Bytes × Bytes → (Bytes × Bytes) ⊕ Ordering
  | (first, a, b) =>
    if digit a then .inr .gt
    else if digit b then .inr .lt
    else if first ≠ .eq then .inr first
    else .inl (a, b)

def verrevStep : Bytes × Bytes → (Bytes × Bytes) ⊕ Ordering
  | (a, b) =>
    if a = [] ∧ b = [] then .inr .eq
    else
      match runLoop nonDigitStep _ nonDigitStep_decreases (a, b) with
      | .inl order => .inr order
      | .inr (a, b) =>
        afterDigits (runLoop digitStep _ digitStep_decreases (.eq, a.dropWhile (· == 48), b.dropWhile (· == 48)))

/-! ### The meaning -/

def nonDigit (c : UInt8) : Bool := !isAsciiDigit c

/-- Where a character, or the end of the run, stands in Policy's order: `~`, the end, letters, everything else. -/
def place : Option UInt8 → ℕ × ℕ
  | none => (1, 0)
  | some c =>
    if isAsciiDigit c then (1, 0)
    else if c = 126 then (0, 0)
    else if isAsciiAlphabetic c then (2, c.toNat)
    else (3, c.toNat)

def cmpPlace : ℕ × ℕ → ℕ × ℕ → Ordering := compareLex (compareOn Prod.fst) (compareOn Prod.snd)

def places (run : Bytes) : List (ℕ × ℕ) := run.map (place ∘ some) ++ [place none]

def cmpRun (x y : Bytes) : Ordering := List.compareLex cmpPlace (places x) (places y)

/-- The first chunk of a string: a run of non-digits and the number after it. -/
def chunk (s : Bytes) : Bytes × ℕ :=
  (s.takeWhile nonDigit, decimal ((s.dropWhile nonDigit).takeWhile isAsciiDigit))

def afterChunk (s : Bytes) : Bytes := (s.dropWhile nonDigit).dropWhile isAsciiDigit

theorem length_afterChunk_le (s : Bytes) : (afterChunk s).length ≤ s.length :=
  ((dropWhile_sublist _).trans (dropWhile_sublist _)).length_le

variable {s a b : Bytes}

theorem length_afterChunk_lt (h : s ≠ []) : (afterChunk s).length < s.length := by
  cases s with
  | nil => exact absurd rfl h
  | cons c s =>
    rw [afterChunk, dropWhile_cons]
    split_ifs with hc
    · exact Nat.lt_succ_of_le (((dropWhile_sublist _).trans (dropWhile_sublist _)).length_le)
    · rw [dropWhile_cons_of_pos (by simpa [nonDigit] using hc)]
      exact Nat.lt_succ_of_le (dropWhile_sublist _).length_le

def chunks (s : Bytes) : List (Bytes × ℕ) :=
  if _h : s = [] then [] else chunk s :: chunks (afterChunk s)
  termination_by s.length
  decreasing_by exact length_afterChunk_lt ‹_›

/-- The order of chunks: the run of non-digits, then the number. -/
def cmpChunk (x y : Bytes × ℕ) : Ordering := (cmpRun x.1 y.1).then (compare x.2 y.2)

/-- **Debian Policy's order** of the chunks of two strings. -/
def cmpChunks : List (Bytes × ℕ) → List (Bytes × ℕ) → Ordering := padLex cmpChunk ([], 0)

/-! ### Characters and runs -/

instance : TransCmp cmpPlace := inferInstanceAs (TransCmp (compareLex _ _))

instance : TransCmp cmpRun := transCmp_comap (List.compareLex cmpPlace) places

instance : TransCmp cmpChunk :=
  letI := transCmp_comap cmpRun fun x : Bytes × ℕ => x.1
  inferInstanceAs (TransCmp (compareLex (fun x y : Bytes × ℕ => cmpRun x.1 y.1) (compareOn Prod.snd)))

instance : TransCmp cmpChunks := inferInstanceAs (TransCmp (padLex _ _))

def weightOf : ℕ × ℕ → ℤ
  | (0, _) => -1
  | (1, _) => 0
  | (2, k) => k
  | (_, k) => k + 256

theorem weight_eq (o : Option UInt8) : weight o = weightOf (place o) := by
  cases o with
  | none => rfl
  | some c =>
    simp only [weight, place]
    by_cases h1 : isAsciiDigit c
    · simp [h1, weightOf]
    · by_cases h2 : c = 126
      · subst h2; decide
      · by_cases h3 : isAsciiAlphabetic c <;> simp [h1, h2, h3, weightOf]

theorem place_cases (o : Option UInt8) :
    place o = (0, 0) ∨ place o = (1, 0) ∨ (∃ k, place o = (2, k) ∧ 0 < k ∧ k < 256) ∨ ∃ k, place o = (3, k) := by
  cases o with
  | none => exact .inr (.inl rfl)
  | some c =>
    simp only [place]
    split_ifs with h1 h2 h3
    · exact .inr (.inl rfl)
    · exact .inl rfl
    · refine .inr (.inr (.inl ⟨_, rfl, ?_, c.toNat_lt⟩))
      rw [Nat.pos_iff_ne_zero]
      intro h0
      rw [show c = 0 from UInt8.toNat_inj.mp h0] at h3
      exact absurd h3 (by decide)
    · exact .inr (.inr (.inr ⟨_, rfl⟩))

theorem cmpPlace_lt_iff (p q : ℕ × ℕ) : cmpPlace p q = .lt ↔ p.1 < q.1 ∨ p.1 = q.1 ∧ p.2 < q.2 := by
  rw [cmpPlace, compareLex, Ordering.then_eq_lt, compareOn, compareOn, Nat.compare_eq_lt, Nat.compare_eq_eq,
    Nat.compare_eq_lt]

theorem cmpPlace_eq_iff (p q : ℕ × ℕ) : cmpPlace p q = .eq ↔ p = q := by
  rw [cmpPlace, compareLex_eq_eq, compareOn, compareOn, Nat.compare_eq_eq, Nat.compare_eq_eq, Prod.ext_iff]

theorem weight_lt {o p : Option UInt8} (h : cmpPlace (place o) (place p) = .lt) : weight o < weight p := by
  rw [cmpPlace_lt_iff] at h
  rw [weight_eq, weight_eq]
  rcases place_cases o with ho | ho | ⟨k, ho, hk, hk'⟩ | ⟨k, ho⟩ <;>
    rcases place_cases p with hp | hp | ⟨l, hp, hl, hl'⟩ | ⟨l, hp⟩ <;>
    simp only [ho, hp, weightOf] at h ⊢ <;> omega

theorem compare_weight (o p : Option UInt8) : compare (weight o) (weight p) = cmpPlace (place o) (place p) := by
  cases h : cmpPlace (place o) (place p) with
  | lt => exact Int.compare_eq_lt.mpr (weight_lt h)
  | eq =>
    rw [cmpPlace_eq_iff] at h
    rw [Int.compare_eq_eq, weight_eq, weight_eq, h]
  | gt => exact Int.compare_eq_gt.mpr (weight_lt (OrientedCmp.gt_iff_lt.mp h))

def AtNonDigit (s : Bytes) : Prop := s ≠ [] ∧ digit s = false

theorem atNonDigit_cons (c : UInt8) (s : Bytes) : AtNonDigit (c :: s) ↔ nonDigit c := by
  simp [AtNonDigit, digit, nonDigit]

theorem place_head?_eq_iff (s : Bytes) : place s.head? = (1, 0) ↔ ¬ AtNonDigit s := by
  cases s with
  | nil => simp [place, AtNonDigit]
  | cons c s =>
    rw [atNonDigit_cons, head?_cons, nonDigit, place]
    by_cases h : isAsciiDigit c
    · simp [h]
    simp only [h]
    by_cases h2 : c = 126
    · simp [h2]
    · by_cases h3 : isAsciiAlphabetic c <;> simp [h2, h3]

theorem places_of_not (h : ¬ AtNonDigit s) : places (s.takeWhile nonDigit) = [place s.head?] := by
  rw [(place_head?_eq_iff s).mpr h]
  cases s with
  | nil => rfl
  | cons c s =>
    rw [atNonDigit_cons] at h
    rw [takeWhile_cons_of_neg h]
    rfl

theorem places_of_nonDigit (h : AtNonDigit s) :
    places (s.takeWhile nonDigit) = place s.head? :: places (s.tail.takeWhile nonDigit) := by
  cases s with
  | nil => exact absurd rfl h.1
  | cons c s =>
    rw [atNonDigit_cons] at h
    rw [takeWhile_cons_of_pos h]
    rfl

theorem dropWhile_of_not (h : ¬ AtNonDigit s) : s.dropWhile nonDigit = s := by
  cases s with
  | nil => rfl
  | cons c s =>
    rw [atNonDigit_cons] at h
    rw [dropWhile_cons_of_neg h]

theorem dropWhile_of_nonDigit (h : AtNonDigit s) : s.dropWhile nonDigit = s.tail.dropWhile nonDigit := by
  cases s with
  | nil => rfl
  | cons c s =>
    rw [atNonDigit_cons] at h
    rw [dropWhile_cons_of_pos h, tail_cons]

theorem cmpRun_of_ne (h : cmpPlace (place a.head?) (place b.head?) ≠ .eq) :
    cmpRun (a.takeWhile nonDigit) (b.takeWhile nonDigit) = cmpPlace (place a.head?) (place b.head?) := by
  have hp : ∀ s : Bytes, ∃ x, places (s.takeWhile nonDigit) = place s.head? :: x := by
    intro s
    by_cases hs : AtNonDigit s
    · exact ⟨_, places_of_nonDigit hs⟩
    · exact ⟨_, places_of_not hs⟩
  obtain ⟨x, hx⟩ := hp a
  obtain ⟨y, hy⟩ := hp b
  rw [cmpRun, hx, hy, List.compareLex_cons_cons]
  cases ho : cmpPlace (place a.head?) (place b.head?) with
  | lt => rfl
  | eq => exact absurd ho h
  | gt => rfl

theorem cmpRun_of_eq (ha : AtNonDigit a) (hb : AtNonDigit b) (h : place a.head? = place b.head?) :
    cmpRun (a.takeWhile nonDigit) (b.takeWhile nonDigit) =
      cmpRun (a.tail.takeWhile nonDigit) (b.tail.takeWhile nonDigit) := by
  have hsf : cmpPlace (place b.head?) (place b.head?) = .eq := ReflCmp.compare_self
  rw [cmpRun, places_of_nonDigit ha, places_of_nonDigit hb, List.compareLex_cons_cons, h, hsf]
  rfl

/-! ### The loops -/

/-- What the loop over non-digits is to compute. -/
def nonDigits (s : Bytes × Bytes) : Ordering ⊕ (Bytes × Bytes) :=
  let order := cmpRun (s.1.takeWhile nonDigit) (s.2.takeWhile nonDigit)
  if order ≠ .eq then .inl order else .inr (s.1.dropWhile nonDigit, s.2.dropWhile nonDigit)

/-- **The loop over non-digits** compares the runs of non-digits. -/
theorem nonDigits_eq (s : Bytes × Bytes) : runLoop nonDigitStep _ nonDigitStep_decreases s = nonDigits s := by
  refine runLoop_rule (fun s r => r = nonDigits s) ?_ ?_ s
  · rintro ⟨a, b⟩ r hs
    simp only [nonDigitStep] at hs
    split_ifs at hs with h1 h2
    · obtain rfl := Sum.inr.inj hs
      have hne : cmpPlace (place a.head?) (place b.head?) ≠ .eq := by
        rw [← compare_weight]
        exact fun h => h2 (Int.compare_eq_eq.mp h)
      simp only [nonDigits, cmpRun_of_ne hne, ← compare_weight]
      rw [if_pos (by rwa [compare_weight])]
    · obtain rfl := Sum.inr.inj hs
      have ha : ¬ AtNonDigit a := fun h => h1 (.inl h)
      have hb : ¬ AtNonDigit b := fun h => h1 (.inr h)
      have ho : cmpRun (a.takeWhile nonDigit) (b.takeWhile nonDigit) = .eq := by
        rw [cmpRun, places_of_not ha, places_of_not hb, (place_head?_eq_iff a).mpr ha, (place_head?_eq_iff b).mpr hb]
        rfl
      simp only [nonDigits, ho, dropWhile_of_not ha, dropWhile_of_not hb]
      rfl
  · rintro ⟨a, b⟩ s' r hs hr
    simp only [nonDigitStep] at hs
    split_ifs at hs with h1 h2
    obtain rfl := Sum.inl.inj hs
    have hw : weight a.head? = weight b.head? := not_not.mp h2
    have hp : place a.head? = place b.head? := by
      rw [← cmpPlace_eq_iff, ← compare_weight, Int.compare_eq_eq, hw]
    have hab : AtNonDigit a ∧ AtNonDigit b := by
      have := place_head?_eq_iff a
      have := place_head?_eq_iff b
      rw [hp] at *
      rcases h1 with h | h
      · exact ⟨h, by tauto⟩
      · exact ⟨by tauto, h⟩
    rw [hr]
    simp only [nonDigits, cmpRun_of_eq hab.1 hab.2 hp, dropWhile_of_nonDigit hab.1, dropWhile_of_nonDigit hab.2]

/-- What the digits are to decide: the longer run, then the first difference; otherwise the strings after the digits are
next. -/
def digits (s : Ordering × Bytes × Bytes) : (Bytes × Bytes) ⊕ Ordering :=
  let x := s.2.1.takeWhile isAsciiDigit
  let y := s.2.2.takeWhile isAsciiDigit
  let order := (compare x.length y.length).then (s.1.then (cmpBytes x y))
  if order ≠ .eq then .inr order else .inl (s.2.1.dropWhile isAsciiDigit, s.2.2.dropWhile isAsciiDigit)

theorem digit_eq_true (h : digit s = true) : ∃ c t, s = c :: t ∧ isAsciiDigit c := by
  cases s with
  | nil => simp [digit] at h
  | cons c t => exact ⟨c, t, rfl, by simpa [digit] using h⟩

theorem digit_eq_false (h : digit s = false) : s.takeWhile isAsciiDigit = [] ∧ s.dropWhile isAsciiDigit = s := by
  cases s with
  | nil => exact ⟨rfl, rfl⟩
  | cons c t =>
    have hc : ¬ isAsciiDigit c := by simpa [digit] using h
    exact ⟨takeWhile_cons_of_neg hc, dropWhile_cons_of_neg hc⟩

/-- **The loop over digits**, and what follows it, compares the runs of digits. -/
theorem digits_eq (s : Ordering × Bytes × Bytes) :
    afterDigits (runLoop digitStep _ digitStep_decreases s) = digits s := by
  refine runLoop_rule (fun s r => afterDigits r = digits s) ?_ ?_ s
  · rintro ⟨first, a, b⟩ r hs
    simp only [digitStep] at hs
    split_ifs at hs with h1
    obtain rfl := Sum.inr.inj hs
    cases ha : digit a with
    | true =>
      have hb : digit b = false := by simpa [ha] using h1
      obtain ⟨c, t, rfl, hc⟩ := digit_eq_true ha
      simp only [afterDigits, ha, digits, (digit_eq_false hb).1, takeWhile_cons_of_pos hc]
      rfl
    | false =>
      cases hb : digit b with
      | true =>
        obtain ⟨d, t, rfl, hd⟩ := digit_eq_true hb
        simp only [afterDigits, ha, hb, digits, (digit_eq_false ha).1, takeWhile_cons_of_pos hd]
        rfl
      | false =>
        simp only [afterDigits, ha, hb, digits, digit_eq_false ha, digit_eq_false hb]
        cases first <;> rfl
  · rintro ⟨first, a, b⟩ s' r hs hr
    simp only [digitStep] at hs
    rw [hr]
    by_cases h1 : digit a = true ∧ digit b = true
    · rw [if_pos h1] at hs
      obtain rfl := Sum.inl.inj hs
      obtain ⟨c, x, rfl, hc⟩ := digit_eq_true h1.1
      obtain ⟨d, y, rfl, hd⟩ := digit_eq_true h1.2
      have hlen : ∀ m n : ℕ, compare (m + 1) (n + 1) = compare m n := fun m n => by
        simp only [Nat.compare_eq_ite_lt, Nat.add_lt_add_iff_right]
      have hfst : (if first = .eq then compare c d else first) = first.then (compare c d) := by
        cases first <;> rfl
      simp only [digits, takeWhile_cons_of_pos hc, takeWhile_cons_of_pos hd, tail_cons,
        dropWhile_cons_of_pos hc, dropWhile_cons_of_pos hd, length_cons, hlen, headD_cons,
        cmpBytes, List.compareLex_cons_cons, hfst, Ordering.then_assoc]
    · rw [if_neg h1] at hs
      exact absurd hs (by simp)

theorem takeWhile_skip_zeros (s : Bytes) :
    (s.dropWhile (· == 48)).takeWhile isAsciiDigit = (s.takeWhile isAsciiDigit).dropWhile (· == 48) := by
  induction s with
  | nil => rfl
  | cons c s ih =>
    by_cases h : c = 48
    · subst h
      rw [dropWhile_cons_of_pos (by decide), takeWhile_cons_of_pos (by decide), dropWhile_cons_of_pos (by decide), ih]
    rw [dropWhile_cons_of_neg (by simpa using h)]
    by_cases hc : isAsciiDigit c
    · rw [takeWhile_cons_of_pos hc, dropWhile_cons_of_neg (by simpa using h)]
    · rw [takeWhile_cons_of_neg hc]
      rfl

theorem dropWhile_skip_zeros (s : Bytes) :
    (s.dropWhile (· == 48)).dropWhile isAsciiDigit = s.dropWhile isAsciiDigit := by
  induction s with
  | nil => rfl
  | cons c s ih =>
    by_cases h : c = 48
    · subst h
      rw [dropWhile_cons_of_pos (by decide), dropWhile_cons_of_pos (by decide), ih]
    · rw [dropWhile_cons_of_neg (by simpa using h)]

/-- **A turn of the outer loop** compares the first chunks, and goes round if they are equal. -/
theorem verrevStep_eq (h : ¬ (a = [] ∧ b = [])) : verrevStep (a, b) =
      let order := cmpChunk (chunk a) (chunk b)
      if order ≠ .eq then .inr order else .inl (afterChunk a, afterChunk b) := by
  rw [verrevStep, if_neg h, nonDigits_eq, nonDigits]
  have hnum := compare_length_then_cmpBytes (x := (a.dropWhile nonDigit).takeWhile isAsciiDigit)
    (y := (b.dropWhile nonDigit).takeWhile isAsciiDigit)
    (fun c hc => mem_takeWhile_imp hc) (fun c hc => mem_takeWhile_imp hc)
  simp only at hnum
  cases ho : cmpRun (a.takeWhile nonDigit) (b.takeWhile nonDigit) with
  | lt | gt => simp only [cmpChunk, chunk, ho]; rfl
  | eq =>
    simp [digits_eq, digits, takeWhile_skip_zeros, dropWhile_skip_zeros, hnum, cmpChunk, chunk, ho, afterChunk]

theorem verrevStep_decreases : Decreases verrevStep fun s => s.1.length + s.2.length := by
  rintro ⟨a, b⟩ ⟨a', b'⟩ h
  by_cases hab : a = [] ∧ b = []
  · rw [verrevStep, if_pos hab] at h
    exact absurd h (by simp)
  rw [verrevStep_eq hab] at h
  simp only at h
  split_ifs at h
  cases h
  have ha := length_afterChunk_le a
  have hb := length_afterChunk_le b
  show (afterChunk a).length + (afterChunk b).length < a.length + b.length
  rcases not_and_or.mp hab with h | h
  · have := length_afterChunk_lt h
    omega
  · have := length_afterChunk_lt h
    omega

def verrevcmp (a b : Bytes) : Ordering := runLoop verrevStep _ verrevStep_decreases (a, b)

/-- `split`: epoch, upstream and revision; the epoch is a `u64`. -/
def split (version : Bytes) : ℕ × Bytes × Bytes :=
  let (epoch, rest) :=
    match splitOnce 58 version with
    | some (epoch, rest) =>
      if epoch ≠ [] ∧ epoch.all isAsciiDigit then (parseSaturating (2 ^ 64 - 1) epoch, rest) else (0, version)
    | none => (0, version)
  match rsplitOnce 45 rest with
  | some (upstream, revision) => (epoch, upstream, revision)
  | none => (epoch, rest, [])

/-- `compare`: epoch, then upstream version, then revision. -/
def compare (a b : Bytes) : Ordering :=
  let (ea, ua, ra) := split a
  let (eb, ub, rb) := split b
  (Ord.compare ea eb).then ((verrevcmp ua ub).then (verrevcmp ra rb))

theorem chunks_nil : chunks [] = [] := by rw [chunks, dif_pos rfl]

theorem chunks_of_ne (h : s ≠ []) : chunks s = chunk s :: chunks (afterChunk s) := by
  rw [chunks, dif_neg h]

theorem cmpChunks_step (h : ¬ (a = [] ∧ b = [])) : cmpChunks (chunks a) (chunks b) =
      (cmpChunk (chunk a) (chunk b)).then (cmpChunks (chunks (afterChunk a)) (chunks (afterChunk b))) := by
  by_cases ha : a = []
  · have hb : b ≠ [] := fun hb => h ⟨ha, hb⟩
    subst ha
    rw [chunks_nil, chunks_of_ne hb, cmpChunks, padLex_nil_cons, show afterChunk [] = [] from rfl, chunks_nil]
    rfl
  · by_cases hb : b = []
    · subst hb
      rw [chunks_nil, chunks_of_ne ha, cmpChunks, padLex_cons_nil, show afterChunk [] = [] from rfl, chunks_nil]
      rfl
    · rw [chunks_of_ne ha, chunks_of_ne hb, cmpChunks, padLex_cons_cons]

theorem verrevcmp_eq_cmpChunks (a b : Bytes) : verrevcmp a b = cmpChunks (chunks a) (chunks b) := by
  refine runLoop_rule (fun s r => r = cmpChunks (chunks s.1) (chunks s.2)) ?_ ?_ (a, b)
  · rintro ⟨a, b⟩ r hs
    by_cases hab : a = [] ∧ b = []
    · obtain ⟨rfl, rfl⟩ := hab
      simp only [chunks_nil]
      exact (Sum.inr.inj hs).symm
    rw [verrevStep_eq hab] at hs
    simp only at hs ⊢
    split_ifs at hs with ho
    rw [cmpChunks_step hab, ← Sum.inr.inj hs]
    cases hc : cmpChunk (chunk a) (chunk b) with
    | lt => rfl
    | eq => exact absurd hc ho
    | gt => rfl
  · rintro ⟨a, b⟩ s' r hs hr
    by_cases hab : a = [] ∧ b = []
    · rw [verrevStep, if_pos hab] at hs
      exact absurd hs (by simp)
    rw [verrevStep_eq hab] at hs
    simp only at hs ⊢
    split_ifs at hs with ho
    rw [cmpChunks_step hab, not_not.mp ho, hr, ← Sum.inl.inj hs]
    rfl

instance : TransCmp verrevcmp := by
  rw [show verrevcmp = _ from funext fun a => funext fun b => verrevcmp_eq_cmpChunks a b]
  exact transCmp_comap cmpChunks chunks

instance : TransCmp compare :=
  letI := transCmp_comap verrevcmp fun a : Bytes => (split a).2.1
  letI := transCmp_comap verrevcmp fun a : Bytes => (split a).2.2
  inferInstanceAs (TransCmp (compareLex (compareOn fun a : Bytes => (split a).1)
    (compareLex (fun a b => verrevcmp (split a).2.1 (split b).2.1) fun a b => verrevcmp (split a).2.2 (split b).2.2)))

/-- **dpkg's order.** The loop of `verrevcmp` ends after at most as many turns as the two
strings have bytes, `verrevcmp` is Debian Policy's order of the chunks, and both it and
`compare` over whole versions are total preorders. -/
theorem dpkg_order :
    (∀ (a b : Bytes) (turns : ℕ), a.length + b.length < turns → loop verrevStep turns (a, b) = some (verrevcmp a b)) ∧
    (∀ a b : Bytes, verrevcmp a b = padLex cmpChunk ([], 0) (chunks a) (chunks b)) ∧
    TotalPreorder verrevcmp ∧ TotalPreorder compare :=
  ⟨fun _ _ _ hn => loop_eq_some_runLoop hn, verrevcmp_eq_cmpChunks, totalPreorder _, totalPreorder _⟩

example : compare (asBytes "1:1.2~rc1-3") (asBytes "1:1.2-1") = .lt := by decide

end OpenVibes.Vulns.Dpkg
