import OpenVibes.Rust.Bytes
import OpenVibes.Theory.Regex

/-!
# Agent version order

Whether an agent's version is older than the latest one is decided by `crates/platform-store/src/version_order.rs` and,
for lists, by `migrations/0057_version_order.sql`. Texts are their UTF-8 bytes; regular expressions are translated as
they are written, over `Theory.Regex`. `None` and `NULL` are `none`; a statement that fails is an error.
-/

namespace OpenVibes.Store

open Rust Theory List Option

/-! ### `version_order.rs` -/

/-- `str::parse::<u32>` of a run of digits. -/
def parseU32 (s : Bytes) : Option ℕ := if decimal s < 2 ^ 32 then some (decimal s) else none

def segment (s : Bytes) : Option ℕ :=
  if s ≠ [] ∧ s.length ≤ 9 ∧ s.all isAsciiDigit then parseU32 s else none

/-- `parts`: the numeric segments and whether it is a pre-release; `none` unless every segment is 1–9 digits. -/
def parts (version : Bytes) : Option (List ℕ × Bool) :=
  let plain := (version.splitOn 43).headD []
  let (core, pre) := ((splitOnce 45 plain).map fun p => (p.1, true)).getD (plain, false)
  ((core.splitOn 46).mapM segment).map fun segments => (segments, pre)

/-- `older`: whether `version` is older than `latest`; `none` when either is unknown. -/
def older (version latest : Bytes) : Option Bool := do
  let (a, aPre) ← parts version
  let (b, bPre) ← parts latest
  let len := max a.length b.length
  let order := ((List.range len).map fun i => compare (a.getD i 0) (b.getD i 0)).find? (· ≠ .eq)
  return order.elim (aPre && !bPre) fun o => o = .lt

/-! ### `0057_version_order.sql` -/

inductive CastError where
  | invalid (s : Bytes)
  | outOfRange (s : Bytes)

/-- `s::int` of a run of digits; other spellings do not get here (`consoleVersionParts_eq`). -/
def castInt (s : Bytes) : Except CastError ℕ :=
  if s = [] ∨ ¬s.all isAsciiDigit then .error (.invalid s)
  else if 2 ^ 31 ≤ decimal s then .error (.outOfRange s)
  else .ok (decimal s)

/-- `split_part(s, sep, n)`: the `n`-th field, counted from 1; empty when there are fewer. -/
def splitPart (s : Bytes) (sep : UInt8) (n : ℕ) : Bytes := (s.splitOn sep).getD (n - 1) []

/-- `strpos(s, c)`: where `c` first stands, counted from 1; 0 when it does not. -/
def strpos (s : Bytes) (c : UInt8) : ℕ := (s.findIdx? (· = c)).elim 0 (· + 1)

/-- `string_to_array(s, sep)`: the fields; none of an empty text. -/
def stringToArray (s : Bytes) (sep : UInt8) : List Bytes := if s = [] then [] else s.splitOn sep

/-- `[0-9]`. -/
def digits : List UInt8 := [48, 49, 50, 51, 52, 53, 54, 55, 56, 57]

/-- `^[0-9]{1,9}(\.[0-9]{1,9})*$`. -/
def versionPattern : RegularExpression UInt8 := Regex.separated 46 (Regex.between (Regex.oneOf digits) 1 9)

/-- `(\.0+)+`, which is anchored at the end. -/
def zerosPattern : RegularExpression UInt8 := Regex.oneOrMore (.char 46 * Regex.oneOrMore (.char 48))

/-- `console_version_parts`: the numeric segments without pre-release, build or trailing zero
segments. -/
def consoleVersionParts (v : Bytes) : Except CastError (Option (List ℕ)) :=
  let core := splitPart (splitPart v 43 1) 45 1
  if versionPattern.rmatch core then
    ((stringToArray (Regex.removeSuffix zerosPattern core) 46).mapM castInt).map some
  else .ok none

/-- `console_version_older`; `NULL` when either is unknown. Arrays compare by the first difference, and a proper
beginning is less. -/
def consoleVersionOlder (v latest : Bytes) : Except CastError (Option Bool) := do
  match ← consoleVersionParts v, ← consoleVersionParts latest with
  | some a, some b =>
    if a ≠ b then return some (List.compareLex compare a b = .lt)
    else return some (0 < strpos (splitPart v 43 1) 45 && strpos (splitPart latest 43 1) 45 = 0)
  | _, _ => return none

/-! ### Splitting -/

theorem headD_splitOn (sep : UInt8) (s : Bytes) : (s.splitOn sep).headD [] = s.takeWhile (· ≠ sep) := by
  rw [splitOn_eq_splitOnP]
  induction s with
  | nil => rfl
  | cons c s ih =>
    rw [splitOnP_cons_eq_if_modifyHead]
    by_cases hc : c = sep
    · simp [hc]
    · obtain ⟨t, ts, hts⟩ := exists_cons_of_ne_nil (splitOnP_ne_nil (fun x => x == sep) s)
      rw [hts] at ih ⊢
      simpa [hc] using ih

variable (s v : Bytes)

theorem splitPart_one (sep : UInt8) : splitPart s sep 1 = (s.splitOn sep).headD [] := by
  rw [splitPart]
  cases s.splitOn sep <;> rfl

theorem splitOnce_eq (sep : UInt8) (s : Bytes) :
    ((splitOnce sep s).map fun p => (p.1, true)).getD (s, false) = (splitPart s sep 1, decide (sep ∈ s)) := by
  rw [splitPart_one, headD_splitOn]
  induction s with
  | nil => rfl
  | cons c s ih =>
    rw [splitOnce]
    by_cases hc : c = sep
    · simp [hc]
    rw [if_neg hc, takeWhile_cons_of_pos (by simpa using hc)]
    cases hs : splitOnce sep s with
    | none | some =>
      rw [hs] at ih
      obtain ⟨h₁, h₂⟩ := Prod.mk.inj ih
      exact Prod.ext (congrArg (c :: ·) h₁) (by simpa [Ne.symm hc] using h₂)

theorem strpos_pos_iff (c : UInt8) : 0 < strpos s c ↔ c ∈ s := by
  have hsm : 0 < strpos s c ↔ (s.findIdx? (· = c)).isSome := by
    rw [strpos]
    cases s.findIdx? (· = c) <;> simp
  rw [hsm, findIdx?_isSome]
  simp

/-! ### Segments -/

def IsSegment (s : Bytes) : Prop := 1 ≤ s.length ∧ s.length ≤ 9 ∧ ∀ c ∈ s, isAsciiDigit c

instance : DecidablePred IsSegment := fun s =>
  inferInstanceAs (Decidable (1 ≤ s.length ∧ s.length ≤ 9 ∧ ∀ c ∈ s, isAsciiDigit c))

variable {s : Bytes}

theorem IsSegment.decimal_lt (h : IsSegment s) : decimal s < 10 ^ 9 :=
  (Rust.decimal_lt h.2.2).trans_le (Nat.pow_le_pow_right (by decide) h.2.1)

theorem segment_eq : segment s = if IsSegment s then some (decimal s) else none := by
  have hiff : (s ≠ [] ∧ s.length ≤ 9 ∧ s.all isAsciiDigit) ↔ IsSegment s := by
    rw [IsSegment, ← length_pos_iff, List.all_eq_true]
    rfl
  rw [segment, parseU32]
  by_cases h : IsSegment s
  · have := h.decimal_lt
    rw [if_pos (hiff.mpr h), if_pos h, if_pos (by omega)]
  · rw [if_neg (fun h' => h (hiff.mp h')), if_neg h]

theorem mapM_segment (ts : List Bytes) :
    ts.mapM segment = if ∀ t ∈ ts, IsSegment t then some (ts.map decimal) else none := by
  induction ts with
  | nil => rfl
  | cons t ts ih =>
    rw [mapM_cons, segment_eq, ih]
    by_cases ht : IsSegment t
    · by_cases hts : ∀ t ∈ ts, IsSegment t
      · rw [if_pos ht, if_pos hts, if_pos (forall_mem_cons.mpr ⟨ht, hts⟩)]
        rfl
      · rw [if_pos ht, if_neg hts, if_neg fun h => hts (forall_mem_cons.mp h).2]
        rfl
    · rw [if_neg ht, if_neg fun h => ht (forall_mem_cons.mp h).1]
      rfl

theorem mapM_castInt {ts : List Bytes} (h : ∀ t ∈ ts, IsSegment t) : ts.mapM castInt = .ok (ts.map decimal) := by
  induction ts with
  | nil => rfl
  | cons t ts ih =>
    obtain ⟨ht, hts⟩ := forall_mem_cons.mp h
    have hcs : castInt t = .ok (decimal t) := by
      have hne : t ≠ [] := length_pos_iff.mp ht.1
      have hlt := ht.decimal_lt
      have hdig : t.all isAsciiDigit := all_eq_true.mpr ht.2.2
      rw [castInt, if_neg (by simp [hne, hdig]), if_neg (by omega)]
    rw [mapM_cons, hcs, ih hts]
    rfl

/-! ### The two regular expressions -/

theorem mem_digits (c : UInt8) : c ∈ digits ↔ isAsciiDigit c := by
  simp only [digits, isAsciiDigit, mem_cons, not_mem_nil, ← UInt8.toNat_inj, Bool.and_eq_true,
    decide_eq_true_eq, UInt8.le_iff_toNat_le]
  simp
  omega

theorem mem_segmentPattern : s ∈ (Regex.between (Regex.oneOf digits) 1 9).matches' ↔ IsSegment s := by
  rw [(Regex.isClass_oneOf digits).mem_between (by decide), IsSegment]
  simp [mem_digits]

theorem IsSegment.dot_notMem (h : IsSegment s) : (46 : UInt8) ∉ s :=
  fun hc => absurd (h.2.2 46 hc) (by decide)

theorem rmatch_versionPattern {core : Bytes} : versionPattern.rmatch core ↔ ∀ t ∈ core.splitOn 46, IsSegment t := by
  rw [versionPattern, Regex.rmatch_separated fun t ht => (mem_segmentPattern.mp ht).dot_notMem]
  simp [mem_segmentPattern]

theorem mem_zeros : s ∈ (Regex.oneOrMore (.char 48)).matches' ↔ s ≠ [] ∧ ∀ c ∈ s, c = 48 :=
  (Regex.isClass_char 48).mem_oneOrMore

theorem IsSegment.rmatch_zeros (h : IsSegment s) : (Regex.oneOrMore (.char 48)).rmatch s = decide (decimal s = 0) := by
  rw [Bool.eq_iff_iff, RegularExpression.rmatch_iff_matches', mem_zeros, decide_eq_true_eq]
  have hne : s ≠ [] := length_pos_iff.mp h.1
  simp only [ne_eq, hne, not_false_eq_true, true_and]
  have hdig := h.2.2
  clear h hne
  induction s with
  | nil => simp [decimal]
  | cons c s ih =>
    obtain ⟨hc, hs⟩ := forall_mem_cons.mp hdig
    have hran := toNat_of_isAsciiDigit hc
    rw [forall_mem_cons, decimal_cons, Nat.add_eq_zero_iff, Nat.mul_eq_zero]
    refine and_congr ?_ (ih hs)
    rw [← UInt8.toNat_inj]
    have hpow : 10 ^ s.length ≠ 0 := (Nat.pow_pos (by decide)).ne'
    simp only [hpow, or_false]
    show c.toNat = 48 ↔ _
    omega

/-! ### The two orders -/

/-- The segments without the zeros at their end, though always with the first. -/
def stripped : List ℕ → List ℕ
  | [] => []
  | x :: xs => x :: dropTrailing (· = 0) xs

/-- The segments of a version: the fields of what comes before its build metadata and pre-release tag. -/
def segmentsOf (v : Bytes) : List Bytes := (splitPart (splitPart v 43 1) 45 1).splitOn 46

def isPre (v : Bytes) : Bool := 45 ∈ splitPart v 43 1

theorem parts_eq :
    parts v = if ∀ t ∈ segmentsOf v, IsSegment t then some ((segmentsOf v).map decimal, isPre v) else none := by
  simp only [parts, ← splitPart_one, splitOnce_eq, mapM_segment]
  rw [segmentsOf, isPre]
  by_cases h : ∀ t ∈ (splitPart (splitPart v 43 1) 45 1).splitOn 46, IsSegment t
  · rw [if_pos h, if_pos h]
    rfl
  · rw [if_neg h, if_neg h]
    rfl

/-- **The array that SQL compares** is Rust's list without trailing zeros; the cast never fails. -/
theorem consoleVersionParts_eq : consoleVersionParts v = .ok ((parts v).map fun p => stripped p.1) := by
  rw [parts_eq, consoleVersionParts, segmentsOf]
  generalize splitPart (splitPart v 43 1) 45 1 = core
  by_cases h : ∀ t ∈ core.splitOn 46, IsSegment t
  · rw [if_pos (rmatch_versionPattern.mpr h), if_pos h]
    obtain ⟨t, ts, hspl⟩ := exists_cons_of_ne_nil (splitOn_ne_nil 46 core)
    have hcr : core = [46].intercalate (t :: ts) := by rw [← hspl, intercalate_splitOn]
    rw [hspl] at h ⊢
    obtain ⟨ht, hts⟩ := forall_mem_cons.mp h
    have hkp : ∀ u ∈ t :: dropTrailing (Regex.oneOrMore (.char 48)).rmatch ts, IsSegment u :=
      forall_mem_cons.mpr ⟨ht, fun u hu => hts u (mem_of_mem_dropTrailing hu)⟩
    have hzer : ∀ u ∈ (Regex.oneOrMore (.char (48 : UInt8))).matches', (46 : UInt8) ∉ u :=
      fun u hu hdot => absurd ((mem_zeros.mp hu).2 46 hdot) (by decide)
    rw [hcr, zerosPattern, Regex.removeSuffix_separated hzer fun u hu => (h u hu).dot_notMem, stringToArray,
      if_neg, splitOn_intercalate 46 (fun u hu => (hkp u hu).dot_notMem) (cons_ne_nil _ _),
      mapM_castInt hkp]
    · have hnms : dropTrailing (· = 0) (ts.map decimal) =
          (dropTrailing (Regex.oneOrMore (.char 48)).rmatch ts).map decimal :=
        dropTrailing_map fun u hu => (hts u hu).rmatch_zeros.symm
      rw [map_cons, ← hnms]
      rfl
    · rw [Regex.intercalate_cons_led]
      exact fun h => length_pos_iff.mp ht.1 (append_eq_nil_iff.mp h).1
  · rw [if_neg (fun h' => h (rmatch_versionPattern.mp h')), if_neg h]
    rfl

def cmpPre (p q : Bool) : Ordering := compare (!p) (!q)

instance : Std.TransCmp cmpPre := transCmp_comap compare not

/-- The order of versions: by their segments, padded with zeros, then by whether it is a pre-release. -/
abbrev cmpVersion : List ℕ × Bool → List ℕ × Bool → Ordering := cmpProd (padLex compare 0) cmpPre

theorem older_eq (latest : Bytes) :
    older v latest = (parts v).bind fun a => (parts latest).map fun b => decide (cmpVersion a b = .lt) := by
  rw [older]
  obtain _ | ⟨a, aPre⟩ := parts v
  · rfl
  obtain _ | ⟨b, bPre⟩ := parts latest
  · rfl
  have hcmp : cmpVersion (a, aPre) (b, bPre) = ((((range (max a.length b.length)).map fun i =>
      compare (a.getD i 0) (b.getD i 0)).find? (· ≠ .eq)).getD .eq).then (cmpPre aPre bPre) := by
    rw [find?_range_padLex]
    rfl
  simp only [bind_eq_bind, bind_some, map_some, hcmp]
  cases h : ((range (max a.length b.length)).map fun i => compare (a.getD i 0) (b.getD i 0)).find? (· ≠ .eq) with
  | none => cases aPre <;> cases bPre <;> rfl
  | some o =>
    have hne : o ≠ .eq := by simpa using find?_some h
    cases o with
    | eq => exact absurd rfl hne
    | lt | gt => rfl

theorem older_eq_some_true {v latest : Bytes} :
    older v latest = some true ↔ ∃ a, parts v = some a ∧ ∃ b, parts latest = some b ∧ cmpVersion a b = .lt := by
  rw [older_eq, bind_eq_some_iff]
  simp

theorem compareLex_stripped {a b : List ℕ} (ha : a ≠ []) (hb : b ≠ []) :
    List.compareLex compare (stripped a) (stripped b) = padLex compare 0 a b := by
  obtain ⟨x, xs, rfl⟩ := exists_cons_of_ne_nil ha
  obtain ⟨y, ys, rfl⟩ := exists_cons_of_ne_nil hb
  have hzr : ∀ n : ℕ, n ≠ 0 → compare 0 n = .lt := fun n hn => Nat.compare_eq_lt.mpr (Nat.pos_of_ne_zero hn)
  rw [stripped, stripped, List.compareLex_cons_cons, compareLex_dropTrailing hzr, padLex_cons_cons]

theorem ne_nil_of_parts {v : Bytes} {a : List ℕ} {pre : Bool} (h : parts v = some (a, pre)) :
    a ≠ [] ∧ pre = isPre v := by
  rw [parts_eq] at h
  split_ifs at h
  cases h
  exact ⟨by simp [segmentsOf, splitOn_ne_nil], rfl⟩

theorem decide_strpos_pos : decide (0 < strpos (splitPart v 43 1) 45) = isPre v :=
  decide_eq_decide.mpr (strpos_pos_iff _ _)

theorem decide_strpos_zero : decide (strpos (splitPart v 43 1) 45 = 0) = !isPre v := by
  rw [← decide_strpos_pos, ← decide_not]
  exact decide_eq_decide.mpr (Nat.not_lt.trans Nat.le_zero).symm

theorem consoleVersionOlder_eq (latest : Bytes) : consoleVersionOlder v latest = .ok (older v latest) := by
  rw [consoleVersionOlder, consoleVersionParts_eq, consoleVersionParts_eq, older_eq]
  cases ha : parts v with
  | none => rfl
  | some a =>
    obtain ⟨a, aPre⟩ := a
    cases hb : parts latest with
    | none => rfl
    | some b =>
      obtain ⟨b, bPre⟩ := b
      obtain ⟨hna, rfl⟩ := ne_nil_of_parts ha
      obtain ⟨hnb, rfl⟩ := ne_nil_of_parts hb
      have hcmp : cmpVersion (a, isPre v) (b, isPre latest) =
          (List.compareLex compare (stripped a) (stripped b)).then (cmpPre (isPre v) (isPre latest)) := by
        rw [compareLex_stripped hna hnb]
        rfl
      simp only [map_some, bind_some, hcmp]
      show (if stripped a ≠ stripped b then _ else _) = _
      by_cases heq : stripped a = stripped b
      · have hsf : List.compareLex compare (stripped b) (stripped b) = .eq := Std.ReflCmp.compare_self
        rw [if_neg (not_not.mpr heq), decide_strpos_pos, decide_strpos_zero]
        simp only [heq, hsf, Ordering.eq_then]
        cases isPre v <;> cases isPre latest <;> rfl
      have hne : List.compareLex compare (stripped a) (stripped b) ≠ .eq := fun h =>
        heq (Std.LawfulEqCmp.eq_of_compare h)
      rw [if_pos heq]
      generalize List.compareLex compare (stripped a) (stripped b) = o at hne
      cases o with
      | eq => exact absurd rfl hne
      | lt | gt => rfl

/-- **The two agent-version orders agree** on all strings, and the order is irreflexive and
transitive. -/
theorem version_orders_agree :
    (∀ v latest, consoleVersionOlder v latest = .ok (older v latest)) ∧
    (∀ v, older v v ≠ some true) ∧
    (∀ u v w, older u v = some true → older v w = some true → older u w = some true) := by
  refine ⟨consoleVersionOlder_eq, fun v h => ?_, fun u v w huv hvw => ?_⟩
  · obtain ⟨a, ha, b, hb, hlt⟩ := older_eq_some_true.mp h
    obtain rfl := mem_unique ha hb
    have hsf : cmpVersion a a = .eq := Std.ReflCmp.compare_self
    rw [hsf] at hlt
    cases hlt
  · obtain ⟨a, ha, b, hb, hab⟩ := older_eq_some_true.mp huv
    obtain ⟨b', hb', c, hc, hbc⟩ := older_eq_some_true.mp hvw
    obtain rfl := mem_unique hb hb'
    exact older_eq_some_true.mpr ⟨a, ha, c, hc, Std.TransCmp.lt_trans hab hbc⟩

theorem version_orders_agree_sample :
    older (asBytes "1.2-rc1") (asBytes "1.2.0+b7") = some true ∧ older (asBytes "1.2.0+b7")
    (asBytes "1.10") = some true ∧
    older (asBytes "1.2-rc1") (asBytes "1.10") = some true := by
  have h₁ : older (asBytes "1.2-rc1") (asBytes "1.2.0+b7") = some true := by decide
  have h₂ : older (asBytes "1.2.0+b7") (asBytes "1.10") = some true := by decide
  exact ⟨h₁, h₂, version_orders_agree.2.2 _ _ _ h₁ h₂⟩

end OpenVibes.Store
