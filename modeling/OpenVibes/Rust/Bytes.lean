import Mathlib.Tactic
import Mathlib.Data.List.Destutter

/-!
# Strings and slices

The parts of Rust's `str` and slices that the version and matching code uses. A
string is its UTF-8 bytes: equality and order of `str` are those of the bytes, and
the separators the code looks for (`:`, `-`, `.`, `+`) are ASCII, so looking for
them by bytes or by characters finds the same places.
-/

namespace OpenVibes.Rust

open List

abbrev Bytes := List UInt8

def asBytes (s : String) : Bytes := s.toUTF8.data.toList

theorem asBytes_injective : Function.Injective asBytes := by
  intro s s' h
  have hbyt : s.toUTF8 = s'.toUTF8 := ByteArray.ext (Array.toList_inj.mp h)
  exact String.toByteArray_inj.mp hbyt

def isAsciiDigit (c : UInt8) : Bool := 48 ≤ c && c ≤ 57

def isAsciiAlphabetic (c : UInt8) : Bool := (65 ≤ c && c ≤ 90) || (97 ≤ c && c ≤ 122)

def isAsciiAlphanumeric (c : UInt8) : Bool := isAsciiAlphabetic c || isAsciiDigit c

/-- `<[u8] as Ord>::cmp`: the first byte that differs decides, then the length. -/
def cmpBytes (a b : Bytes) : Ordering := List.compareLex compare a b

section

variable {α : Type} [DecidableEq α]

/-- `str::split_once`: the parts before and after the first `sep`. -/
def splitOnce (sep : α) : List α → Option (List α × List α)
  | [] => none
  | c :: s => if c = sep then some ([], s) else (splitOnce sep s).map fun p => (c :: p.1, p.2)

/-- `str::rsplit_once`: the parts before and after the last `sep`. -/
def rsplitOnce (sep : α) : List α → Option (List α × List α)
  | [] => none
  | c :: s =>
    match rsplitOnce sep s with
    | some (a, b) => some (c :: a, b)
    | none => if c = sep then some ([], s) else none

def stripSuffix (s : List α) (suffix : List α) : Option (List α) :=
  if suffix.isSuffixOf s then some (s.take (s.length - suffix.length)) else none

end

/-- `char::is_whitespace`: Unicode's `White_Space`. -/
def isWhitespace (c : Char) : Bool :=
  let n := c.toNat
  (9 ≤ n && n ≤ 13) || n = 32 || n = 0x85 || n = 0xA0 || n = 0x1680 || (0x2000 ≤ n && n ≤ 0x200A) || n = 0x2028 ||
    n = 0x2029 || n = 0x202F || n = 0x205F || n = 0x3000

def isControl (c : Char) : Bool := c.toNat < 32 || (127 ≤ c.toNat && c.toNat ≤ 159)

/-- `str::split`, by a character. -/
def split (sep : Char) (s : String) : List String := (s.toList.splitOn sep).map String.ofList

def trim (s : String) : String :=
  String.ofList (((s.toList.dropWhile isWhitespace).reverse.dropWhile isWhitespace).reverse)

def toAsciiLowercase (s : String) : String :=
  String.ofList (s.toList.map fun c => if 'A' ≤ c && c ≤ 'Z' then Char.ofNat (c.toNat + 32) else c)

def toAsciiUppercase (s : String) : String :=
  String.ofList (s.toList.map fun c => if 'a' ≤ c && c ≤ 'z' then Char.ofNat (c.toNat - 32) else c)

/-- `Vec::dedup`: of equal neighbours the first stays. -/
def dedup {α : Type} [DecidableEq α] (xs : List α) : List α := xs.destutter (· ≠ ·)

variable {α : Type} {c : UInt8} {s x y : Bytes}

theorem mem_dedup [DecidableEq α] {xs : List α} {x : α} : x ∈ dedup xs ↔ x ∈ xs := by
  have h : ∀ (xs : List α) (a : α), x ∈ xs.destutter' (· ≠ ·) a ↔ x ∈ a :: xs := by
    intro xs
    induction xs with
    | nil => simp
    | cons b xs ih =>
      intro a
      by_cases hab : a = b
      · rw [destutter'_cons_neg _ (not_not.mpr hab), ih, hab]
        simp
      · rw [destutter'_cons_pos _ hab, mem_cons, ih, mem_cons (b := a)]
  cases xs with
  | nil => simp [dedup]
  | cons a xs => exact h xs a

/-- `slice::chunks` (`0 < n`); `turns` bounds the number of chunks. -/
def chunksFrom {α : Type} (n : ℕ) : ℕ → List α → List (List α)
  | _, [] => []
  | 0, _ :: _ => []
  | turns + 1, x :: xs => (x :: xs).take n :: chunksFrom n turns ((x :: xs).drop n)

/-- `slice::chunks` of a whole slice. -/
def chunks {α : Type} (n : ℕ) (xs : List α) : List (List α) := chunksFrom n xs.length xs

theorem flatten_chunks {n : ℕ} (hn : 0 < n) (xs : List α) : (chunks n xs).flatten = xs := by
  have h : ∀ turns (xs : List α), xs.length ≤ turns → (chunksFrom n turns xs).flatten = xs := by
    intro turns
    induction turns with
    | zero =>
      intro xs hxs
      rw [eq_nil_of_length_eq_zero (Nat.le_zero.mp hxs)]
      rfl
    | succ turns ih =>
      intro xs hxs
      cases xs with
      | nil => rfl
      | cons x xs =>
        rw [chunksFrom, flatten_cons, ih _ (by rw [length_drop]; omega), take_append_drop]
  exact h xs.length xs le_rfl

def decimal (s : Bytes) : ℕ := s.foldl (fun n c => 10 * n + (c.toNat - 48)) 0

/-- `s.parse().unwrap_or(MAX)` of a nonempty run of digits. -/
def parseSaturating (max : ℕ) (s : Bytes) : ℕ := min max (decimal s)

instance : Std.TransCmp cmpBytes := inferInstanceAs (Std.TransCmp (List.compareLex compare))

instance : Std.LawfulEqCmp cmpBytes := inferInstanceAs (Std.LawfulEqCmp (List.compareLex compare))

/-! ### Numbers by their digits -/

theorem foldl_decimal (s : Bytes) (n : ℕ) :
    s.foldl (fun n c => 10 * n + (c.toNat - 48)) n = n * 10 ^ s.length + decimal s := by
  induction s generalizing n with
  | nil => simp [decimal]
  | cons c s ih =>
    simp only [decimal, foldl_cons, length_cons]
    rw [ih, ih (10 * 0 + (c.toNat - 48))]
    ring

theorem decimal_cons (c : UInt8) (s : Bytes) : decimal (c :: s) = (c.toNat - 48) * 10 ^ s.length + decimal s := by
  rw [decimal, foldl_cons, foldl_decimal]
  simp

theorem toNat_of_isAsciiDigit (h : isAsciiDigit c) : 48 ≤ c.toNat ∧ c.toNat ≤ 57 := by
  simp only [isAsciiDigit, Bool.and_eq_true, decide_eq_true_eq, UInt8.le_iff_toNat_le] at h
  exact h

theorem decimal_lt (h : ∀ c ∈ s, isAsciiDigit c) : decimal s < 10 ^ s.length := by
  induction s with
  | nil => simp [decimal]
  | cons c s ih =>
    have hs := ih fun d hd => h d (mem_cons_of_mem _ hd)
    have hc := toNat_of_isAsciiDigit (h c mem_cons_self)
    rw [decimal_cons, length_cons, pow_succ]
    calc (c.toNat - 48) * 10 ^ s.length + decimal s < (c.toNat - 48) * 10 ^ s.length + 10 ^ s.length := by omega
      _ = (c.toNat - 48 + 1) * 10 ^ s.length := by ring
      _ ≤ 10 * 10 ^ s.length := Nat.mul_le_mul_right _ (by omega)
      _ = 10 ^ s.length * 10 := by ring

theorem le_decimal_cons (hc : isAsciiDigit c) (h0 : c ≠ 48) : 10 ^ s.length ≤ decimal (c :: s) := by
  have hd := toNat_of_isAsciiDigit hc
  have hne : c.toNat ≠ 48 := fun h => h0 (UInt8.toNat_inj.mp h)
  rw [decimal_cons]
  calc 10 ^ s.length = 1 * 10 ^ s.length := by ring
    _ ≤ (c.toNat - 48) * 10 ^ s.length := Nat.mul_le_mul_right _ (by omega)
    _ ≤ (c.toNat - 48) * 10 ^ s.length + decimal s := Nat.le_add_right _ _

theorem decimal_dropWhile_zero (s : Bytes) : decimal (s.dropWhile (· == 48)) = decimal s := by
  induction s with
  | nil => rfl
  | cons c s ih =>
    rw [dropWhile_cons]
    split_ifs with hc
    · rw [beq_iff_eq] at hc
      rw [ih, hc, decimal_cons]
      simp
    · rfl

/-- The first digits decide unless they are equal. -/
theorem compare_digit_cons {B a b m n : ℕ} (hm : m < B) (hn : n < B) :
    compare (a * B + m) (b * B + n) = (compare a b).then (compare m n) := by
  have hlt : ∀ {a b m n : ℕ}, m < B → a < b → a * B + m < b * B + n := fun {a b m n} hm hab => by
    have := Nat.mul_le_mul_right B hab
    rw [Nat.succ_mul] at this
    omega
  rcases lt_trichotomy a b with h | rfl | h
  · rw [Nat.compare_eq_lt.mpr h]
    exact Nat.compare_eq_lt.mpr (hlt hm h)
  · rw [Nat.compare_eq_eq.mpr rfl]
    simp [Nat.compare_eq_ite_lt]
  · rw [Nat.compare_eq_gt.mpr h]
    exact Nat.compare_eq_gt.mpr (hlt hn h)

theorem cmpBytes_eq_compare_decimal : ∀ {x y : Bytes}, x.length = y.length →
    (∀ c ∈ x, isAsciiDigit c) → (∀ c ∈ y, isAsciiDigit c) → cmpBytes x y = compare (decimal x) (decimal y)
  | [], [], _, _, _ => rfl
  | c :: x, d :: y, hl, hx, hy => by
    have hl : x.length = y.length := Nat.succ.inj hl
    have hx' : ∀ c ∈ x, isAsciiDigit c := fun e he => hx e (mem_cons_of_mem _ he)
    have hy' : ∀ c ∈ y, isAsciiDigit c := fun e he => hy e (mem_cons_of_mem _ he)
    have hc := toNat_of_isAsciiDigit (hx c mem_cons_self)
    have hd := toNat_of_isAsciiDigit (hy d mem_cons_self)
    have hdig : compare c.toNat d.toNat = compare (c.toNat - 48) (d.toNat - 48) := by
      simp only [Nat.compare_eq_ite_lt]
      split_ifs <;> first | rfl | omega
    rw [cmpBytes, List.compareLex_cons_cons, UInt8.compare_eq_toNat_compare_toNat, decimal_cons, decimal_cons, hdig,
      ← hl, compare_digit_cons (decimal_lt hx') (hl ▸ decimal_lt hy')]
    exact congrArg _ (cmpBytes_eq_compare_decimal hl hx' hy')

theorem decimal_lt_of_length_lt (hx : ∀ c ∈ x, isAsciiDigit c)
    (hy : ∀ c ∈ y, isAsciiDigit c) (h0 : y.head? ≠ some 48) (hl : x.length < y.length) : decimal x < decimal y := by
  obtain _ | ⟨d, y⟩ := y
  · simp at hl
  have hd : d ≠ 48 := by simpa using h0
  calc decimal x < 10 ^ x.length := decimal_lt hx
    _ ≤ 10 ^ y.length := Nat.pow_le_pow_right (by decide) (by simpa [Nat.lt_succ_iff] using hl)
    _ ≤ decimal (d :: y) := le_decimal_cons (hy d mem_cons_self) hd

theorem head?_dropWhile_zero (s : Bytes) : (s.dropWhile (· == 48)).head? ≠ some 48 := by
  intro h
  have := head?_dropWhile_not (· == (48 : UInt8)) s
  rw [h] at this
  simp at this

/-- **Numbers by their digits**: the longer run is larger, and between runs of one length the first digit that differs
decides. -/
theorem compare_length_then_cmpBytes (hx : ∀ c ∈ x, isAsciiDigit c) (hy : ∀ c ∈ y, isAsciiDigit c) :
    let x' := x.dropWhile (· == 48)
    let y' := y.dropWhile (· == 48)
    (compare x'.length y'.length).then (cmpBytes x' y') = compare (decimal x) (decimal y) := by
  intro x' y'
  have hx' : ∀ c ∈ x', isAsciiDigit c := fun c hc => hx c ((dropWhile_sublist _).subset hc)
  have hy' : ∀ c ∈ y', isAsciiDigit c := fun c hc => hy c ((dropWhile_sublist _).subset hc)
  rw [← decimal_dropWhile_zero x, ← decimal_dropWhile_zero y]
  rcases lt_trichotomy x'.length y'.length with h | h | h
  · rw [Nat.compare_eq_lt.mpr h, Nat.compare_eq_lt.mpr (decimal_lt_of_length_lt hx' hy' (head?_dropWhile_zero y) h)]
    rfl
  · rw [Nat.compare_eq_eq.mpr h, Ordering.then, cmpBytes_eq_compare_decimal h hx' hy']
  · rw [Nat.compare_eq_gt.mpr h, Nat.compare_eq_gt.mpr (decimal_lt_of_length_lt hy' hx' (head?_dropWhile_zero x) h)]
    rfl

end OpenVibes.Rust
