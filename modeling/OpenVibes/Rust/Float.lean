import Mathlib.Tactic

/-!
# Binary floating point

`f32` and `f64` as far as the code computes with them: a value is a rational number, and every operation rounds the
exact result to nearest, ties to even. Infinities, NaN and the sign of zero do not come up.
-/

namespace OpenVibes.Rust

structure FloatFormat where
  precision : ℕ
  minExponent : ℤ

/-- `f32`. -/
def binary32 : FloatFormat := ⟨24, -149⟩

/-- `f64`. -/
def binary64 : FloatFormat := ⟨53, -1074⟩

def twoPow : ℤ → ℚ
  | .ofNat n => (2 ^ n : ℕ)
  | .negSucc n => mkRat 1 (2 ^ (n + 1))

/-- The exponent of the greatest power of two that is not above `|x|`, for `x ≠ 0`. -/
def binaryExponent (x : ℚ) : ℤ :=
  let e : ℤ := (x.num.natAbs.log2 : ℤ) - (x.den.log2 : ℤ)
  if twoPow e ≤ |x| then e else e - 1

def roundTiesEven (x : ℚ) : ℤ :=
  let n := ⌊x⌋
  if x - n < 1 / 2 then n else if 1 / 2 < x - n then n + 1 else if n % 2 = 0 then n else n + 1

def FloatFormat.round (f : FloatFormat) (x : ℚ) : ℚ :=
  if x = 0 then 0
  else
    let unit := twoPow (max (binaryExponent x - (f.precision - 1)) f.minExponent)
    roundTiesEven (x / unit) * unit

abbrev F32 := ℚ

abbrev F64 := ℚ

/-- The `f32` nearest to a number: a literal, a conversion, or the result of an operation. -/
def f32 (x : ℚ) : F32 := binary32.round x

def f64 (x : ℚ) : F64 := binary64.round x

/-- `round`: the nearest integer, the one away from zero of two. -/
def roundAway (x : ℚ) : ℤ := if 0 ≤ x then ⌊x + 1 / 2⌋ else -⌊-x + 1 / 2⌋

/-- `as u16`, which saturates. -/
def asU16 (n : ℤ) : ℕ := min n.toNat 65535

/-- **Tenths from 0 to 10 are exact to the tenth** in either format, also by way of `f64`. -/
theorem round_tenths : ∀ k : ℕ, k < 101 →
    f32 (f64 (k / 10)) = f32 (k / 10) ∧ asU16 (roundAway (f32 (f32 (f64 (k / 10)) * 10))) = k ∧
      asU16 (roundAway (f64 (f64 (k / 10) * 10))) = k := by
  decide +kernel

theorem twoPow_eq (k : ℤ) : twoPow k = (2 : ℚ) ^ k := by
  cases k with
  | ofNat n => simp [twoPow]
  | negSucc n => simp [twoPow, zpow_negSucc, Rat.mkRat_eq_div]

theorem roundTiesEven_mem {x : ℚ} {n : ℤ} (h0 : 0 ≤ x) (h : x ≤ n) : 0 ≤ roundTiesEven x ∧ roundTiesEven x ≤ n := by
  have hflr : (0 : ℤ) ≤ ⌊x⌋ := Int.floor_nonneg.mpr h0
  have hle : ⌊x⌋ ≤ n := by exact_mod_cast (Int.floor_le x).trans h
  have hup : 1 / 2 ≤ x - ⌊x⌋ → ⌊x⌋ + 1 ≤ n := fun hhl => by
    have hlt : (⌊x⌋ : ℚ) < n := by linarith
    exact_mod_cast hlt
  rw [roundTiesEven]
  split_ifs with h1 h2 h3
  · exact ⟨hflr, hle⟩
  · exact ⟨by omega, hup h2.le⟩
  · exact ⟨hflr, hle⟩
  · exact ⟨by omega, hup (not_lt.mp h1)⟩

/-- **Rounding does not leave a range of integers.** -/
theorem f32_mem {x : ℚ} {n : ℕ} (h0 : 0 ≤ x) (h : x ≤ n) (hn : n < 128) : 0 ≤ f32 x ∧ f32 x ≤ n := by
  rw [f32, FloatFormat.round]
  split_ifs with hx
  · exact ⟨le_rfl, n.cast_nonneg⟩
  have hexp : binaryExponent x ≤ 7 := by
    have hnum : x.num.natAbs < 2 ^ (x.den.log2 + 8) := by
      have hcs : x.num ≤ n * x.den := by
        have := Rat.num_div_den x
        have hden : (0 : ℚ) < x.den := by exact_mod_cast x.den_pos
        rw [← this, div_le_iff₀ hden] at h
        exact_mod_cast h
      have hden : x.den < 2 ^ (x.den.log2 + 1) := Nat.lt_log2_self
      have hnon : 0 ≤ x.num := Rat.num_nonneg.mpr h0
      have hle : x.num.natAbs ≤ n * x.den := by omega
      calc x.num.natAbs ≤ n * x.den := hle
        _ < 128 * 2 ^ (x.den.log2 + 1) := by nlinarith
        _ = 2 ^ (x.den.log2 + 8) := by ring
    have hlog : x.num.natAbs.log2 < x.den.log2 + 8 := by
      rcases Nat.eq_zero_or_pos x.num.natAbs with hz | hz
      · rw [hz]
        simp
      · exact (Nat.log2_lt hz.ne').mpr hnum
    rw [binaryExponent]
    split_ifs <;> omega
  -- the unit divides `n`
  obtain ⟨m, hm⟩ : ∃ m : ℕ, max (binaryExponent x - ((binary32.precision : ℤ) - 1)) binary32.minExponent = -(m : ℤ) :=
      by
    refine ⟨(-(max (binaryExponent x - ((binary32.precision : ℤ) - 1)) binary32.minExponent)).toNat, ?_⟩
    have hp : (binary32.precision : ℤ) = 24 := rfl
    have hmin : binary32.minExponent = -149 := rfl
    omega
  have hun : (0 : ℚ) < 2 ^ m := by positivity
  dsimp only
  rw [hm, twoPow_eq, zpow_neg, zpow_natCast, div_inv_eq_mul]
  have hmul : x * 2 ^ m ≤ ((n * 2 ^ m : ℤ) : ℚ) := by
    push_cast
    exact mul_le_mul_of_nonneg_right h hun.le
  obtain ⟨hlow, hhg⟩ := roundTiesEven_mem (mul_nonneg h0 hun.le) hmul
  have hhg' : (roundTiesEven (x * 2 ^ m) : ℚ) ≤ n * 2 ^ m := by exact_mod_cast hhg
  refine ⟨mul_nonneg (by exact_mod_cast hlow) (inv_nonneg.mpr hun.le), ?_⟩
  rwa [← div_eq_mul_inv, div_le_iff₀ hun]

/-- Tenths from 0 to 10 stay in that range. -/
theorem f64_tenths_mem : ∀ k : ℕ, k < 101 → 0 ≤ f64 (k / 10) ∧ f64 (k / 10) ≤ 10 := by
  decide +kernel

example : f32 (1 / 10) = 13421773 / 134217728 := by decide +kernel

end OpenVibes.Rust
