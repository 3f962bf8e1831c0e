import OpenAccounting.Lib.Decimal

/-!
# Binary floating point with 53 bits

`Binary64.nearest` rounds a rational to the nearest number with a mantissa of 53 bits, with ties to
the even mantissa.  The exponent has no bounds, so this is `f64` away from its overflow and its
subnormal numbers.  `Binary64.toI64` is the cast to a 64-bit integer, which drops the fraction and
saturates.
-/

namespace Binary64

open Rounding

/-- The unit in the last place. -/
def ulp (x : ℚ) : ℚ := 2 ^ (Int.log 2 |x| - 52)

/-- The nearest number with 53 bits. -/
def nearest (x : ℚ) : ℚ := roundHalfEven (x / ulp x) * ulp x

/-- `f64 as i64`. -/
def toI64 (x : ℚ) : ℤ := max (-2 ^ 63) (min (2 ^ 63 - 1) (if 0 ≤ x then ⌊x⌋ else ⌈x⌉))

theorem nearest_of_bits {k : ℤ} (hk : |k| < 2 ^ 53) (e : ℤ) :
    nearest (k * 2 ^ e) = k * 2 ^ e := by
  have hpow : (0 : ℚ) < 2 ^ e := zpow_pos (by norm_num) e
  by_cases hzero : k = 0
  · subst hzero
    simp [nearest, roundHalfEven]
  have habs : |(k : ℚ) * 2 ^ e| = |k| * 2 ^ e := by
    rw [abs_mul, abs_of_pos hpow, Int.cast_abs]
  have hpos : 0 < |(k : ℚ) * 2 ^ e| := by
    rw [habs]
    have := abs_pos.mpr hzero
    positivity
  have hlog : Int.log 2 |(k : ℚ) * 2 ^ e| < 53 + e := by
    rw [← Int.lt_zpow_iff_log_lt (by norm_num) hpos, habs, Nat.cast_ofNat,
      zpow_add₀ (by norm_num : (2 : ℚ) ≠ 0)]
    have hlt : ((|k| : ℤ) : ℚ) < 2 ^ (53 : ℤ) := by exact_mod_cast hk
    exact mul_lt_mul_of_pos_right hlt hpow
  -- The number is a whole number of units.
  obtain ⟨m, hm⟩ := Int.eq_ofNat_of_zero_le
    (show 0 ≤ e - (Int.log 2 |(k : ℚ) * 2 ^ e| - 52) by omega)
  have hunits : (k : ℚ) * 2 ^ e = ((k * 2 ^ m : ℤ) : ℚ) * ulp (k * 2 ^ e) := by
    have he : e = m + (Int.log 2 |(k : ℚ) * 2 ^ e| - 52) := by omega
    rw [ulp, Int.cast_mul, Int.cast_pow, Int.cast_ofNat, mul_assoc, ← zpow_natCast,
      ← zpow_add₀ (by norm_num : (2 : ℚ) ≠ 0), ← he]
  have hulp : ulp ((k : ℚ) * 2 ^ e) ≠ 0 := (zpow_pos (by norm_num) _).ne'
  have hdiv : (k : ℚ) * 2 ^ e / ulp (k * 2 ^ e) = ((k * 2 ^ m : ℤ) : ℚ) :=
    (div_eq_iff hulp).mpr hunits
  rw [nearest, hdiv, Decimal.roundHalfEven_intCast, ← hunits]

theorem nearest_intCast {k : ℤ} (hk : |k| < 2 ^ 53) : nearest k = k := by
  simpa using nearest_of_bits hk 0

theorem toI64_intCast {k : ℤ} (h : FitsI64 k) : toI64 k = k := by
  have hfits := h
  unfold FitsI64 at hfits
  rw [toI64, Int.floor_intCast, Int.ceil_intCast, ite_self, min_eq_right (by omega),
    max_eq_right (by omega)]

end Binary64
