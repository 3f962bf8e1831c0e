import Mathlib.Data.Rat.Floor
import Mathlib.Tactic.Linarith
import Mathlib.Tactic.Ring
import Mathlib.Tactic.FieldSimp
import Mathlib.Tactic.NormNum

/-!
# Decimal rounding of rationals

`Rounding.roundAway` rounds to the nearest integer with ties away from zero and
`Rounding.roundDp n` does so at the `n`-th decimal.  `Rounding.numeric p s` is a
fixed-point column type with `p` digits, `s` of them after the point: a value is
rounded to `s` decimals and refused when it needs more than `p - s` digits before
the point.  `Rounding.roundDpHalfEven` is the rounding of a decimal library that
breaks ties to the even digit.
-/

namespace Rounding

/-- The nearest integer, ties away from zero. -/
def roundAway (x : ℚ) : ℤ :=
  if 0 ≤ x then ⌊x + 1 / 2⌋ else -⌊-x + 1 / 2⌋

/-- Rounding at the `n`-th decimal, ties away from zero. -/
def roundDp (n : ℕ) (x : ℚ) : ℚ :=
  (roundAway (x * 10 ^ n) : ℚ) / 10 ^ n

/-- The nearest integer, ties to the even one. -/
def roundHalfEven (x : ℚ) : ℤ :=
  if x - ⌊x⌋ < 1 / 2 ∨ (x - ⌊x⌋ = 1 / 2 ∧ ⌊x⌋ % 2 = 0) then ⌊x⌋ else ⌊x⌋ + 1

/-- Rounding at the `n`-th decimal, ties to the even digit. -/
def roundDpHalfEven (n : ℕ) (x : ℚ) : ℚ :=
  (roundHalfEven (x * 10 ^ n) : ℚ) / 10 ^ n

/-- The value has at most `n` decimals. -/
def HasScale (n : ℕ) (x : ℚ) : Prop := ∃ k : ℤ, x = k / 10 ^ n

variable {n : ℕ} {x y : ℚ}

theorem hasScale_iff_den : HasScale n x ↔ (x * 10 ^ n).den = 1 := by
  have hpow : (10 : ℚ) ^ n ≠ 0 := by positivity
  constructor
  · rintro ⟨k, rfl⟩
    rw [div_mul_cancel₀ _ hpow]
    exact Rat.den_intCast k
  · intro h
    refine ⟨(x * 10 ^ n).num, ?_⟩
    rw [Rat.den_eq_one_iff] at h
    rw [h, mul_div_cancel_right₀ _ hpow]

instance (n : ℕ) (x : ℚ) : Decidable (HasScale n x) := decidable_of_iff _ hasScale_iff_den.symm

/-- Storing `x` in a column of `p` digits with `s` decimals. -/
def numeric (p s : ℕ) (x : ℚ) : Option ℚ :=
  if |roundDp s x| < 10 ^ (p - s) then some (roundDp s x) else none

/-! ## Rounding keeps what is already rounded -/

theorem floor_intCast_add_half (k : ℤ) : ⌊(k : ℚ) + 1 / 2⌋ = k := by
  rw [Int.floor_eq_iff]
  constructor <;> linarith

@[simp] theorem roundAway_intCast (k : ℤ) : roundAway (k : ℚ) = k := by
  unfold roundAway
  split
  · exact floor_intCast_add_half k
  · have hneg : (-(k : ℚ) + 1 / 2) = ((-k : ℤ) : ℚ) + 1 / 2 := by push_cast; ring
    rw [hneg, floor_intCast_add_half]
    ring

theorem abs_roundAway_sub_le (x : ℚ) : |(roundAway x : ℚ) - x| ≤ 1 / 2 := by
  unfold roundAway
  split
  · have hfloor := Int.floor_le (x + 1 / 2)
    have hlt := Int.lt_floor_add_one (x + 1 / 2)
    rw [abs_le]
    constructor <;> linarith
  · have hfloor := Int.floor_le (-x + 1 / 2)
    have hlt := Int.lt_floor_add_one (-x + 1 / 2)
    push_cast
    rw [abs_le]
    constructor <;> linarith

theorem roundAway_of_abs_sub_lt {k : ℤ} (h : |x - k| < 1 / 2) : roundAway x = k := by
  have hround := abs_roundAway_sub_le x
  have htri := abs_sub_le (roundAway x : ℚ) x k
  have hclose : |((roundAway x - k : ℤ) : ℚ)| < 1 := by
    push_cast
    linarith
  have hlt : |roundAway x - k| < 1 := by exact_mod_cast hclose
  have := abs_lt.mp hlt
  omega

theorem roundAway_neg (x : ℚ) : roundAway (-x) = -roundAway x := by
  rcases lt_trichotomy x 0 with hx | rfl | hx
  · rw [roundAway, if_pos (neg_nonneg.mpr hx.le), roundAway, if_neg (not_le.mpr hx), neg_neg]
  · have hzero : roundAway 0 = 0 := roundAway_intCast 0
    rw [neg_zero, hzero, neg_zero]
  · rw [roundAway, if_neg (not_le.mpr (neg_lt_zero.mpr hx)), roundAway, if_pos hx.le, neg_neg]

theorem roundDp_neg (n : ℕ) (x : ℚ) : roundDp n (-x) = -roundDp n x := by
  rw [roundDp, neg_mul, roundAway_neg, Int.cast_neg, neg_div, roundDp]

theorem roundDp_of_hasScale (h : HasScale n x) : roundDp n x = x := by
  obtain ⟨k, rfl⟩ := h
  have hpow : (10 : ℚ) ^ n ≠ 0 := by positivity
  unfold roundDp
  rw [div_mul_cancel₀ _ hpow, roundAway_intCast]

theorem hasScale_roundDp (n : ℕ) (x : ℚ) : HasScale n (roundDp n x) :=
  ⟨roundAway (x * 10 ^ n), rfl⟩

theorem HasScale.mono {m : ℕ} (h : HasScale n x) (hnm : n ≤ m) : HasScale m x := by
  obtain ⟨k, rfl⟩ := h
  refine ⟨k * 10 ^ (m - n), ?_⟩
  have hsplit : (10 : ℚ) ^ m = 10 ^ n * 10 ^ (m - n) := by
    rw [← pow_add, Nat.add_sub_cancel' hnm]
  have hn : (10 : ℚ) ^ n ≠ 0 := by positivity
  have hm : (10 : ℚ) ^ (m - n) ≠ 0 := by positivity
  push_cast
  rw [hsplit, mul_div_mul_right _ _ hm]

theorem HasScale.neg (h : HasScale n x) : HasScale n (-x) := by
  obtain ⟨k, rfl⟩ := h
  exact ⟨-k, by push_cast; ring⟩

theorem HasScale.abs (h : HasScale n x) : HasScale n |x| := by
  rcases abs_choice x with hx | hx
  · rw [hx]; exact h
  · rw [hx]; exact h.neg

theorem hasScale_zero (n : ℕ) : HasScale n 0 := ⟨0, by simp⟩

theorem HasScale.add (hx : HasScale n x) (hy : HasScale n y) : HasScale n (x + y) := by
  obtain ⟨j, rfl⟩ := hx
  obtain ⟨k, rfl⟩ := hy
  exact ⟨j + k, by push_cast; ring⟩

theorem HasScale.int_mul (h : HasScale n x) (m : ℤ) : HasScale n (m * x) := by
  obtain ⟨k, rfl⟩ := h
  exact ⟨m * k, by push_cast; ring⟩

theorem HasScale.list_sum {xs : List ℚ} (h : ∀ x ∈ xs, HasScale n x) : HasScale n xs.sum := by
  induction xs with
  | nil => exact hasScale_zero n
  | cons x xs ih =>
    rw [List.sum_cons]
    exact (h x List.mem_cons_self).add (ih fun y hy => h y (List.mem_cons_of_mem x hy))

theorem one_le_of_hasScale (hscale : HasScale n x) (hpos : 0 < x) : 1 ≤ x * 10 ^ n := by
  obtain ⟨k, rfl⟩ := hscale
  have hpow : (0 : ℚ) < 10 ^ n := by positivity
  rw [div_mul_cancel₀ _ hpow.ne']
  have hk : 0 < k := by
    have := (div_pos_iff_of_pos_right hpow).mp hpos
    exact_mod_cast this
  exact_mod_cast hk

theorem roundDp_nonneg (hx : 0 ≤ x) : 0 ≤ roundDp n x := by
  have hscaled : (0 : ℚ) ≤ x * 10 ^ n := by positivity
  have hfloor : 0 ≤ ⌊x * 10 ^ n + 1 / 2⌋ := Int.floor_nonneg.mpr (by positivity)
  rw [roundDp, roundAway, if_pos hscaled]
  exact div_nonneg (by exact_mod_cast hfloor) (by positivity)

theorem roundDp_le (hscale : HasScale n y) (h : x ≤ y) : roundDp n x ≤ y := by
  obtain ⟨k, rfl⟩ := hscale
  have hpow : (0 : ℚ) < 10 ^ n := by positivity
  have hscaled : x * 10 ^ n ≤ k := (le_div_iff₀ hpow).mp h
  have hround : roundAway (x * 10 ^ n) ≤ k := by
    unfold roundAway
    split
    · rw [← floor_intCast_add_half k]
      exact Int.floor_le_floor (by linarith)
    · have hfloor : -k ≤ ⌊-(x * 10 ^ n) + 1 / 2⌋ := Int.le_floor.mpr (by push_cast; linarith)
      omega
  rw [roundDp]
  gcongr

theorem roundDp_mono (hx : 0 ≤ x) (h : x ≤ y) : roundDp n x ≤ roundDp n y := by
  have hscaled : (0 : ℚ) ≤ x * 10 ^ n := by positivity
  have hle : x * 10 ^ n ≤ y * 10 ^ n := by gcongr
  rw [roundDp, roundDp, roundAway, roundAway, if_pos hscaled, if_pos (hscaled.trans hle)]
  gcongr

theorem abs_roundDp (n : ℕ) (x : ℚ) : |roundDp n x| = roundDp n |x| := by
  rcases le_total 0 x with hx | hx
  · rw [abs_of_nonneg hx, abs_of_nonneg (roundDp_nonneg hx)]
  · rw [abs_of_nonpos hx, roundDp_neg, ← abs_neg, ← roundDp_neg,
      abs_of_nonneg (roundDp_nonneg (neg_nonneg.mpr hx))]

theorem roundDp_add (hscale : HasScale n x) (hx : 0 ≤ x) (hy : 0 ≤ y) :
    roundDp n (x + y) = x + roundDp n y := by
  obtain ⟨k, rfl⟩ := hscale
  have hpow : (10 : ℚ) ^ n ≠ 0 := by positivity
  have hscaled : (0 : ℚ) ≤ y * 10 ^ n := by positivity
  have hk : (0 : ℚ) ≤ k := by
    have := mul_nonneg hx (show (0 : ℚ) ≤ 10 ^ n by positivity)
    rwa [div_mul_cancel₀ _ hpow] at this
  have hsplit : (k / 10 ^ n + y) * 10 ^ n = k + y * 10 ^ n := by
    rw [add_mul, div_mul_cancel₀ _ hpow]
  rw [roundDp, roundDp, hsplit, roundAway, roundAway, if_pos hscaled, if_pos (by positivity),
    add_assoc, Int.floor_intCast_add]
  push_cast
  ring

/-- A positive value is rounded to zero below half a unit of the last digit. -/
theorem roundDp_pos_iff (hx : 0 ≤ x) : 0 < roundDp n x ↔ 1 / 2 ≤ x * 10 ^ n := by
  have hscaled : (0 : ℚ) ≤ x * 10 ^ n := by positivity
  have hpow : (0 : ℚ) < 10 ^ n := by positivity
  rw [roundDp, roundAway, if_pos hscaled, div_pos_iff_of_pos_right hpow, Int.cast_pos,
    Int.floor_pos]
  constructor <;> intro h <;> linarith

/-! ## Rounding to the even digit -/

theorem abs_roundHalfEven_sub_le (x : ℚ) : |(roundHalfEven x : ℚ) - x| ≤ 1 / 2 := by
  have hfloor := Int.floor_le x
  have hlt := Int.lt_floor_add_one x
  unfold roundHalfEven
  split
  · next h =>
      have hle : x - ⌊x⌋ ≤ 1 / 2 := h.elim le_of_lt fun h => h.1.le
      rw [abs_le]
      constructor <;> linarith
  · next h =>
      have hge : 1 / 2 ≤ x - ⌊x⌋ := not_lt.mp fun hlt => h (Or.inl hlt)
      push_cast
      rw [abs_le]
      constructor <;> linarith

theorem roundHalfEven_eq_zero (h0 : 0 ≤ x) (h : x ≤ 1 / 2) : roundHalfEven x = 0 := by
  have hfloor : ⌊x⌋ = 0 := Int.floor_eq_zero_iff.mpr ⟨h0, by linarith⟩
  rw [roundHalfEven, hfloor, Int.cast_zero, sub_zero, if_pos]
  rcases h.lt_or_eq with hlt | heq
  · exact Or.inl hlt
  · exact Or.inr ⟨heq, rfl⟩

theorem roundHalfEven_pos (h : 1 / 2 < x) : 0 < roundHalfEven x := by
  have hclose := (abs_le.mp (abs_roundHalfEven_sub_le x)).1
  have hpos : (0 : ℚ) < roundHalfEven x := by linarith
  exact_mod_cast hpos

/-! ## Fixed-point columns -/

theorem numeric_eq_some {p s : ℕ} (h : numeric p s x = some y) : y = roundDp s x := by
  unfold numeric at h
  split at h
  · exact (Option.some.inj h).symm
  · cases h

theorem numeric_of_hasScale {p s : ℕ} (hx : HasScale s x) (h : numeric p s x = some y) : y = x := by
  rw [numeric_eq_some h, roundDp_of_hasScale hx]

theorem numeric_isSome_of_abs_le {p s : ℕ} (h : |x| ≤ |y|) (hy : (numeric p s y).isSome) :
    (numeric p s x).isSome := by
  have hround : |roundDp s x| ≤ |roundDp s y| := by
    rw [abs_roundDp, abs_roundDp]
    exact roundDp_mono (abs_nonneg x) h
  unfold numeric at hy ⊢
  split at hy
  · next hlt =>
      rw [if_pos (hround.trans_lt hlt)]
      rfl
  · cases hy

/-! ## Integers of 32 and 64 bits -/

/-- The value fits a signed 32-bit integer. -/
def FitsI32 (n : ℤ) : Prop := -2 ^ 31 ≤ n ∧ n < 2 ^ 31

instance (n : ℤ) : Decidable (FitsI32 n) := by
  unfold FitsI32
  infer_instance

/-- The signed 32-bit integer that agrees with `n` modulo `2 ^ 32`. -/
def wrapI32 (n : ℤ) : ℤ := (n + 2 ^ 31) % 2 ^ 32 - 2 ^ 31

theorem wrapI32_of_fits {n : ℤ} (h : FitsI32 n) : wrapI32 n = n := by
  unfold FitsI32 at h
  unfold wrapI32
  omega

theorem fitsI32_wrapI32 (n : ℤ) : FitsI32 (wrapI32 n) := by
  unfold FitsI32 wrapI32
  omega

theorem wrapI32_add {m n : ℤ} (hm : FitsI32 m) (hn : FitsI32 n) (hpos : 0 ≤ m)
    (hwrap : 0 ≤ wrapI32 (m + n)) : wrapI32 (m + n) = m + n := by
  unfold FitsI32 at hm hn
  unfold wrapI32 at hwrap ⊢
  omega

/-- The value fits a signed 64-bit integer. -/
def FitsI64 (n : ℤ) : Prop := -2 ^ 63 ≤ n ∧ n < 2 ^ 63

instance (n : ℤ) : Decidable (FitsI64 n) := by
  unfold FitsI64
  infer_instance

/-- The signed 64-bit integer that agrees with `n` modulo `2 ^ 64`. -/
def wrapI64 (n : ℤ) : ℤ := (n + 2 ^ 63) % 2 ^ 64 - 2 ^ 63

end Rounding
