import Mathlib.Algebra.Order.BigOperators.Group.List
import Mathlib.Data.Int.Log
import OpenAccounting.Lib.Rounding

/-!
# Decimals with a 96-bit mantissa

A decimal is an integer of 96 bits over a power of ten of at most `28`.  `Decimal.Arith` is an
arithmetic of such decimals, as a library supplies it, and `Decimal.Arith.Lawful` says what its
users may rely on: a result that is a decimal is exact, and any other is rounded in the last of
its 28 digits.  `Decimal.nearest` is one such arithmetic.  It rounds at the last place that fits
the mantissa, with ties to the even digit.  `Decimal.Checked` has operations that panic when they
overflow.
-/

namespace Decimal

open Rounding

/-- The value is a decimal. -/
def Representable (x : ℚ) : Prop := ∃ k : ℤ, ∃ s ≤ 28, |k| < 2 ^ 96 ∧ x = k / 10 ^ s

/-- The decimal `r` is what a result `x` is rounded to. -/
structure Rounds (r x : ℚ) : Prop where
  representable : Representable r
  exact : Representable x → r = x
  close : |r - x| ≤ |x| / 10 ^ 27 + 1 / 10 ^ 28

/-- The operations of a decimal library. -/
structure Arith where
  add : ℚ → ℚ → ℚ
  sub : ℚ → ℚ → ℚ
  mul : ℚ → ℚ → ℚ
  div : ℚ → ℚ → ℚ

/-- The operations without any rounding. -/
def exact : Arith where
  add a b := a + b
  sub a b := a - b
  mul a b := a * b
  div a b := a / b

/-- What the operations do on decimals as long as nothing overflows. -/
structure Arith.Lawful (d : Arith) : Prop where
  add : ∀ a b, Representable a → Representable b → |a + b| ≤ 10 ^ 28 → Rounds (d.add a b) (a + b)
  sub : ∀ a b, Representable a → Representable b → |a - b| ≤ 10 ^ 28 → Rounds (d.sub a b) (a - b)
  mul : ∀ a b, Representable a → Representable b → |a * b| ≤ 10 ^ 28 → Rounds (d.mul a b) (a * b)
  div : ∀ a b, Representable a → Representable b → b ≠ 0 → |a / b| ≤ 10 ^ 28 →
    Rounds (d.div a b) (a / b)

/-- The sign of a factor is the sign of the product and no part of its rounding. -/
def Arith.SignMagnitude (d : Arith) : Prop := ∀ a b, d.mul (-a) b = -d.mul a b

theorem representable_of_hasScale {n : ℕ} {x : ℚ} (hn : n ≤ 28) (h : HasScale n x)
    (hx : |x| * 10 ^ n < 2 ^ 96) : Representable x := by
  obtain ⟨k, rfl⟩ := h
  refine ⟨k, n, hn, ?_, rfl⟩
  have hpow : (0 : ℚ) < 10 ^ n := by positivity
  rw [abs_div, abs_of_pos hpow, div_mul_cancel₀ _ hpow.ne'] at hx
  exact_mod_cast hx

theorem representable_intCast {k : ℤ} (h : |k| < 2 ^ 96) : Representable k :=
  ⟨k, 0, Nat.zero_le 28, h, by simp⟩

/-! ## Rounding to the nearest decimal -/

/-- The value rounded at the last place up to the `s`-th that fits the mantissa. -/
def fit (x : ℚ) : ℕ → ℚ
  | 0 => roundDpHalfEven 0 x
  | s + 1 => if |roundHalfEven (x * 10 ^ (s + 1))| < 2 ^ 96 then roundDpHalfEven (s + 1) x else fit x s

/-- The decimal library that rounds every result to the nearest decimal. -/
def nearest : Arith where
  add a b := fit (a + b) 28
  sub a b := fit (a - b) 28
  mul a b := fit (a * b) 28
  div a b := fit (a / b) 28

theorem abs_roundHalfEven_sub_le (x : ℚ) : |(roundHalfEven x : ℚ) - x| ≤ 1 / 2 := by
  have hfloor := Int.floor_le x
  have hlt := Int.lt_floor_add_one x
  unfold roundHalfEven
  split
  · rename_i h
    have hhalf : x - ⌊x⌋ ≤ 1 / 2 := by
      rcases h with h | ⟨h, -⟩
      · exact h.le
      · exact h.le
    rw [abs_le]
    constructor <;> linarith
  · rename_i h
    have hhalf : 1 / 2 ≤ x - ⌊x⌋ := not_lt.mp fun hlt => h (Or.inl hlt)
    push_cast
    rw [abs_le]
    constructor <;> linarith

@[simp] theorem roundHalfEven_intCast (k : ℤ) : roundHalfEven (k : ℚ) = k := by
  simp [roundHalfEven]

theorem roundHalfEven_neg (x : ℚ) : roundHalfEven (-x) = -roundHalfEven x := by
  by_cases hint : (⌊x⌋ : ℚ) = x
  · rw [← hint, ← Int.cast_neg, roundHalfEven_intCast, roundHalfEven_intCast]
  have hlt : (⌊x⌋ : ℚ) < x := lt_of_le_of_ne (Int.floor_le x) hint
  have hfloor : ⌊-x⌋ = -(⌊x⌋ + 1) := by
    rw [Int.floor_eq_iff]
    push_cast
    constructor <;> linarith [Int.lt_floor_add_one x]
  have hfract : -x - ⌊-x⌋ = 1 - (x - ⌊x⌋) := by
    rw [hfloor]
    push_cast
    ring
  -- The two fractions add up to one, so they tie together and the even neighbour is the same.
  rw [roundHalfEven, roundHalfEven, hfract, hfloor]
  rcases lt_trichotomy (x - ⌊x⌋) (1 / 2) with h | h | h
  · rw [if_neg (by rintro (h' | ⟨h', -⟩) <;> linarith), if_pos (Or.inl h)]
    ring
  · rw [h]
    by_cases heven : ⌊x⌋ % 2 = 0
    · rw [if_neg (by rintro (h' | ⟨-, h'⟩); exacts [by linarith, by omega]),
        if_pos (Or.inr ⟨rfl, heven⟩)]
      ring
    · rw [if_pos (Or.inr ⟨by norm_num, by omega⟩),
        if_neg (by rintro (h' | ⟨-, h'⟩); exacts [by linarith, heven h'])]
  · rw [if_pos (Or.inl (by linarith)), if_neg (by rintro (h' | ⟨h', -⟩) <;> linarith)]

theorem fit_neg (x : ℚ) (s : ℕ) : fit (-x) s = -fit x s := by
  have hround : ∀ n, roundDpHalfEven n (-x) = -roundDpHalfEven n x := by
    intro n
    rw [roundDpHalfEven, roundDpHalfEven, neg_mul, roundHalfEven_neg, Int.cast_neg, neg_div]
  induction s with
  | zero => exact hround 0
  | succ s ih =>
    rw [fit, fit, hround, ih, neg_mul, roundHalfEven_neg, abs_neg]
    split <;> rfl

theorem roundDpHalfEven_of_hasScale {n : ℕ} {x : ℚ} (h : HasScale n x) :
    roundDpHalfEven n x = x := by
  obtain ⟨k, rfl⟩ := h
  have hpow : (10 : ℚ) ^ n ≠ 0 := by positivity
  unfold roundDpHalfEven
  rw [div_mul_cancel₀ _ hpow, roundHalfEven_intCast]

theorem abs_roundDpHalfEven_sub_le (n : ℕ) (x : ℚ) :
    |roundDpHalfEven n x - x| ≤ 1 / 2 / 10 ^ n := by
  have hpow : (0 : ℚ) < 10 ^ n := by positivity
  have hscaled : roundDpHalfEven n x - x =
      ((roundHalfEven (x * 10 ^ n) : ℚ) - x * 10 ^ n) / 10 ^ n := by
    unfold roundDpHalfEven
    rw [sub_div, mul_div_cancel_right₀ _ hpow.ne']
  rw [hscaled, abs_div, abs_of_pos hpow]
  gcongr
  exact abs_roundHalfEven_sub_le _

theorem fit_spec (x : ℚ) (hx : |x| ≤ 10 ^ 28) :
    ∀ s ≤ 28, ∃ p ≤ s, fit x s = roundDpHalfEven p x ∧ |roundHalfEven (x * 10 ^ p)| < 2 ^ 96 ∧
      (p = s ∨ 2 ^ 96 ≤ |roundHalfEven (x * 10 ^ (p + 1))|) ∧
      ∀ q ≤ s, |roundHalfEven (x * 10 ^ q)| < 2 ^ 96 → q ≤ p := by
  intro s hs
  induction s with
  | zero =>
    refine ⟨0, le_rfl, rfl, ?_, Or.inl rfl, fun q hq _ => hq⟩
    have hround := abs_roundHalfEven_sub_le (x * 10 ^ 0)
    have hbound : |(roundHalfEven (x * 10 ^ 0) : ℚ)| < 2 ^ 96 := by
      have htri := abs_add_le ((roundHalfEven (x * 10 ^ 0) : ℚ) - x * 10 ^ 0) (x * 10 ^ 0)
      rw [sub_add_cancel] at htri
      rw [pow_zero, mul_one] at htri hround ⊢
      norm_num at hx ⊢
      linarith
    exact_mod_cast hbound
  | succ s ih =>
    by_cases hfits : |roundHalfEven (x * 10 ^ (s + 1))| < 2 ^ 96
    · refine ⟨s + 1, le_rfl, ?_, hfits, Or.inl rfl, fun q hq _ => hq⟩
      rw [fit, if_pos hfits]
    · obtain ⟨p, hp, hfit, hmantissa, hnext, hmax⟩ := ih (by omega)
      refine ⟨p, by omega, ?_, hmantissa, Or.inr ?_, fun q hq hq' => ?_⟩
      · rw [fit, if_neg hfits]
        exact hfit
      · rcases hnext with rfl | hnext
        · exact not_lt.mp hfits
        · exact hnext
      · rcases Nat.le_succ_iff.mp hq with hq | rfl
        · exact hmax q hq hq'
        · exact absurd hq' hfits

theorem rounds_fit {x : ℚ} (hx : |x| ≤ 10 ^ 28) : Rounds (fit x 28) x := by
  obtain ⟨p, hp, hfit, hmantissa, hnext, hmax⟩ := fit_spec x hx 28 le_rfl
  rw [hfit]
  refine ⟨⟨_, p, hp, hmantissa, rfl⟩, ?_, ?_⟩
  · rintro ⟨k, s, hs, hk, rfl⟩
    have hpow : (10 : ℚ) ^ s ≠ 0 := by positivity
    have hsp : s ≤ p := hmax s hs (by rw [div_mul_cancel₀ _ hpow, roundHalfEven_intCast]; exact hk)
    exact roundDpHalfEven_of_hasScale (HasScale.mono ⟨k, rfl⟩ hsp)
  · refine (abs_roundDpHalfEven_sub_le p x).trans ?_
    rcases hnext with rfl | hnext
    · have habs : 0 ≤ |x| / 10 ^ 27 := by positivity
      norm_num at habs ⊢
      linarith
    · -- One more place would not fit, so the value has 28 digits at least.
      have hround := abs_roundHalfEven_sub_le (x * 10 ^ (p + 1))
      have hlarge : (2 : ℚ) ^ 96 ≤ |(roundHalfEven (x * 10 ^ (p + 1)) : ℚ)| := by
        exact_mod_cast hnext
      have htri := abs_add_le ((roundHalfEven (x * 10 ^ (p + 1)) : ℚ) - x * 10 ^ (p + 1))
        (x * 10 ^ (p + 1))
      rw [sub_add_cancel, abs_mul x, abs_of_pos (show (0 : ℚ) < 10 ^ (p + 1) by positivity)] at htri
      have hpow : (0 : ℚ) < 10 ^ p := by positivity
      have hshift : |x| * 10 ^ (p + 1) = |x| * 10 ^ p * 10 := by rw [pow_succ, mul_assoc]
      have hdigits : (10 : ℚ) ^ 27 ≤ |x| * 10 ^ p := by
        norm_num at hlarge ⊢
        linarith
      have hplace : 1 / 2 / 10 ^ p ≤ |x| / (10 : ℚ) ^ 27 := by
        rw [div_le_div_iff₀ hpow (by positivity)]
        linarith
      have htiny : (0 : ℚ) ≤ 1 / 10 ^ 28 := by positivity
      linarith

theorem nearest_lawful : nearest.Lawful where
  add _ _ _ _ h := rounds_fit h
  sub _ _ _ _ h := rounds_fit h
  mul _ _ _ _ h := rounds_fit h
  div _ _ _ _ _ h := rounds_fit h

theorem nearest_signMagnitude : nearest.SignMagnitude := by
  intro a b
  show fit (-a * b) 28 = -fit (a * b) 28
  rw [neg_mul, fit_neg]

/-! ## Operations that panic -/

/-- The operations of a decimal library, or none where they overflow. -/
structure Checked where
  add : ℚ → ℚ → Option ℚ
  mul : ℚ → ℚ → Option ℚ

/-- A result that is a decimal is exact. -/
structure Checked.Lawful (d : Checked) : Prop where
  add : ∀ a b, Representable a → Representable b → Representable (a + b) → d.add a b = some (a + b)
  mul : ∀ a b, Representable a → Representable b → Representable (a * b) → d.mul a b = some (a * b)

/-- The sum of a list, from the left. -/
def Checked.sum (d : Checked) (xs : List ℚ) : Option ℚ := xs.foldlM d.add 0

/-- The nearest decimal, unless even the integer next to the value is too large. -/
def fitChecked (x : ℚ) : Option ℚ :=
  if |roundHalfEven x| < 2 ^ 96 then some (fit x 28) else none

/-- The decimal library that rounds to the nearest decimal and panics on an overflow. -/
def checkedNearest : Checked where
  add a b := fitChecked (a + b)
  mul a b := fitChecked (a * b)

theorem fit_of_hasMantissa {k : ℤ} {s n : ℕ} (hk : |k| < 2 ^ 96) (hs : s ≤ n) :
    fit (k / 10 ^ s) n = k / 10 ^ s := by
  induction n with
  | zero =>
    obtain rfl : s = 0 := by omega
    rw [fit, roundDpHalfEven_of_hasScale ⟨k, rfl⟩]
  | succ n ih =>
    rw [fit]
    split
    · exact roundDpHalfEven_of_hasScale (HasScale.mono ⟨k, rfl⟩ hs)
    · rename_i hlarge
      refine ih ?_
      by_contra hgt
      obtain rfl : s = n + 1 := by omega
      have hpow : (10 : ℚ) ^ (n + 1) ≠ 0 := by positivity
      rw [div_mul_cancel₀ _ hpow, roundHalfEven_intCast] at hlarge
      exact hlarge hk

theorem fitChecked_of_representable {x : ℚ} (h : Representable x) : fitChecked x = some x := by
  obtain ⟨k, s, hs, hk, rfl⟩ := h
  have hround := abs_roundHalfEven_sub_le ((k : ℚ) / 10 ^ s)
  have htri := abs_add_le ((roundHalfEven ((k : ℚ) / 10 ^ s) : ℚ) - k / 10 ^ s) (k / 10 ^ s)
  rw [sub_add_cancel] at htri
  have hle : |(k : ℚ) / 10 ^ s| ≤ |(k : ℚ)| := by
    rw [abs_div, abs_of_pos (show (0 : ℚ) < 10 ^ s by positivity)]
    exact div_le_self (abs_nonneg _) (one_le_pow₀ (by norm_num))
  have hk' : |(k : ℚ)| ≤ 2 ^ 96 - 1 := by exact_mod_cast Int.le_sub_one_of_lt hk
  have hlt : |(roundHalfEven ((k : ℚ) / 10 ^ s) : ℚ)| < 2 ^ 96 := by linarith
  rw [fitChecked, if_pos (by exact_mod_cast hlt), fit_of_hasMantissa hk hs]

theorem checkedNearest_lawful : checkedNearest.Lawful where
  add _ _ _ _ h := fitChecked_of_representable h
  mul _ _ _ _ h := fitChecked_of_representable h

/-- As long as the amounts fit into one mantissa together, their sum is exact. -/
theorem Checked.Lawful.sum_eq {d : Checked} (hd : d.Lawful) {n : ℕ} (hn : n ≤ 28) {xs : List ℚ}
    (hscale : ∀ x ∈ xs, HasScale n x) (hfits : (xs.map abs).sum * 10 ^ n < 2 ^ 96) :
    d.sum xs = some xs.sum := by
  have hpow : (0 : ℚ) < 10 ^ n := by positivity
  -- The amounts that are summed already are part of the bound.
  suffices h : ∀ done : ℚ, HasScale n done → (|done| + (xs.map abs).sum) * 10 ^ n < 2 ^ 96 →
      xs.foldlM d.add done = some (done + xs.sum) by
    have hsum := h 0 (hasScale_zero n) (by rw [abs_zero, zero_add]; exact hfits)
    rw [zero_add] at hsum
    exact hsum
  clear hfits
  induction xs with
  | nil =>
    intro done _ _
    simp
  | cons x xs ih =>
    intro done hdone hbound
    rw [List.map_cons, List.sum_cons] at hbound
    have hx := hscale x List.mem_cons_self
    have hrest : 0 ≤ (xs.map abs).sum := List.sum_nonneg (by simp)
    have hstep : |done + x| ≤ |done| + |x| := abs_add_le done x
    have hle : ∀ {y : ℚ}, |y| ≤ |done| + (|x| + (xs.map abs).sum) → |y| * 10 ^ n < 2 ^ 96 :=
      fun h => (mul_le_mul_of_nonneg_right h hpow.le).trans_lt hbound
    have hadd : d.add done x = some (done + x) :=
      hd.add done x
        (representable_of_hasScale hn hdone (hle (by linarith [abs_nonneg x])))
        (representable_of_hasScale hn hx (hle (by linarith [abs_nonneg done])))
        (representable_of_hasScale hn (hdone.add hx) (hle (by linarith)))
    rw [List.foldlM_cons, hadd]
    show xs.foldlM d.add (done + x) = _
    rw [ih (fun y hy => hscale y (List.mem_cons_of_mem x hy)) (done + x) (hdone.add hx)
      ((mul_le_mul_of_nonneg_right (by linarith) hpow.le).trans_lt hbound), List.sum_cons,
      add_assoc]

end Decimal
