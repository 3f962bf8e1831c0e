import OpenAccounting.Lib.Decimal
import OpenAccounting.Lib.RustStr

/-!
# Decimals as text

A `Decimal.Scaled` is a decimal with the number of places it is written with: two of them may have
one value and different texts.  `Decimal.Text` is what a library writes and reads, and
`Decimal.Text.Lawful` what its users may rely on.  `Decimal.plain` is one such library.
-/

namespace Decimal

open RustStr

/-- An integer of 96 bits with a sign, over a power of ten. -/
structure Scaled where
  coeff : ℤ
  scale : ℕ
  coeff_range : |coeff| < 2 ^ 96 := by decide
  scale_range : scale ≤ 28 := by decide
deriving DecidableEq

theorem Scaled.whole_range : 0 ≤ 28 := by decide

/-- The value of a decimal. -/
def Scaled.value (x : Scaled) : ℚ := x.coeff / 10 ^ x.scale

instance : Neg Scaled where
  neg x := ⟨-x.coeff, x.scale, by rw [abs_neg]; exact x.coeff_range, x.scale_range⟩

@[simp] theorem Scaled.value_neg (x : Scaled) : (-x).value = -x.value := by
  show ((-x.coeff : ℤ) : ℚ) / 10 ^ x.scale = -(x.coeff / 10 ^ x.scale)
  rw [Int.cast_neg, neg_div]

/-- A coefficient and a scale without zeros at the end of the fraction. -/
def stripZeros : ℤ → ℕ → ℤ × ℕ
  | c, 0 => (c, 0)
  | c, s + 1 => if c % 10 = 0 then stripZeros (c / 10) s else (c, s + 1)

theorem stripZeros_spec (c : ℤ) (s : ℕ) :
    |(stripZeros c s).1| ≤ |c| ∧ (stripZeros c s).2 ≤ s ∧
      ((stripZeros c s).1 : ℚ) / 10 ^ (stripZeros c s).2 = c / 10 ^ s := by
  induction s generalizing c with
  | zero => exact ⟨le_rfl, le_rfl, rfl⟩
  | succ s ih =>
    rw [stripZeros]
    split
    · next hzero =>
        obtain ⟨hcoeff, hscale, hvalue⟩ := ih (c / 10)
        obtain ⟨k, rfl⟩ := Int.dvd_of_emod_eq_zero hzero
        rw [Int.mul_ediv_cancel_left k (by decide)] at hcoeff hscale hvalue ⊢
        refine ⟨hcoeff.trans ?_, Nat.le_succ_of_le hscale, ?_⟩
        · have hk := abs_nonneg k
          have hten : |(10 : ℤ)| = 10 := rfl
          rw [abs_mul, hten]
          omega
        · rw [hvalue, pow_succ]
          push_cast
          field_simp
    · exact ⟨le_rfl, le_rfl, rfl⟩

def Scaled.normalize (x : Scaled) : Scaled where
  coeff := (stripZeros x.coeff x.scale).1
  scale := (stripZeros x.coeff x.scale).2
  coeff_range := (stripZeros_spec x.coeff x.scale).1.trans_lt x.coeff_range
  scale_range := (stripZeros_spec x.coeff x.scale).2.1.trans x.scale_range

@[simp] theorem Scaled.value_normalize (x : Scaled) : x.normalize.value = x.value :=
  (stripZeros_spec x.coeff x.scale).2.2

/-- How a library writes and reads decimals. -/
structure Text where
  display : Scaled → String
  parse : String → Option ℚ

/-- A decimal is written with digits, a sign and a point, and is read back with its value, also
with a fraction of zeros after a whole number. -/
structure Text.Lawful (t : Text) : Prop where
  chars : ∀ x, ∀ c ∈ (t.display x).toList, c.isDigit = true ∨ c = '-' ∨ c = '.'
  parse_display : ∀ x, t.parse (t.display x) = some x.value
  parse_whole : ∀ x, '.' ∉ (t.display x).toList → t.parse (t.display x ++ ".00") = some x.value
  parse_empty : t.parse "" = none

theorem Text.Lawful.display_ne_empty {t : Text} (h : t.Lawful) (x : Scaled) : t.display x ≠ "" := by
  intro hempty
  have hread := h.parse_display x
  rw [hempty, h.parse_empty] at hread
  cases hread

theorem Text.Lawful.mem_display {t : Text} (h : t.Lawful) {x : Scaled} {c : Char}
    (hc : c ∈ (t.display x).toList) : c.isAlphanum = true ∨ c = '-' ∨ c = '+' ∨ c = '.' := by
  rcases h.chars x c hc with hdigit | hsign | hpoint
  · exact .inl (RustStr.isAlphanum_of_isDigit hdigit)
  · exact .inr (.inl hsign)
  · exact .inr (.inr (.inr hpoint))

theorem Text.Lawful.value_eq {t : Text} (h : t.Lawful) {x y : Scaled}
    (heq : t.display x = t.display y) : x.value = y.value := by
  refine Option.some_injective _ ?_
  rw [← h.parse_display, heq, h.parse_display]

/-! ## Plain decimal notation -/

/-- The digits of a number, with a point before the last `scale` of them. -/
def pointed (scale n : ℕ) : String :=
  let digits := (padZero (scale + 1) n).toList
  if scale = 0 then String.ofList digits
  else
    String.ofList (digits.take (digits.length - scale)) ++ "." ++
      String.ofList (digits.drop (digits.length - scale))

/-- A decimal without its sign. -/
def parseUnsigned (cs : List Char) : Option ℚ :=
  match cutAt '.' cs with
  | none => (parseDigits cs).map fun n => (n : ℚ)
  | some (whole, fraction) =>
    if fraction = [] then none
    else if whole = [] then none
    else (parseDigits (whole ++ fraction)).map fun n => (n : ℚ) / 10 ^ fraction.length

/-- A decimal with an optional sign. -/
def parseSigned : List Char → Option ℚ
  | '-' :: cs => (parseUnsigned cs).map fun x => -x
  | cs => parseUnsigned cs

/-- A library that writes the digits and reads them. -/
def plain : Text where
  display x := (if x.coeff < 0 then "-" else "") ++ pointed x.scale x.coeff.natAbs
  parse s := parseSigned s.toList

section

variable {scale n : ℕ}

theorem length_padZero (width n : ℕ) : width ≤ (padZero width n).toList.length := by
  rw [toList_padZero, List.length_append, List.length_replicate]
  omega

theorem mem_pointed {c : Char} (hc : c ∈ (pointed scale n).toList) :
    c.isDigit = true ∨ c = '.' := by
  rw [pointed] at hc
  split at hc
  · rw [String.toList_ofList] at hc
    exact Or.inl (isDigit_of_mem_padZero hc)
  · simp only [String.toList_append, String.toList_ofList, List.mem_append] at hc
    rcases hc with (hc | hc) | hc
    · exact Or.inl (isDigit_of_mem_padZero (List.mem_of_mem_take hc))
    · exact Or.inr (by simpa using hc)
    · exact Or.inl (isDigit_of_mem_padZero (List.mem_of_mem_drop hc))

theorem point_notMem_digits {cs : List Char} (h : ∀ c ∈ cs, c.isDigit = true) : '.' ∉ cs := by
  intro hmem
  have := h '.' hmem
  revert this
  decide

theorem parseUnsigned_digits {cs : List Char} (hne : cs ≠ []) (h : ∀ c ∈ cs, c.isDigit = true) :
    parseUnsigned cs = some (Nat.ofDigitChars 10 cs 0 : ℚ) := by
  rw [parseUnsigned, cutAt_eq_none.mpr (point_notMem_digits h), parseDigits_eq hne h]
  rfl

theorem parseUnsigned_point {whole fraction : List Char} (hwhole : whole ≠ [])
    (hfraction : fraction ≠ []) (h : ∀ c ∈ whole ++ fraction, c.isDigit = true) :
    parseUnsigned (whole ++ '.' :: fraction) =
      some ((Nat.ofDigitChars 10 (whole ++ fraction) 0 : ℚ) / 10 ^ fraction.length) := by
  have hcut : cutAt '.' (whole ++ '.' :: fraction) = some (whole, fraction) :=
    cutAt_eq_some.mpr
      ⟨rfl, point_notMem_digits fun c hc => h c (List.mem_append_left _ hc)⟩
  rw [parseUnsigned, hcut]
  simp only [hfraction, hwhole, if_false]
  rw [parseDigits_eq (by simp [hwhole]) h]
  rfl

theorem parseUnsigned_pointed (scale n : ℕ) :
    parseUnsigned (pointed scale n).toList = some ((n : ℚ) / 10 ^ scale) := by
  have hlen := length_padZero (scale + 1) n
  have hdigits : ∀ c ∈ (padZero (scale + 1) n).toList, c.isDigit = true :=
    fun c => isDigit_of_mem_padZero
  rw [pointed]
  by_cases hscale : scale = 0
  · subst hscale
    rw [if_pos rfl, String.toList_ofList,
      parseUnsigned_digits (toList_padZero_ne_nil 1 n) hdigits, ofDigitChars_padZero]
    simp
  · rw [if_neg hscale]
    generalize hcs : (padZero (scale + 1) n).toList = cs at hlen hdigits
    have hlist : (String.ofList (cs.take (cs.length - scale)) ++ "." ++
        String.ofList (cs.drop (cs.length - scale))).toList =
          cs.take (cs.length - scale) ++ '.' :: cs.drop (cs.length - scale) := by
      simp
    have hwhole : cs.take (cs.length - scale) ≠ [] := by
      rw [← List.length_pos_iff, List.length_take]
      omega
    have hfraction : (cs.drop (cs.length - scale)).length = scale := by
      rw [List.length_drop]
      omega
    have hnonempty : cs.drop (cs.length - scale) ≠ [] := by
      rw [← List.length_pos_iff, hfraction]
      omega
    have hvalue : Nat.ofDigitChars 10 cs 0 = n := hcs ▸ ofDigitChars_padZero (scale + 1) n
    rw [hlist, parseUnsigned_point hwhole hnonempty (by rwa [List.take_append_drop]),
      List.take_append_drop, hfraction, hvalue]

theorem parseUnsigned_whole (h : '.' ∉ (pointed scale n).toList) :
    parseUnsigned ((pointed scale n).toList ++ ['.', '0', '0']) = some ((n : ℚ) / 10 ^ scale) := by
  by_cases hscale : scale = 0
  · subst hscale
    have hdigits : ∀ c ∈ (padZero 1 n).toList, c.isDigit = true :=
      fun c => isDigit_of_mem_padZero
    have hlist : (pointed 0 n).toList = (padZero 1 n).toList := by
      simp [pointed]
    have hzeros : Nat.ofDigitChars 10 ['0', '0'] n = 100 * n :=
      Nat.ofDigitChars_replicate_zero (n := 2)
    rw [hlist, parseUnsigned_point (toList_padZero_ne_nil 1 n) (by simp),
      Nat.ofDigitChars_append, ofDigitChars_padZero, hzeros]
    · simp
      ring
    · intro c hc
      rcases List.mem_append.mp hc with hc | hc
      · exact hdigits c hc
      · have hzero : c = '0' := by simpa using hc
        exact hzero ▸ rfl
  · refine absurd ?_ h
    rw [pointed, if_neg hscale]
    simp

end

theorem pointed_head {scale n : ℕ} {cs rest : List Char} :
    (pointed scale n).toList ++ rest ≠ '-' :: cs := by
  intro h
  cases hlist : (pointed scale n).toList with
  | nil =>
    have hread := parseUnsigned_pointed scale n
    rw [hlist] at hread
    cases hread
  | cons c ds =>
    rw [hlist, List.cons_append, List.cons.injEq] at h
    have hc : c ∈ (pointed scale n).toList := by simp [hlist]
    rcases mem_pointed hc with hdigit | hpoint
    · rw [h.1] at hdigit
      cases hdigit
    · rw [h.1] at hpoint
      cases hpoint

theorem plain_parse (x : Scaled) (rest : String)
    (h : parseUnsigned ((pointed x.scale x.coeff.natAbs).toList ++ rest.toList) =
      some ((x.coeff.natAbs : ℚ) / 10 ^ x.scale)) :
    plain.parse (plain.display x ++ rest) = some x.value := by
  by_cases hneg : x.coeff < 0
  · have hlist : (plain.display x ++ rest).toList =
        '-' :: ((pointed x.scale x.coeff.natAbs).toList ++ rest.toList) := by
      simp [plain, hneg]
    have habs : (x.coeff.natAbs : ℚ) = -x.coeff := by
      rw [Nat.cast_natAbs, abs_of_neg hneg]
      push_cast
      rfl
    show parseSigned (plain.display x ++ rest).toList = _
    rw [hlist, parseSigned, h, habs, Option.map_some, neg_div, neg_neg]
    rfl
  · have hlist : (plain.display x ++ rest).toList =
        (pointed x.scale x.coeff.natAbs).toList ++ rest.toList := by
      simp [plain, hneg]
    have habs : (x.coeff.natAbs : ℚ) = x.coeff := by
      rw [Nat.cast_natAbs, abs_of_nonneg (not_lt.mp hneg)]
    show parseSigned (plain.display x ++ rest).toList = _
    rw [hlist, parseSigned.eq_2 _ fun cs => pointed_head, h, habs]
    rfl

theorem plain_lawful : plain.Lawful where
  chars x c hc := by
    simp only [plain, String.toList_append, List.mem_append] at hc
    rcases hc with hc | hc
    · split at hc <;> simp at hc
      exact Or.inr (Or.inl hc)
    · exact (mem_pointed hc).imp_right Or.inr
  parse_display x := by
    have hread := plain_parse x "" (by simpa using parseUnsigned_pointed x.scale x.coeff.natAbs)
    simpa using hread
  parse_whole x h := by
    refine plain_parse x ".00" (parseUnsigned_whole fun hmem => h ?_)
    simp only [plain, String.toList_append, List.mem_append]
    exact Or.inr hmem
  parse_empty := by
    simp [plain, parseSigned, parseUnsigned, cutAt, parseDigits]

end Decimal
