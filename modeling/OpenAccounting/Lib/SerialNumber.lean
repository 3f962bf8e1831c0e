import OpenAccounting.Lib.RustStr
import Mathlib.Data.List.DropRight

/-!
# Serial numbers

A serial number is the name of a series, a dash, and a counter in decimal, padded with zeros on the
left.  `SerialNumber.serial` reads the counter back: the digits after the last dash, if there is
nothing else after it.  A counter may have more digits than the padding asks for, so two numbers of
one series are equal exactly when their counters are.
-/

namespace SerialNumber

open RustStr (toList_padZero isDigit_of_mem_padZero toList_padZero_ne_nil ofDigitChars_padZero)

/-- The number of the series with the counter `n`. -/
def label (width : ℕ) (series : ℤ) (n : ℕ) : String :=
  toString series ++ "-" ++ RustStr.padZero width n

/-- The counter at the end, the match of `-(\d+)$`. -/
def serial (s : String) : Option ℕ :=
  if s.toList.rtakeWhile Char.isDigit ≠ [] ∧
      (s.toList.rdropWhile Char.isDigit).getLast? = some '-' then
    some (Nat.ofDigitChars 10 (s.toList.rtakeWhile Char.isDigit) 0)
  else none

/-! ## Reading a number back -/

section Cut

variable {front digits : List Char} (hdigits : ∀ c ∈ digits, c.isDigit = true)
include hdigits

theorem rtakeWhile_isDigit : (front ++ '-' :: digits).rtakeWhile Char.isDigit = digits := by
  rw [List.rtakeWhile, List.reverse_append, List.reverse_cons, List.append_assoc,
    List.takeWhile_append_of_pos (by simpa using hdigits)]
  simp

theorem rdropWhile_isDigit :
    (front ++ '-' :: digits).rdropWhile Char.isDigit = front ++ ['-'] := by
  rw [List.rdropWhile, List.reverse_append, List.reverse_cons, List.append_assoc,
    List.dropWhile_append_of_pos (by simpa using hdigits)]
  simp

end Cut

theorem serial_append_padZero (front : String) (width n : ℕ) :
    serial (front ++ "-" ++ RustStr.padZero width n) = some n := by
  have hlist : (front ++ "-" ++ RustStr.padZero width n).toList =
      front.toList ++ '-' :: (RustStr.padZero width n).toList := by simp
  have hdigits : ∀ c ∈ (RustStr.padZero width n).toList, c.isDigit := fun _ =>
    isDigit_of_mem_padZero
  rw [serial, hlist, rtakeWhile_isDigit hdigits, rdropWhile_isDigit hdigits,
    if_pos ⟨toList_padZero_ne_nil width n, by simp⟩, ofDigitChars_padZero]

@[simp] theorem serial_label (width : ℕ) (series : ℤ) (n : ℕ) :
    serial (label width series n) = some n :=
  serial_append_padZero (toString series) width n

theorem label_inj {width : ℕ} {series : ℤ} {m n : ℕ} :
    label width series m = label width series n ↔ m = n := by
  constructor
  · intro h
    have hserial := congrArg serial h
    rw [serial_label, serial_label] at hserial
    exact Option.some.inj hserial
  · rintro rfl
    rfl

/-! ## Series -/

/-- What the numbers of the series begin with. -/
def start (series : ℤ) : String := toString series ++ "-"

theorem label_eq (width : ℕ) (series : ℤ) (n : ℕ) :
    label width series n = start series ++ RustStr.padZero width n := rfl

theorem toList_toString_eq_cons (n : ℤ) :
    ∃ c cs, (toString n).toList = c :: cs ∧ '-' ∉ cs := by
  have hdash : '-' ∉ Nat.toDigits 10 n.natAbs := by
    intro hmem
    have := RustStr.isDigit_of_mem_toDigits hmem
    exact absurd this (by decide)
  have hlist := RustStr.toList_toString n
  split at hlist
  · exact ⟨'-', Nat.toDigits 10 n.natAbs, hlist, hdash⟩
  · cases hdigits : Nat.toDigits 10 n.natAbs with
    | nil => exact absurd hdigits Nat.toDigits_ne_nil
    | cons c cs =>
      rw [hdigits] at hlist hdash
      exact ⟨c, cs, hlist, fun hmem => hdash (List.mem_cons_of_mem c hmem)⟩

theorem start_unique {series series' : ℤ} {rest rest' : String}
    (h : start series ++ rest = start series' ++ rest') : series = series' ∧ rest = rest' := by
  obtain ⟨c, cs, hcs, hdash⟩ := toList_toString_eq_cons series
  obtain ⟨c', cs', hcs', hdash'⟩ := toList_toString_eq_cons series'
  have hlist := congrArg String.toList h
  simp only [start, String.toList_append, hcs, hcs'] at hlist
  obtain ⟨hc, hlist⟩ := List.cons.inj hlist
  have hcut : cs ++ '-' :: rest.toList = cs' ++ '-' :: rest'.toList := by
    simpa using hlist
  -- Both sides are cut at their first dash.
  have hfirst : RustStr.cutAt '-' (cs ++ '-' :: rest.toList) = some (cs, rest.toList) :=
    RustStr.cutAt_eq_some.mpr ⟨rfl, hdash⟩
  have hsecond := RustStr.cutAt_eq_some.mpr ⟨hcut, hdash'⟩
  rw [hfirst, Option.some.injEq, Prod.mk.injEq] at hsecond
  obtain ⟨hseries, hrest⟩ := hsecond
  have hname : toString series = toString series' := by
    apply String.toList_inj.mp
    rw [hcs, hcs', hc, hseries]
  have hread := congrArg RustStr.parseInt hname
  rw [RustStr.parseInt_toString, RustStr.parseInt_toString] at hread
  exact ⟨Option.some.inj hread, String.toList_inj.mp hrest⟩

theorem stripPrefix_label (width : ℕ) (series : ℤ) (n : ℕ) :
    RustStr.stripPrefix (start series) (label width series n) = some (RustStr.padZero width n) :=
  RustStr.stripPrefix_eq_some.mpr (label_eq width series n)

theorem stripPrefix_label_eq_some {width : ℕ} {series series' : ℤ} {n : ℕ} {rest : String}
    (h : RustStr.stripPrefix (start series') (label width series n) = some rest) :
    series' = series ∧ rest = RustStr.padZero width n := by
  rw [RustStr.stripPrefix_eq_some, label_eq] at h
  obtain ⟨hseries, hrest⟩ := start_unique h
  exact ⟨hseries.symm, hrest.symm⟩

end SerialNumber
