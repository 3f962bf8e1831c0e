import Mathlib.Data.Int.ConditionallyCompleteOrder
import Mathlib.Data.Prod.Lex
import Mathlib.Order.Basic
import Mathlib.Order.Lattice
import Mathlib.Tactic.IntervalCases
import Mathlib.Tactic.Linarith
import Mathlib.Tactic.Ring
import OpenAccounting.Lib.RustStr

/-!
# Calendar dates

`Calendar.NaiveDate` is a date of the proleptic Gregorian calendar in the range
of years a `chrono::NaiveDate` has.  A value carries the proof that its month and
day exist, so `fromYmdOpt` is the only way in and no later proof asks again.
Dates are ordered by year, then month, then day.
-/

namespace Calendar

/-- Leap years of the Gregorian calendar. -/
def isLeap (year : ℤ) : Bool :=
  year % 4 == 0 && (year % 100 != 0 || year % 400 == 0)

/-- The number of days of a month, counted from `1`. -/
def daysInMonth (year : ℤ) (month : ℕ) : ℕ :=
  if month = 2 then (if isLeap year then 29 else 28)
  else if month = 4 ∨ month = 6 ∨ month = 9 ∨ month = 11 then 30
  else 31

theorem daysInMonth_le (year : ℤ) (month : ℕ) : daysInMonth year month ≤ 31 := by
  rw [daysInMonth]
  split_ifs <;> decide

/-- The days of a year before its month `m + 1`. -/
def daysBefore (year : ℤ) : ℕ → ℕ
  | 0 => 0
  | m + 1 => daysBefore year m + daysInMonth year (m + 1)

/-- The days before a year, from the beginning of the year `1` on. -/
def yearStart (year : ℤ) : ℤ :=
  365 * (year - 1) + (year - 1) / 4 - (year - 1) / 100 + (year - 1) / 400

theorem daysBefore_mono (year : ℤ) {m n : ℕ} (h : m ≤ n) :
    daysBefore year m ≤ daysBefore year n := by
  induction n, h using Nat.le_induction with
  | base => exact le_rfl
  | succ n _ ih => exact ih.trans (Nat.le_add_right _ _)

theorem yearStart_succ (year : ℤ) : yearStart (year + 1) = yearStart year + daysBefore year 12 := by
  have hdays : (daysBefore year 12 : ℤ) = if isLeap year then 366 else 365 := by
    simp only [daysBefore, daysInMonth]
    cases isLeap year <;> rfl
  rw [hdays, yearStart, yearStart]
  cases hleap : isLeap year with
  | true =>
    simp only [isLeap, Bool.and_eq_true, Bool.or_eq_true, beq_iff_eq, bne_iff_ne] at hleap
    simp only [if_true]
    omega
  | false =>
    simp only [isLeap, Bool.and_eq_false_iff, Bool.or_eq_false_iff, beq_eq_false_iff_ne,
      bne_eq_false_iff_eq] at hleap
    simp only [Bool.false_eq_true, if_false]
    omega

theorem yearStart_mono {a b : ℤ} (h : a ≤ b) : yearStart a ≤ yearStart b := by
  unfold yearStart
  omega

/-- The first year a date may have. -/
def minYear : ℤ := -262143

/-- The last year a date may have. -/
def maxYear : ℤ := 262142

/-- A calendar date. -/
structure NaiveDate where
  /-- The astronomical year. -/
  year : ℤ
  /-- The month, `1` to `12`. -/
  month : ℕ
  /-- The day of the month. -/
  day : ℕ
  year_range : minYear ≤ year ∧ year ≤ maxYear
  month_range : 1 ≤ month ∧ month ≤ 12
  day_range : 1 ≤ day ∧ day ≤ daysInMonth year month
deriving DecidableEq

namespace NaiveDate

/-- The date with the given year, month and day, if there is one. -/
def fromYmdOpt (year : ℤ) (month day : ℕ) : Option NaiveDate :=
  if h : (minYear ≤ year ∧ year ≤ maxYear) ∧ (1 ≤ month ∧ month ≤ 12) ∧
      (1 ≤ day ∧ day ≤ daysInMonth year month) then
    some ⟨year, month, day, h.1, h.2.1, h.2.2⟩
  else none

/-- `NaiveDate::default`. -/
instance : Inhabited NaiveDate := ⟨⟨1970, 1, 1, by decide, by decide, by decide⟩⟩

/-- The components in the order of comparison. -/
def key (d : NaiveDate) : ℤ ×ₗ ℕ ×ₗ ℕ := toLex (d.year, toLex (d.month, d.day))

theorem key_injective : Function.Injective key := by
  intro a b h
  cases a
  cases b
  simp only [key, toLex_inj, Prod.mk.injEq] at h
  obtain ⟨rfl, rfl, rfl⟩ := h
  rfl

instance : LinearOrder NaiveDate := LinearOrder.lift' key key_injective

variable {a b d d' : NaiveDate} {months : ℕ}

theorem lt_iff :
    a < b ↔ a.year < b.year ∨ a.year = b.year ∧
      (a.month < b.month ∨ a.month = b.month ∧ a.day < b.day) := by
  show key a < key b ↔ _
  simp only [key, Prod.Lex.toLex_lt_toLex]

theorem fromYmdOpt_eq_some {year : ℤ} {month day : ℕ} :
    fromYmdOpt year month day = some d ↔ d.year = year ∧ d.month = month ∧ d.day = day := by
  unfold fromYmdOpt
  constructor
  · intro h
    split at h
    · cases h
      exact ⟨rfl, rfl, rfl⟩
    · cases h
  · rintro ⟨rfl, rfl, rfl⟩
    rw [dif_pos ⟨d.year_range, d.month_range, d.day_range⟩]

/-- The first day of a date's year. -/
def firstOfYear (d : NaiveDate) : NaiveDate where
  year := d.year
  month := 1
  day := 1
  year_range := d.year_range
  month_range := by decide
  day_range := by
    have : daysInMonth d.year 1 = 31 := by simp [daysInMonth]
    omega

/-- The next day, if it is in range. -/
def succOpt (d : NaiveDate) : Option NaiveDate :=
  if d.day < daysInMonth d.year d.month then fromYmdOpt d.year d.month (d.day + 1)
  else if d.month < 12 then fromYmdOpt d.year (d.month + 1) 1
  else fromYmdOpt (d.year + 1) 1 1

/-- The date `n` days later, if it is in range. -/
def addDays : ℕ → NaiveDate → Option NaiveDate
  | 0, d => some d
  | n + 1, d => d.succOpt.bind (addDays n)

theorem lt_of_succOpt (h : d.succOpt = some d') : d < d' := by
  rw [lt_iff]
  unfold succOpt at h
  split at h
  · obtain ⟨hyear, hmonth, hday⟩ := fromYmdOpt_eq_some.mp h
    omega
  · split at h
    · obtain ⟨hyear, hmonth, hday⟩ := fromYmdOpt_eq_some.mp h
      omega
    · obtain ⟨hyear, hmonth, hday⟩ := fromYmdOpt_eq_some.mp h
      omega

theorem le_of_addDays : ∀ {n : ℕ} {d d' : NaiveDate}, addDays n d = some d' → d ≤ d'
  | 0, d, d', h => by
    cases h
    exact le_rfl
  | n + 1, d, d', h => by
    rw [addDays, Option.bind_eq_some_iff] at h
    obtain ⟨next, hnext, h⟩ := h
    exact (lt_of_succOpt hnext).le.trans (le_of_addDays h)

/-- The months since the beginning of the year `0`. -/
def monthIndex (d : NaiveDate) : ℤ := d.year * 12 + ((d.month : ℤ) - 1)

theorem lt_of_monthIndex (h : a.monthIndex < b.monthIndex) : a < b := by
  have ha := a.month_range
  have hb := b.month_range
  unfold monthIndex at h
  rw [lt_iff]
  omega

/-- `checked_add_months`: the last day of the month, where that is shorter. -/
def checkedAddMonths (d : NaiveDate) (months : ℕ) : Option NaiveDate :=
  let year := (d.monthIndex + months) / 12
  let month := ((d.monthIndex + months) % 12).toNat + 1
  fromYmdOpt year month (min d.day (daysInMonth year month))

theorem monthIndex_of_checkedAddMonths (h : d.checkedAddMonths months = some d') :
    d'.monthIndex = d.monthIndex + months := by
  obtain ⟨hyear, hmonth, -⟩ := fromYmdOpt_eq_some.mp h
  rw [monthIndex, hyear, hmonth]
  omega

theorem checkedAddMonths_of_day (hindex : d'.monthIndex = d.monthIndex + months)
    (hday : d'.day = d.day) :
    d.checkedAddMonths months = some d' := by
  have hrange := d'.month_range
  have hyear : d'.year = (d.monthIndex + months) / 12 := by
    rw [← hindex, monthIndex]
    omega
  have hmonth : d'.month = ((d.monthIndex + months) % 12).toNat + 1 := by
    rw [← hindex, monthIndex]
    omega
  refine fromYmdOpt_eq_some.mpr ⟨hyear, hmonth, ?_⟩
  rw [← hyear, ← hmonth, ← hday]
  exact (min_eq_left d'.day_range.2).symm

/-- The day before, if it is in range. -/
def predOpt (d : NaiveDate) : Option NaiveDate :=
  if 1 < d.day then fromYmdOpt d.year d.month (d.day - 1)
  else if 1 < d.month then fromYmdOpt d.year (d.month - 1) (daysInMonth d.year (d.month - 1))
  else fromYmdOpt (d.year - 1) 12 31

/-- The date `n` days earlier, if it is in range. -/
def subDays : ℕ → NaiveDate → Option NaiveDate
  | 0, d => some d
  | n + 1, d => d.predOpt.bind (subDays n)

/-- The same month and day in another year, if there is such a date. -/
def withYear (d : NaiveDate) (year : ℤ) : Option NaiveDate := fromYmdOpt year d.month d.day

/-- The text of a date: years outside `0` to `9999` are written with their sign. -/
def display (d : NaiveDate) : String :=
  let sign := if d.year < 0 then "-" else if 9999 < d.year then "+" else ""
  sign ++ RustStr.padZero 4 d.year.natAbs ++ "-" ++ RustStr.padZero 2 d.month ++ "-" ++
    RustStr.padZero 2 d.day

/-! ### Days between dates -/

/-- `num_days_from_ce`: 1 January of the year `1` is the first day. -/
def dayNumber (d : NaiveDate) : ℤ := yearStart d.year + daysBefore d.year (d.month - 1) + d.day

theorem daysBefore_month (d : NaiveDate) :
    daysBefore d.year d.month = daysBefore d.year (d.month - 1) + daysInMonth d.year d.month := by
  obtain ⟨m, hm⟩ := Nat.exists_eq_succ_of_ne_zero (Nat.one_le_iff_ne_zero.mp d.month_range.1)
  rw [hm, Nat.succ_eq_add_one, daysBefore, Nat.add_sub_cancel]

theorem dayNumber_of_succOpt (h : d.succOpt = some d') : d'.dayNumber = d.dayNumber + 1 := by
  have hbefore := d.daysBefore_month
  have hday := d.day_range
  have hmonth := d.month_range
  unfold succOpt at h
  split at h
  · obtain ⟨hy, hm, hd⟩ := fromYmdOpt_eq_some.mp h
    rw [dayNumber, dayNumber, hy, hm, hd]
    push_cast
    ring
  · next hend =>
      split at h
      · obtain ⟨hy, hm, hd⟩ := fromYmdOpt_eq_some.mp h
        rw [dayNumber, dayNumber, hy, hm, hd, Nat.add_sub_cancel, hbefore]
        push_cast
        omega
      · obtain ⟨hy, hm, hd⟩ := fromYmdOpt_eq_some.mp h
        have hlast : d.month = 12 := by omega
        have hyear := yearStart_succ d.year
        have htotal : daysBefore d.year 12 = daysBefore d.year 11 + daysInMonth d.year 12 := rfl
        rw [hlast] at hend hday
        rw [dayNumber, dayNumber, hy, hm, hd, hlast, Nat.sub_self, daysBefore]
        push_cast
        omega

theorem dayNumber_of_addDays : ∀ {n : ℕ} {d d' : NaiveDate}, addDays n d = some d' →
    d'.dayNumber = d.dayNumber + n
  | 0, d, d', h => by
    cases h
    simp
  | n + 1, d, d', h => by
    rw [addDays, Option.bind_eq_some_iff] at h
    obtain ⟨next, hnext, h⟩ := h
    rw [dayNumber_of_addDays h, dayNumber_of_succOpt hnext]
    push_cast
    ring

theorem ordinal_le (d : NaiveDate) {m : ℕ} (h : d.month ≤ m) :
    daysBefore d.year (d.month - 1) + d.day ≤ daysBefore d.year m := by
  have hbefore := d.daysBefore_month
  have hmono := daysBefore_mono d.year h
  have hday := d.day_range
  omega

theorem dayNumber_strictMono : StrictMono dayNumber := by
  intro a b h
  have hday := b.day_range
  have hmonth := a.month_range
  rcases lt_iff.mp h with hyear | ⟨hyear, hmonths | ⟨hmonths, hdays⟩⟩
  · have hend := a.ordinal_le hmonth.2
    have hstart := yearStart_mono (Int.add_one_le_iff.mpr hyear)
    rw [yearStart_succ] at hstart
    unfold dayNumber
    omega
  · have hend := a.ordinal_le (Nat.le_sub_one_of_lt hmonths)
    unfold dayNumber
    rw [← hyear]
    omega
  · unfold dayNumber
    rw [← hyear, ← hmonths]
    omega

theorem exists_fromYmdOpt {year : ℤ} {month day : ℕ} (hyear : minYear ≤ year ∧ year ≤ maxYear)
    (hmonth : 1 ≤ month ∧ month ≤ 12) (hday : 1 ≤ day ∧ day ≤ daysInMonth year month) :
    ∃ d, fromYmdOpt year month day = some d :=
  ⟨_, dif_pos ⟨hyear, hmonth, hday⟩⟩

theorem one_le_daysInMonth (year : ℤ) (month : ℕ) : 1 ≤ daysInMonth year month := by
  unfold daysInMonth
  split_ifs <;> decide

theorem exists_succOpt (h : d.year < maxYear) :
    ∃ d', d.succOpt = some d' ∧ d'.year ≤ d.year + 1 ∧ d'.monthIndex ≤ d.monthIndex + 1 := by
  have hyear := d.year_range
  have hmonth := d.month_range
  have hnext : ∃ d', d.succOpt = some d' := by
    unfold succOpt
    split
    · next hday => exact exists_fromYmdOpt hyear hmonth ⟨by omega, hday⟩
    · split
      · exact exists_fromYmdOpt hyear (by omega) ⟨le_rfl, one_le_daysInMonth _ _⟩
      · exact exists_fromYmdOpt (by omega) (by decide) ⟨le_rfl, one_le_daysInMonth _ _⟩
  obtain ⟨d', hd'⟩ := hnext
  refine ⟨d', hd', ?_⟩
  unfold succOpt at hd'
  unfold monthIndex
  split at hd'
  · obtain ⟨hy, hm, -⟩ := fromYmdOpt_eq_some.mp hd'
    omega
  · split at hd'
    · obtain ⟨hy, hm, -⟩ := fromYmdOpt_eq_some.mp hd'
      omega
    · obtain ⟨hy, hm, -⟩ := fromYmdOpt_eq_some.mp hd'
      omega

theorem exists_addDays : ∀ {n : ℕ} {d : NaiveDate}, d.year + n ≤ maxYear →
    ∃ d', addDays n d = some d' ∧ d'.year ≤ d.year + n ∧ d'.monthIndex ≤ d.monthIndex + n
  | 0, d, _ => ⟨d, rfl, by simp, by simp⟩
  | n + 1, d, h => by
    push_cast at h
    obtain ⟨next, hnext, hyear, hindex⟩ := exists_succOpt (d := d) (by omega)
    obtain ⟨d', hd', hyear', hindex'⟩ := exists_addDays (n := n) (d := next) (by omega)
    refine ⟨d', by rw [addDays, hnext]; exact hd', ?_, ?_⟩
    · push_cast
      omega
    · push_cast
      omega

/-! ### Months between dates -/

/-- The number of days of the month with the index. -/
def monthLength (index : ℤ) : ℕ := daysInMonth (index / 12) ((index % 12).toNat + 1)

def monthStart (index : ℤ) : ℤ := yearStart (index / 12) + daysBefore (index / 12) (index % 12).toNat

theorem monthLength_bounds (index : ℤ) : 28 ≤ monthLength index ∧ monthLength index ≤ 31 := by
  unfold monthLength daysInMonth
  split_ifs <;> decide

theorem monthStart_succ (index : ℤ) :
    monthStart (index + 1) = monthStart index + monthLength index := by
  unfold monthStart monthLength
  by_cases hlast : index % 12 = 11
  · have hyear : (index + 1) / 12 = index / 12 + 1 := by omega
    have hmonth : (index + 1) % 12 = 0 := by omega
    have htotal : daysBefore (index / 12) 12 =
        daysBefore (index / 12) 11 + daysInMonth (index / 12) 12 := rfl
    have helf : (11 : ℤ).toNat = 11 := rfl
    rw [hyear, hmonth, hlast, yearStart_succ, htotal, helf, Int.toNat_zero, daysBefore]
    push_cast
    ring
  · have hyear : (index + 1) / 12 = index / 12 := by omega
    have hmonth : ((index + 1) % 12).toNat = (index % 12).toNat + 1 := by omega
    rw [hyear, hmonth, daysBefore]
    push_cast
    ring

theorem monthStart_add (index : ℤ) (n : ℕ) :
    monthStart index + 28 * n ≤ monthStart (index + n) ∧
      monthStart (index + n) ≤ monthStart index + 31 * n := by
  induction n with
  | zero => simp
  | succ n ih =>
    have hlength := monthLength_bounds (index + n)
    have hnext := monthStart_succ (index + n)
    rw [add_assoc] at hnext
    push_cast
    omega

theorem daysBefore_eq (year : ℤ) {m : ℕ} (h : m ≤ 12) :
    daysBefore year m = daysBefore 1 m + if isLeap year ∧ 2 ≤ m then 1 else 0 := by
  have hone : isLeap 1 = false := rfl
  cases hleap : isLeap year <;> interval_cases m <;> simp [daysBefore, daysInMonth, hleap, hone]

/-- From a month to the same month of the next year there are 366 days at most. -/
theorem monthStart_year (index : ℤ) : monthStart (index + 12) ≤ monthStart index + 366 := by
  have hyear : (index + 12) / 12 = index / 12 + 1 := by omega
  have hmonth : (index + 12) % 12 = index % 12 := by omega
  have hrest : (index % 12).toNat ≤ 12 := by omega
  have hboth : ¬ (isLeap (index / 12) = true ∧ isLeap (index / 12 + 1) = true) := by
    simp only [isLeap, Bool.and_eq_true, beq_iff_eq]
    omega
  have htotal : daysBefore 1 12 = 365 := rfl
  unfold monthStart
  rw [hyear, hmonth, yearStart_succ, daysBefore_eq (index / 12) le_rfl,
    daysBefore_eq (index / 12) hrest, daysBefore_eq (index / 12 + 1) hrest, htotal]
  push_cast
  rcases not_and_or.mp hboth with h | h
  · simp only [h, Bool.false_eq_true, false_and, if_false]
    split_ifs <;> omega
  · simp only [h, Bool.false_eq_true, false_and, if_false]
    split_ifs <;> omega

/-- The days of a date are those of the months before it and those of its own month. -/
theorem dayNumber_eq (d : NaiveDate) : d.dayNumber = monthStart d.monthIndex + d.day := by
  have hrange := d.month_range
  have hyear : d.monthIndex / 12 = d.year := by
    unfold monthIndex
    omega
  have hmonth : (d.monthIndex % 12).toNat = d.month - 1 := by
    unfold monthIndex
    omega
  rw [monthStart, hyear, hmonth, dayNumber]

theorem day_le_monthLength (d : NaiveDate) : d.day ≤ monthLength d.monthIndex := by
  have hrange := d.month_range
  have hyear : d.monthIndex / 12 = d.year := by
    unfold monthIndex
    omega
  have hmonth : (d.monthIndex % 12).toNat + 1 = d.month := by
    unfold monthIndex
    omega
  rw [monthLength, hyear, hmonth]
  exact d.day_range.2

theorem day_of_checkedAddMonths (h : d.checkedAddMonths months = some d') :
    d'.day = min d.day (monthLength d'.monthIndex) := by
  rw [monthIndex_of_checkedAddMonths h]
  exact (fromYmdOpt_eq_some.mp h).2.2

theorem monthIndex_le (h : a ≤ b) : a.monthIndex ≤ b.monthIndex :=
  not_lt.mp fun hlt => absurd h (not_le.mpr (lt_of_monthIndex hlt))

theorem checkedAddMonths_mono {a' b' : NaiveDate} (h : a ≤ b)
    (ha : a.checkedAddMonths months = some a') (hb : b.checkedAddMonths months = some b') :
    a' ≤ b' := by
  have ha' := monthIndex_of_checkedAddMonths ha
  have hb' := monthIndex_of_checkedAddMonths hb
  rcases (monthIndex_le h).lt_or_eq with hlt | heq
  · exact (lt_of_monthIndex (by omega)).le
  · have hdays := dayNumber_strictMono.le_iff_le.mpr h
    have hday := day_of_checkedAddMonths ha
    have hday' := day_of_checkedAddMonths hb
    rw [dayNumber_eq, dayNumber_eq, heq] at hdays
    rw [ha', heq] at hday
    rw [hb'] at hday'
    refine dayNumber_strictMono.le_iff_le.mp ?_
    rw [dayNumber_eq, dayNumber_eq, ha', hb', heq]
    omega

theorem dayNumber_of_checkedAddMonths (h : d.checkedAddMonths months = some d')
    (hpos : 0 < months) :
    d.dayNumber + 25 ≤ d'.dayNumber ∧ d'.dayNumber ≤ d.dayNumber + 31 * months ∧
      (months = 12 → d'.dayNumber ≤ d.dayNumber + 366) := by
  have hindex := monthIndex_of_checkedAddMonths h
  have hday := day_of_checkedAddMonths h
  have hbounds := monthStart_add d.monthIndex months
  have hlength := monthLength_bounds d'.monthIndex
  have hlength' := monthLength_bounds d.monthIndex
  have hown := d.day_le_monthLength
  have hyear := monthStart_year d.monthIndex
  rw [dayNumber_eq, dayNumber_eq, hindex] at *
  refine ⟨by omega, by omega, ?_⟩
  rintro rfl
  push_cast
  omega

/-! ### Reading a date back -/

/-- A year, a month and a day between dashes. -/
def readYmd (sign : ℤ) (cs : List Char) : Option NaiveDate := do
  let (year, rest) ← RustStr.cutAt '-' cs
  let (month, day) ← RustStr.cutAt '-' rest
  fromYmdOpt (sign * (← RustStr.parseDigits year)) (← RustStr.parseDigits month)
    (← RustStr.parseDigits day)

/-- A date in the form that `display` writes. -/
def parseYmd (s : String) : Option NaiveDate :=
  match s.toList with
  | '-' :: cs => readYmd (-1) cs
  | '+' :: cs => readYmd 1 cs
  | cs => readYmd 1 cs

/-- The text of a date after the sign. -/
def unsignedDisplay (d : NaiveDate) : List Char :=
  (RustStr.padZero 4 d.year.natAbs).toList ++ '-' :: ((RustStr.padZero 2 d.month).toList ++
    '-' :: (RustStr.padZero 2 d.day).toList)

theorem toList_display (d : NaiveDate) :
    d.display.toList =
      (if d.year < 0 then ['-'] else if 9999 < d.year then ['+'] else []) ++ d.unsignedDisplay := by
  simp only [display, unsignedDisplay, String.toList_append]
  split
  · simp
  · split <;> simp

theorem unsignedDisplay_eq_cons (d : NaiveDate) :
    ∃ c cs, d.unsignedDisplay = c :: cs ∧ c.isDigit = true := by
  obtain ⟨c, cs, hcs⟩ := List.exists_cons_of_ne_nil (RustStr.toList_padZero_ne_nil 4 d.year.natAbs)
  refine ⟨c, _, by rw [unsignedDisplay, hcs, List.cons_append], ?_⟩
  have hc : c ∈ (RustStr.padZero 4 d.year.natAbs).toList := hcs ▸ List.mem_cons_self
  exact RustStr.isDigit_of_mem_padZero hc

theorem mem_display {c : Char} (h : c ∈ d.display.toList) :
    c.isDigit = true ∨ c = '-' ∨ c = '+' := by
  rw [toList_display, List.mem_append, unsignedDisplay] at h
  simp only [List.mem_append, List.mem_cons] at h
  rcases h with h | h | rfl | h | rfl | h
  · split at h
    · exact Or.inr (Or.inl (List.mem_singleton.mp h))
    · split at h
      · exact Or.inr (Or.inr (List.mem_singleton.mp h))
      · cases h
  · exact Or.inl (RustStr.isDigit_of_mem_padZero h)
  · exact Or.inr (Or.inl rfl)
  · exact Or.inl (RustStr.isDigit_of_mem_padZero h)
  · exact Or.inr (Or.inl rfl)
  · exact Or.inl (RustStr.isDigit_of_mem_padZero h)

theorem display_ne_empty (d : NaiveDate) : d.display ≠ "" := by
  intro hempty
  obtain ⟨c, cs, hcs, -⟩ := d.unsignedDisplay_eq_cons
  have hlist := d.toList_display
  rw [hempty, hcs] at hlist
  simp at hlist

theorem dash_notMem_padZero (width n : ℕ) : '-' ∉ (RustStr.padZero width n).toList :=
  fun h => absurd (RustStr.isDigit_of_mem_padZero h) (by decide)

theorem parseDigits_padZero (width n : ℕ) :
    RustStr.parseDigits (RustStr.padZero width n).toList = some n := by
  rw [RustStr.parseDigits_eq (RustStr.toList_padZero_ne_nil width n)
    fun c => RustStr.isDigit_of_mem_padZero, RustStr.ofDigitChars_padZero]

theorem readYmd_unsignedDisplay {sign : ℤ} (h : sign * d.year.natAbs = d.year) :
    readYmd sign d.unsignedDisplay = some d := by
  have hyear : RustStr.cutAt '-' d.unsignedDisplay =
      some ((RustStr.padZero 4 d.year.natAbs).toList,
        (RustStr.padZero 2 d.month).toList ++ '-' :: (RustStr.padZero 2 d.day).toList) :=
    RustStr.cutAt_eq_some.mpr ⟨rfl, dash_notMem_padZero _ _⟩
  have hmonth : RustStr.cutAt '-' ((RustStr.padZero 2 d.month).toList ++
      '-' :: (RustStr.padZero 2 d.day).toList) =
        some ((RustStr.padZero 2 d.month).toList, (RustStr.padZero 2 d.day).toList) :=
    RustStr.cutAt_eq_some.mpr ⟨rfl, dash_notMem_padZero _ _⟩
  simp only [readYmd, hyear, hmonth, parseDigits_padZero, Option.bind_eq_bind, Option.bind_some, h]
  exact fromYmdOpt_eq_some.mpr ⟨rfl, rfl, rfl⟩

theorem parseYmd_display (d : NaiveDate) : parseYmd d.display = some d := by
  have hlist := toList_display d
  by_cases hneg : d.year < 0
  · rw [if_pos hneg] at hlist
    simp only [parseYmd, hlist, List.cons_append, List.nil_append]
    exact readYmd_unsignedDisplay (by omega)
  · rw [if_neg hneg] at hlist
    by_cases hbig : 9999 < d.year
    · rw [if_pos hbig] at hlist
      simp only [parseYmd, hlist, List.cons_append, List.nil_append]
      exact readYmd_unsignedDisplay (by omega)
    · rw [if_neg hbig, List.nil_append] at hlist
      obtain ⟨c, cs, hcs, hdigit⟩ := unsignedDisplay_eq_cons d
      have hread : readYmd 1 d.unsignedDisplay = some d := readYmd_unsignedDisplay (by omega)
      rw [hcs] at hlist hread
      rw [parseYmd, hlist]
      split
      · next hsign =>
          rw [(List.cons.inj hsign).1] at hdigit
          cases hdigit
      · next hsign =>
          rw [(List.cons.inj hsign).1] at hdigit
          cases hdigit
      · exact hread

theorem display_injective : Function.Injective display := by
  intro d d' h
  refine Option.some_injective _ ?_
  rw [← parseYmd_display, h, parseYmd_display]

end NaiveDate

/-- An instant in whole microseconds since the Unix epoch, the precision of a
`TIMESTAMPTZ` column. -/
structure DateTime where
  micros : ℤ
  micros_range : -2 ^ 63 ≤ micros ∧ micros < 2 ^ 63 := by decide
deriving DecidableEq

namespace DateTime

theorem micros_injective : Function.Injective micros := by
  intro a b h
  cases a
  cases b
  simp only at h
  subst h
  rfl

instance : LinearOrder DateTime := LinearOrder.lift' micros micros_injective

theorem epoch_range : -2 ^ 63 ≤ (0 : ℤ) ∧ (0 : ℤ) < 2 ^ 63 := by decide

end DateTime

/-- A point in time to the second, by its date and the seconds since midnight. -/
structure UtcTime where
  date : NaiveDate
  second : ℕ
  second_range : second < 86400 := by decide
deriving DecidableEq

theorem UtcTime.midnight_range : 0 < 86400 := by decide

/-- The format `%Y-%m-%dT%H:%M:%SZ`. -/
def UtcTime.display (t : UtcTime) : String :=
  t.date.display ++ "T" ++ RustStr.padZero 2 (t.second / 3600) ++ ":" ++
    RustStr.padZero 2 (t.second / 60 % 60) ++ ":" ++ RustStr.padZero 2 (t.second % 60) ++ "Z"

end Calendar
