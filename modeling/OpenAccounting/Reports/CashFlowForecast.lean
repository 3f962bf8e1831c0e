import OpenAccounting.Lib.Calendar
import OpenAccounting.Lib.Decimal
import OpenAccounting.Lib.Relational

/-!
# Cash-flow forecast

`reports/cash_flow_forecast.rs`: the occurrences of recurring templates up to a horizon, and the
balance of each day.  The module has a month arithmetic of its own, with loops that carry a month
into its year.  Date arithmetic that leaves the range of dates panics, which is `none` here.
-/

namespace OpenAccounting.CashFlowForecast

open Calendar Relational

/-! ## Dates -/

/-- `while month > 12`. -/
def carryUp (year month : ℤ) : ℤ × ℤ :=
  if 12 < month then carryUp (year + 1) (month - 12) else (year, month)
termination_by month.toNat

/-- `while month < 1`. -/
def carryDown (year month : ℤ) : ℤ × ℤ :=
  if month < 1 then carryDown (year - 1) (month + 12) else (year, month)
termination_by (1 - month).toNat

/-- `last_day_of_month`: the day before the first one of the next month. -/
def lastDayOfMonth (year : ℤ) (month : ℕ) : Option ℕ :=
  let (nextYear, nextMonth) := if month = 12 then (year + 1, 1) else (year, month + 1)
  ((NaiveDate.fromYmdOpt nextYear nextMonth 1).bind NaiveDate.predOpt).map NaiveDate.day

def nextMonthN (d : NaiveDate) (n : ℤ) : Option NaiveDate :=
  let (year, month) := carryUp d.year (d.month + n)
  let (year, month) := carryDown year month
  (lastDayOfMonth year month.toNat).map fun lastDay =>
    (NaiveDate.fromYmdOpt year month.toNat (min d.day lastDay)).getD d

def nextMonth (d : NaiveDate) : Option NaiveDate := nextMonthN d 1

def nextYear (d : NaiveDate) : Option NaiveDate := nextMonthN d 12

/-- One turn of the loop of `advance`. -/
def advanceOnce (d : NaiveDate) (frequency : String) : Option NaiveDate :=
  if frequency = "weekly" then d.addDays 7
  else if frequency = "biweekly" then d.addDays 14
  else if frequency = "monthly" then nextMonth d
  else if frequency = "quarterly" then nextMonthN d 3
  else if frequency = "yearly" then nextYear d
  else some d

def advance (date : NaiveDate) (frequency : String) : ℕ → Option NaiveDate
  | 0 => some date
  | n + 1 => (advanceOnce date frequency).bind fun d => advance d frequency n

def IsRecognisedFrequency (f : String) : Prop :=
  f ∈ ["weekly", "biweekly", "monthly", "quarterly", "yearly"]

instance : DecidablePred IsRecognisedFrequency := fun _ => by
  unfold IsRecognisedFrequency
  infer_instance

/-! ## Entries -/

structure TemplateRow where
  description : String
  payee : Option String := none
  frequency : String
  nextDate : NaiveDate
  amount : ℚ
  cashDirection : String

structure ForecastEntry where
  date : NaiveDate
  description : String
  payee : Option String
  amount : ℚ
deriving DecidableEq

def signed (t : TemplateRow) : ℚ :=
  if t.cashDirection = "DEBIT" then t.amount
  else if t.cashDirection = "CREDIT" then -t.amount
  else t.amount

def entryOn (t : TemplateRow) (date : NaiveDate) : ForecastEntry where
  date := date
  description := t.description
  payee := t.payee
  amount := signed t

/-- The loop over the dates of a template, with the turns that the guard still allows. -/
def entriesFrom (t : TemplateRow) (today horizon : NaiveDate) :
    ℕ → NaiveDate → Option (List ForecastEntry)
  | 0, _ => some []
  | guard + 1, d =>
    if d ≤ horizon then do
      let next ← advance d t.frequency 1
      let rest ← entriesFrom t today horizon guard next
      some (if today ≤ d then entryOn t d :: rest else rest)
    else some []

def templateEntries (t : TemplateRow) (today horizon : NaiveDate) : Option (List ForecastEntry) :=
  if IsRecognisedFrequency t.frequency then entriesFrom t today horizon 400 t.nextDate
  else some []

def materializeForecast (templates : List TemplateRow) (today : NaiveDate) (horizonDays : ℕ) :
    Option (List ForecastEntry) := do
  let horizon ← today.addDays horizonDays
  let out ← templates.mapM fun t => templateEntries t today horizon
  some (orderBy ForecastEntry.date out.flatten)

/-! ## Points -/

structure ForecastPoint where
  date : NaiveDate
  balance : ℚ
deriving DecidableEq

section Project

variable (d : Decimal.Arith)

/-- The entries of a day are added to the balance. -/
def applyDay (day : NaiveDate) : ℚ → List ForecastEntry → ℚ × List ForecastEntry
  | balance, [] => (balance, [])
  | balance, e :: es =>
    if e.date = day then applyDay day (d.add balance e.amount) es else (balance, e :: es)

/-- The loop over the days, with the offset of the next one. -/
def projectFrom (today : NaiveDate) :
    ℕ → ℕ → ℚ → List ForecastEntry → Option (List ForecastPoint)
  | 0, _, _, _ => some []
  | n + 1, offset, balance, entries => do
    let day ← today.addDays offset
    let (balance, entries) := applyDay d day balance entries
    let rest ← projectFrom today n (offset + 1) balance entries
    some (⟨day, balance⟩ :: rest)

def project (today : NaiveDate) (todayBalance : ℚ) (entries : List ForecastEntry)
    (horizonDays : ℕ) : Option (List ForecastPoint) :=
  projectFrom d today (horizonDays + 1) 0 todayBalance entries

/-- A balance and the amounts of some entries, added one after the other. -/
def total (balance : ℚ) (entries : List ForecastEntry) : ℚ :=
  entries.foldl (fun b e => d.add b e.amount) balance

end Project

/-! ## The month arithmetic -/

theorem carryUp_eq {year month : ℤ} (h : 1 ≤ month) :
    carryUp year month = (year + (month - 1) / 12, (month - 1) % 12 + 1) := by
  fun_induction carryUp year month with
  | case1 year month hbig ih =>
    rw [ih (by omega)]
    ext <;> simp only <;> omega
  | case2 year month hsmall =>
    ext <;> simp only <;> omega

theorem carryDown_of_pos {year month : ℤ} (h : 1 ≤ month) :
    carryDown year month = (year, month) := by
  rw [carryDown, if_neg (by omega)]

theorem predOpt_of_first {first : NaiveDate} (h : first.day = 1) :
    first.predOpt = if 1 < first.month then
        NaiveDate.fromYmdOpt first.year (first.month - 1) (daysInMonth first.year (first.month - 1))
      else NaiveDate.fromYmdOpt (first.year - 1) 12 31 := by
  rw [NaiveDate.predOpt, if_neg (by omega)]

theorem lastDayOfMonth_eq {year : ℤ} {month : ℕ} (hyear : minYear ≤ year ∧ year < maxYear)
    (hmonth : 1 ≤ month ∧ month ≤ 12) :
    lastDayOfMonth year month = some (daysInMonth year month) := by
  have hday : 1 ≤ daysInMonth year month ∧ daysInMonth year month ≤ daysInMonth year month :=
    ⟨NaiveDate.one_le_daysInMonth year month, le_rfl⟩
  obtain ⟨last, hlast⟩ := NaiveDate.exists_fromYmdOpt ⟨hyear.1, hyear.2.le⟩ hmonth hday
  have hvalue := (NaiveDate.fromYmdOpt_eq_some.mp hlast).2.2
  by_cases hdecember : month = 12
  · subst hdecember
    obtain ⟨first, hfirst⟩ := @NaiveDate.exists_fromYmdOpt (year + 1) 1 1
      ⟨hyear.1.trans (by omega), hyear.2⟩ (by decide) ⟨le_rfl, NaiveDate.one_le_daysInMonth _ _⟩
    obtain ⟨hy, hm, hd⟩ := NaiveDate.fromYmdOpt_eq_some.mp hfirst
    have hdays : daysInMonth year 12 = 31 := rfl
    rw [hdays] at hlast
    simp only [lastDayOfMonth, if_true, hfirst, Option.bind_some, predOpt_of_first hd, hy, hm,
      lt_irrefl, if_false, add_sub_cancel_right, hlast, Option.map_some, hvalue]
  · obtain ⟨first, hfirst⟩ := @NaiveDate.exists_fromYmdOpt year (month + 1) 1
      ⟨hyear.1, hyear.2.le⟩ (by omega) ⟨le_rfl, NaiveDate.one_le_daysInMonth _ _⟩
    obtain ⟨hy, hm, hd⟩ := NaiveDate.fromYmdOpt_eq_some.mp hfirst
    have hlater : 1 < month + 1 := by omega
    simp only [lastDayOfMonth, hdecember, if_false, hfirst, Option.bind_some, predOpt_of_first hd,
      hy, hm, hlater, if_true, Nat.add_sub_cancel, hlast, Option.map_some, hvalue]

theorem nextMonthN_eq {d : NaiveDate} {n : ℕ} (h : d.year + n < maxYear) :
    nextMonthN d n = some ((d.checkedAddMonths n).getD d) := by
  have hmonth := d.month_range
  have hyear := d.year_range
  have hindex : (d.month + n : ℤ) - 1 + 12 * d.year = d.monthIndex + n := by
    rw [NaiveDate.monthIndex]
    ring
  have hpair : carryUp d.year (d.month + n) =
      ((d.monthIndex + n) / 12, (d.monthIndex + n) % 12 + 1) := by
    rw [carryUp_eq (by omega), ← hindex]
    ext <;> simp only <;> omega
  have hrem := Int.emod_nonneg (d.monthIndex + n) (by decide : (12 : ℤ) ≠ 0)
  have hsmall := Int.emod_lt_of_pos (d.monthIndex + n) (by decide : (0 : ℤ) < 12)
  have htoNat : ((d.monthIndex + n) % 12 + 1).toNat = ((d.monthIndex + n) % 12).toNat + 1 := by
    omega
  have hrange : minYear ≤ (d.monthIndex + n) / 12 ∧ (d.monthIndex + n) / 12 < maxYear := by
    unfold minYear maxYear at *
    omega
  rw [nextMonthN, hpair]
  simp only
  rw [carryDown_of_pos (by omega)]
  simp only
  rw [htoNat, lastDayOfMonth_eq hrange (by omega)]
  rfl

/-! ## The merge into days -/

section Merge

variable {d : Decimal.Arith}

theorem total_append (balance : ℚ) (es es' : List ForecastEntry) :
    total d balance (es ++ es') = total d (total d balance es) es' :=
  List.foldl_append

theorem applyDay_spec {day : NaiveDate} {es : List ForecastEntry}
    (hsorted : es.Pairwise fun a b => a.date ≤ b.date) (hfrom : ∀ e ∈ es, day ≤ e.date)
    (balance : ℚ) :
    ∃ now later, es = now ++ later ∧ (∀ e ∈ now, e.date = day) ∧ (∀ e ∈ later, day < e.date) ∧
      applyDay d day balance es = (total d balance now, later) := by
  induction es generalizing balance with
  | nil => exact ⟨[], [], rfl, List.forall_mem_nil _, List.forall_mem_nil _, rfl⟩
  | cons e es ih =>
    obtain ⟨hhead, htail⟩ := List.pairwise_cons.mp hsorted
    obtain ⟨he, hes⟩ := List.forall_mem_cons.mp hfrom
    rw [applyDay]
    by_cases hday : e.date = day
    · obtain ⟨now, later, rfl, hnow, hlater, happly⟩ := ih htail hes (d.add balance e.amount)
      rw [if_pos hday, happly]
      exact ⟨e :: now, later, rfl, List.forall_mem_cons.mpr ⟨hday, hnow⟩, hlater, rfl⟩
    · rw [if_neg hday]
      have hlater := lt_of_le_of_ne he (Ne.symm hday)
      exact ⟨[], e :: es, rfl, List.forall_mem_nil _,
        List.forall_mem_cons.mpr ⟨hlater, fun x hx => hlater.trans_le (hhead x hx)⟩, rfl⟩

/-- The loop from an offset on, when the entries before its day are in the balance. -/
theorem projectFrom_spec {today : NaiveDate} {n offset : ℕ}
    (hyear : today.year + offset + n ≤ maxYear) {before after : List ForecastEntry}
    (hsorted : after.Pairwise fun a b => a.date ≤ b.date)
    (hbefore : ∀ e ∈ before, e.date.dayNumber < today.dayNumber + offset)
    (hafter : ∀ e ∈ after, today.dayNumber + offset ≤ e.date.dayNumber) (balance : ℚ) :
    ∃ points, projectFrom d today n offset (total d balance before) after = some points ∧
      points.length = n ∧ ∀ k < n, ∃ p, points[k]? = some p ∧
        today.addDays (offset + k) = some p.date ∧
        p.balance = total d balance ((before ++ after).filter fun e => e.date ≤ p.date) := by
  induction n generalizing offset before after with
  | zero => exact ⟨[], rfl, rfl, fun _ h => absurd h (Nat.not_lt_zero _)⟩
  | succ n ih =>
    push_cast at hyear
    obtain ⟨day, hday, -⟩ := @NaiveDate.exists_addDays offset today (by omega)
    have hnumber := NaiveDate.dayNumber_of_addDays hday
    have hpresent : ∀ e ∈ after, day ≤ e.date := fun e he =>
      NaiveDate.dayNumber_strictMono.le_iff_le.mp (hnumber ▸ hafter e he)
    obtain ⟨now, later, rfl, hnow, hlater, happly⟩ :=
      applyDay_spec (d := d) hsorted hpresent (total d balance before)
    have hpast : ∀ e ∈ before, e.date ≤ day := fun e he =>
      (NaiveDate.dayNumber_strictMono.lt_iff_lt.mp (hnumber ▸ hbefore e he)).le
    have hnext : ∀ e ∈ later, today.dayNumber + (offset + 1 : ℕ) ≤ e.date.dayNumber := by
      intro e he
      have hlt := NaiveDate.dayNumber_strictMono (hlater e he)
      push_cast
      omega
    have hdone : ∀ e ∈ before ++ now, e.date.dayNumber < today.dayNumber + (offset + 1 : ℕ) := by
      push_cast
      intro e he
      rcases List.mem_append.mp he with he | he
      · have hlt := hbefore e he
        omega
      · rw [hnow e he, hnumber]
        omega
    obtain ⟨points, hpoints, hlength, hspec⟩ := ih (by push_cast; omega)
      (List.pairwise_append.mp hsorted).2.1 hdone hnext
    rw [total_append] at hpoints
    refine ⟨⟨day, total d balance (before ++ now)⟩ :: points, ?_,
      by rw [List.length_cons, hlength], fun k hk => ?_⟩
    · simp only [projectFrom, hday, happly, hpoints, total_append, Option.bind_eq_bind,
        Option.bind_some]
    · cases k with
      | zero =>
        refine ⟨_, rfl, hday, ?_⟩
        have hnow' : now.filter (fun e => e.date ≤ day) = now :=
          List.filter_eq_self.mpr fun e he => decide_eq_true (hnow e he).le
        have hlater' : later.filter (fun e => e.date ≤ day) = [] :=
          List.filter_eq_nil_iff.mpr fun e he hle =>
            absurd (of_decide_eq_true hle) (not_le.mpr (hlater e he))
        have hbefore' : before.filter (fun e => e.date ≤ day) = before :=
          List.filter_eq_self.mpr fun e he => decide_eq_true (hpast e he)
        rw [List.filter_append, List.filter_append, hbefore', hnow', hlater', List.append_nil]
      | succ k =>
        obtain ⟨p, hp, hdate, hbalance⟩ := hspec k (Nat.lt_of_succ_lt_succ hk)
        refine ⟨p, hp, ?_, ?_⟩
        · rw [← hdate]
          congr 1
          omega
        · rw [hbalance, List.append_assoc]

theorem project_spec {today : NaiveDate} {horizonDays : ℕ}
    (hyear : today.year + horizonDays < maxYear) {entries : List ForecastEntry}
    (hsorted : entries.Pairwise fun a b => a.date ≤ b.date) (hfrom : ∀ e ∈ entries, today ≤ e.date)
    (balance : ℚ) :
    ∃ points, project d today balance entries horizonDays = some points ∧
      points.length = horizonDays + 1 ∧ ∀ k ≤ horizonDays, ∃ p, points[k]? = some p ∧
        today.addDays k = some p.date ∧
        p.balance = total d balance (entries.filter fun e => e.date ≤ p.date) := by
  obtain ⟨points, hpoints, hlength, hspec⟩ := @projectFrom_spec d today (horizonDays + 1) 0
    (by push_cast; omega) [] entries hsorted (List.forall_mem_nil _)
    (fun e he => by simpa using NaiveDate.dayNumber_strictMono.le_iff_le.mpr (hfrom e he)) balance
  refine ⟨points, hpoints, hlength, fun k hk => ?_⟩
  obtain ⟨p, hp, hdate, hbalance⟩ := hspec k (Nat.lt_succ_of_le hk)
  rw [Nat.zero_add] at hdate
  exact ⟨p, hp, hdate, hbalance⟩

end Merge

end OpenAccounting.CashFlowForecast
