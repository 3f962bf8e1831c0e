import OpenAccounting.System.AmortizationTotal

/-!
# The calendar of a schedule

The worker moves a schedule on by one month at a time, whatever its unit, and stays where it is
when the next month lacks the day.  `create` computes the end date by one jump in the right unit.
The two agree exactly for one period, and for monthly schedules whose day is in all their months
(`followsCalendar_iff`).
-/

namespace OpenAccounting.Amortization

open Calendar

def unitMonths (unit : String) : ℕ :=
  if unit = "monthly" then 1 else if unit = "quarterly" then 3 else 12

/-- The dates rise by one unit at a time from the start to the end. -/
structure OnCalendar (unit : String) (start last : NaiveDate) (dates : List NaiveDate) : Prop where
  increasing : dates.Pairwise (· < ·)
  apart : ∀ j a b, dates[j]? = some a → dates[j + 1]? = some b →
    a.checkedAddMonths (unitMonths unit) = some b
  first : dates.head? = some start
  last : dates.getLast? = some last

/-- The entries of the schedule are dated as its row says. -/
def FollowsCalendar (sh : Shared) (schedule : Uuid) : Prop :=
  ∃ s ∈ sh.db.amortizationSchedules, s.id = schedule ∧
    ∃ dates : List NaiveDate,
      ((sh.entriesOf schedule).map fun e => txnDateOf sh.db.books e.txn) = dates.map some ∧
      OnCalendar s.periodUnit s.startDate s.endDate dates

def DayInEveryMonth (start : NaiveDate) (periods : ℤ) : Prop :=
  ∀ j : ℕ, (j : ℤ) < periods → (sameDay start j).isSome

/-! ## The same day in later months -/

theorem sameDay_eq_some {date x : NaiveDate} {months : ℤ} :
    sameDay date months = some x ↔
      x.monthIndex = date.monthIndex + months ∧ x.day = date.day := by
  have hrange := x.month_range
  simp only [sameDay, NaiveDate.fromYmdOpt_eq_some, NaiveDate.monthIndex]
  constructor
  · rintro ⟨hyear, hmonth, hday⟩
    refine ⟨?_, hday⟩
    omega
  · rintro ⟨hindex, hday⟩
    refine ⟨?_, ?_, hday⟩ <;> omega

theorem sameDay_zero (date : NaiveDate) : sameDay date 0 = some date := by
  rw [sameDay_eq_some]
  exact ⟨(add_zero _).symm, rfl⟩

theorem inMonths_of_sameDay {date x : NaiveDate} {months : ℤ} (h : sameDay date months = some x) :
    inMonths date months = x := by
  rw [inMonths, h]
  rfl

theorem sameDay_of_lt {date : NaiveDate} {months : ℤ} (h : date < inMonths date months) :
    sameDay date months = some (inMonths date months) := by
  unfold inMonths at h ⊢
  cases hsame : sameDay date months with
  | none =>
    rw [hsame] at h
    exact absurd h (lt_irrefl date)
  | some x => rfl

theorem sameDay_succ {start x y : NaiveDate} {j : ℕ} (hx : sameDay start j = some x)
    (hy : sameDay x 1 = some y) : sameDay start (j + 1 : ℕ) = some y := by
  rw [sameDay_eq_some] at hx hy ⊢
  refine ⟨?_, hy.2.trans hx.2⟩
  rw [hy.1, hx.1, Nat.cast_add, Nat.cast_one, add_assoc]

theorem dateAfter_succ (start : NaiveDate) (j : ℕ) :
    dateAfter start (j + 1) = inMonths (dateAfter start j) 1 := by
  rw [dateAfter, advance, if_pos rfl]

theorem sameDay_dateAfter {start : NaiveDate} {periods : ℤ} (h : DayInEveryMonth start periods) :
    ∀ {j : ℕ}, (j : ℤ) < periods → sameDay start j = some (dateAfter start j)
  | 0, _ => sameDay_zero start
  | j + 1, hj => by
    have ih := sameDay_dateAfter h (j := j) (by omega)
    obtain ⟨y, hy⟩ := Option.isSome_iff_exists.mp (h (j + 1) hj)
    have hstep : sameDay (dateAfter start j) 1 = some y := by
      have hy' := hy
      rw [sameDay_eq_some] at ih hy' ⊢
      refine ⟨?_, hy'.2.trans ih.2.symm⟩
      rw [hy'.1, ih.1, Nat.cast_add, Nat.cast_one, add_assoc]
    rw [dateAfter_succ, inMonths_of_sameDay hstep]
    exact hy

/-! ## The dates of a completed schedule -/

variable {start last : NaiveDate} {unit : String} {n : ℕ}

theorem getElem?_dates {j : ℕ} (hj : j < n) :
    ((List.range n).map (dateAfter start))[j]? = some (dateAfter start j) := by
  rw [List.getElem?_map, List.getElem?_range hj]
  rfl

theorem OnCalendar.lt_succ (h : OnCalendar unit start last ((List.range n).map (dateAfter start)))
    {j : ℕ} (hj : j + 1 < n) : dateAfter start j < dateAfter start (j + 1) := by
  have hpairwise := List.pairwise_iff_getElem.mp (List.pairwise_map.mp h.increasing) j (j + 1)
    (by rw [List.length_range]; exact Nat.lt_of_succ_lt hj) (by rw [List.length_range]; exact hj)
    (Nat.lt_succ_self j)
  rwa [List.getElem_range, List.getElem_range] at hpairwise

theorem OnCalendar.sameDay
    (h : OnCalendar unit start last ((List.range n).map (dateAfter start))) :
    ∀ {j : ℕ}, j < n → Amortization.sameDay start j = some (dateAfter start j)
  | 0, _ => sameDay_zero start
  | j + 1, hj => by
    have ih := OnCalendar.sameDay h (Nat.lt_of_succ_lt hj)
    have hlt := h.lt_succ hj
    rw [dateAfter_succ] at hlt ⊢
    exact sameDay_succ ih (sameDay_of_lt hlt)

theorem OnCalendar.unitMonths
    (h : OnCalendar unit start last ((List.range n).map (dateAfter start))) (hn : 1 < n) :
    Amortization.unitMonths unit = 1 := by
  have hunit := NaiveDate.monthIndex_of_checkedAddMonths
    (h.apart 0 _ _ (getElem?_dates (Nat.zero_lt_of_lt hn)) (getElem?_dates hn))
  have hsame := h.sameDay hn
  rw [sameDay_eq_some] at hsame
  have hzero : dateAfter start 0 = start := rfl
  rw [hzero, Nat.zero_add, hsame.1] at hunit
  omega

/-- If every month has the day of the start, the dates of the code are the calendar's. -/
theorem onCalendar_of_sameDay (hunit : Amortization.unitMonths unit = 1)
    (hsame : ∀ j < n + 1, Amortization.sameDay start j = some (dateAfter start j))
    (hlast : last = dateAfter start n) :
    OnCalendar unit start last ((List.range (n + 1)).map (dateAfter start)) := by
  simp only [sameDay_eq_some] at hsame
  have hindex : ∀ j < n + 1, (dateAfter start j).monthIndex = start.monthIndex + j := fun j hj =>
    (hsame j hj).1
  have hday : ∀ j < n + 1, (dateAfter start j).day = start.day := fun j hj => (hsame j hj).2
  refine ⟨?_, fun j a b ha hb => ?_, ?_, ?_⟩
  · refine List.pairwise_map.mpr (List.pairwise_lt_range.imp_of_mem fun {i j} hi hj hij => ?_)
    refine NaiveDate.lt_of_monthIndex ?_
    rw [hindex i (List.mem_range.mp hi), hindex j (List.mem_range.mp hj)]
    omega
  · have hj : j + 1 < n + 1 := by
      have := (List.getElem?_eq_some_iff.mp hb).1
      rwa [List.length_map, List.length_range] at this
    rw [getElem?_dates (Nat.lt_of_succ_lt hj)] at ha
    rw [getElem?_dates hj] at hb
    cases ha
    cases hb
    refine NaiveDate.checkedAddMonths_of_day ?_ ?_
    · rw [hindex j (Nat.lt_of_succ_lt hj), hindex (j + 1) hj, hunit]
      push_cast
      ring
    · rw [hday j (Nat.lt_of_succ_lt hj), hday (j + 1) hj]
  · rw [List.range_succ_eq_map]
    rfl
  · rw [List.range_succ, List.map_append, List.map_singleton, List.getLast?_concat, hlast]

/-! ## The end date -/

theorem wrapI32_year (date : NaiveDate) : Rounding.wrapI32 (date.year + 0) = date.year := by
  have hrange := date.year_range
  simp only [minYear, maxYear] at hrange
  unfold Rounding.wrapI32
  omega

theorem advance_zero (date : NaiveDate) (unit : String) : advance date unit 0 = date := by
  unfold advance
  split_ifs
  · exact inMonths_of_sameDay (sameDay_zero date)
  · exact inMonths_of_sameDay (sameDay_zero date)
  · rw [wrapI32_year, NaiveDate.fromYmdOpt_eq_some.mpr ⟨rfl, rfl, rfl⟩]
    rfl
  · rfl

theorem unitMonths_eq_one {unit : String}
    (hunit : unit = "monthly" ∨ unit = "quarterly" ∨ unit = "yearly") :
    unitMonths unit = 1 ↔ unit = "monthly" := by
  rcases hunit with rfl | rfl | rfl <;> decide

theorem Progress.dates {d : Decimal.Arith} {s₀ : AmortizationSchedule} {sh : Shared} {k : ℕ}
    (h : Progress d s₀ sh k) :
    ((sh.entriesOf s₀.id).map fun e => txnDateOf sh.db.books e.txn) =
      ((List.range k).map (dateAfter s₀.startDate)).map some := by
  have hdates := congrArg (fun l => l.map fun e => e.2.1) h.entries
  simp only [List.map_map] at hdates ⊢
  exact hdates

/-- A schedule in progress follows the calendar as far as the dates of the code do. -/
theorem Progress.follows_iff_onCalendar {d : Decimal.Arith} {s₀ : AmortizationSchedule} {sh : Shared}
    {k : ℕ} (h : Progress d s₀ sh k) :
    FollowsCalendar sh s₀.id ↔
      OnCalendar s₀.periodUnit s₀.startDate s₀.endDate
        ((List.range k).map (dateAfter s₀.startDate)) := by
  constructor
  · rintro ⟨s, hs, hid, dates, hdates, hcalendar⟩
    have hrow : s = rowAfter s₀ k := List.inj_on_of_nodup_map h.ids hs h.row hid
    rw [h.dates] at hdates
    rw [List.map_injective_iff.mpr (Option.some_injective _) hdates]
    rw [hrow] at hcalendar
    exact hcalendar
  · exact fun hcalendar => ⟨_, h.row, rfl, _, h.dates, hcalendar⟩

/-- A created schedule that sweeps have posted to its last period follows its calendar exactly when
it has one period, or is monthly and all its months have the day of the start. -/
theorem followsCalendar_iff {d : Decimal.Arith} {db db' : Db} {req : Request} {auth : Option Uuid}
    {ledger id : Uuid} {form : NewAmortizationForm} {sweeps : List Sweep} (hdb : Keyed db)
    (hcreate : create db req auth ledger form = (.ok id, db'))
    (hdone : Completed (runSweeps d { db := db' } sweeps) id) :
    FollowsCalendar (runSweeps d { db := db' } sweeps) id ↔
      form.periods = 1 ∨
        form.periodUnit = "monthly" ∧ DayInEveryMonth form.startDate form.periods := by
  obtain ⟨s₀, haccepted⟩ := create_spec hcreate
  obtain ⟨n, hn, hprogress⟩ := progress_of_completed haccepted hdb hdone
  have hfollows := hprogress.follows_iff_onCalendar
  obtain ⟨ledger', hrow⟩ := haccepted.row
  have hunit : s₀.periodUnit = form.periodUnit := by rw [hrow]; rfl
  have hstart : s₀.startDate = form.startDate := by rw [hrow]; rfl
  have hend : s₀.endDate = advance form.startDate form.periodUnit n := by
    have hjump : s₀.endDate = advance form.startDate form.periodUnit (form.periods - 1) := by
      rw [hrow]
      rfl
    rw [hjump, ← hn, Nat.cast_add, Nat.cast_one, add_sub_cancel_right]
  rw [haccepted.id_eq, hunit, hstart, hend] at hfollows
  rw [hfollows]
  constructor
  · intro hcalendar
    by_cases hone : n = 0
    · left
      omega
    · right
      refine ⟨(unitMonths_eq_one haccepted.unit).mp (hcalendar.unitMonths (by omega)), ?_⟩
      intro j hj
      rw [hcalendar.sameDay (by omega)]
      rfl
  · rintro (hone | ⟨hmonthly, hdays⟩)
    · have hzero : n = 0 := by omega
      subst hzero
      rw [Nat.cast_zero, advance_zero]
      exact ⟨List.pairwise_singleton _ _, fun j a b _ hb => by simp at hb, rfl, rfl⟩
    · have hsame : ∀ j < n + 1, sameDay form.startDate j = some (dateAfter form.startDate j) :=
        fun j hj => sameDay_dateAfter hdays (by omega)
      refine onCalendar_of_sameDay ((unitMonths_eq_one haccepted.unit).mpr hmonthly) hsame ?_
      rw [hmonthly, advance, if_pos rfl]
      exact inMonths_of_sameDay (hsame n (Nat.lt_succ_self n))

namespace Sample

open OpenAccounting.Sample

/-- Three quarterly periods from 15 March on. -/
def threeQuarters : NewAmortizationForm := { threeMonths 300 with periodUnit := "quarterly" }

/-- The schedule after its three sweeps. -/
def afterQuarters : Shared := runSweeps Decimal.nearest { db := (scheduled threeQuarters).2 } threeSweeps

theorem afterQuarters_unit :
    ∀ s ∈ afterQuarters.db.amortizationSchedules, s.periodUnit = "quarterly" := by
  decide +kernel

theorem afterQuarters_dates :
    ((afterQuarters.entriesOf scheduleId).map fun e => txnDateOf afterQuarters.db.books e.txn) =
      [march 15, (NaiveDate.fromYmdOpt 2026 4 15).getD default,
        (NaiveDate.fromYmdOpt 2026 5 15).getD default].map some := by
  decide +kernel

example : ∀ s ∈ afterQuarters.db.amortizationSchedules, s.postedPeriods = 3 := by
  decide +kernel

end Sample

/-- The entries of a quarterly schedule are a month apart. -/
theorem quarterly_not_followsCalendar :
    Keyed OpenAccounting.Sample.db ∧ (Sample.scheduled Sample.threeQuarters).1 = .ok Sample.scheduleId ∧
      Completed Sample.afterQuarters Sample.scheduleId ∧
      ¬ FollowsCalendar Sample.afterQuarters Sample.scheduleId := by
  refine ⟨Sample.keyed, by decide +kernel, ?_, ?_⟩
  · unfold Completed
    decide +kernel
  · rintro ⟨s, hs, -, dates, hdates, hcalendar⟩
    rw [Sample.afterQuarters_dates] at hdates
    obtain rfl := List.map_injective_iff.mpr (Option.some_injective _) hdates
    rw [Sample.afterQuarters_unit s hs] at hcalendar
    exact absurd (hcalendar.apart 0 _ _ rfl rfl) (by decide)

/-- Three monthly periods from 15 March on follow their calendar. -/
theorem followsCalendar_iff_monthly :
    FollowsCalendar (runSweeps Decimal.nearest
      { db := (Sample.scheduled (Sample.threeMonths 300)).2 } Sample.threeSweeps) Sample.scheduleId := by
  refine (followsCalendar_iff Sample.keyed (Sample.scheduled_ok (by decide +kernel)) ?_).mpr
    (Or.inr ⟨rfl, fun j hj => ?_⟩)
  · unfold Completed
    decide +kernel
  · have hj3 : j < 3 := Int.ofNat_lt.mp hj
    have hdays : ∀ j < 3, (sameDay (Sample.threeMonths 300).startDate (j : ℕ)).isSome := by
      decide
    exact hdays j hj3

end OpenAccounting.Amortization
