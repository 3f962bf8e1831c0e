import OpenAccounting.Jobs.TemplateRun
import OpenAccounting.Reports.CashFlowForecast

/-!
# Forecasts and the scheduler

The forecast has its own `advance`, and the scheduler posts by `advance_frequency`.  Within the
range of dates they are one function on the recognised frequencies.  It moves a date by a day at
least, so the guard of the forecast never stops a template before its horizon, and the entries are
the dates that the scheduler will post on.
-/

namespace OpenAccounting.CashFlowForecast

open Calendar Relational TemplateRun

/-! ## One step -/

theorem daysInMonth_eq {year : ℤ} {month : ℕ} (h : 1 ≤ month ∧ month ≤ 12) :
    TemplateRun.daysInMonth year month = Calendar.daysInMonth year month := by
  obtain ⟨hlow, hhigh⟩ := h
  interval_cases month <;>
    simp [TemplateRun.daysInMonth, Calendar.daysInMonth, isLeap]

theorem addMonths_eq (date : NaiveDate) (n : ℕ) :
    addMonths date n = (date.checkedAddMonths n).getD date := by
  have hmonth := date.month_range
  have htotal : date.year * 12 + (date.month - 1 : ℕ) + (n : ℤ) = date.monthIndex + n := by
    rw [NaiveDate.monthIndex]
    omega
  have hrem := Int.emod_lt_of_pos (date.monthIndex + n) (by decide : (0 : ℤ) < 12)
  rw [addMonths, htotal, daysInMonth_eq (by omega)]
  rfl

theorem recognised_cases {f : String} (h : IsRecognisedFrequency f) :
    f = "weekly" ∨ f = "biweekly" ∨ f = "monthly" ∨ f = "quarterly" ∨ f = "yearly" := by
  simpa [IsRecognisedFrequency] using h

theorem advance_eq {d : NaiveDate} {f : String} (h : IsRecognisedFrequency f)
    (hyear : d.year + 12 < maxYear) : advance d f 1 = advanceFrequency d f := by
  have hmonths : ∀ n : ℕ, n ≤ 12 → nextMonthN d n = some (addMonths d n) := by
    intro n hn
    rw [nextMonthN_eq (by omega), addMonths_eq]
  have honce : advance d f 1 = advanceOnce d f := by
    rw [advance]
    cases advanceOnce d f <;> rfl
  rw [honce]
  rcases recognised_cases h with rfl | rfl | rfl | rfl | rfl
  · rfl
  · rfl
  · exact hmonths 1 (by decide)
  · exact hmonths 3 (by decide)
  · exact hmonths 12 (by decide)

theorem exists_checkedAddMonths {d : NaiveDate} {n : ℕ} (hyear : d.year + n < maxYear) :
    ∃ d', d.checkedAddMonths n = some d' := by
  have hmonth := d.month_range
  have hrange := d.year_range
  have hrem := Int.emod_lt_of_pos (d.monthIndex + n) (by decide : (0 : ℤ) < 12)
  have hnext : minYear ≤ (d.monthIndex + n) / 12 ∧ (d.monthIndex + n) / 12 ≤ maxYear := by
    unfold NaiveDate.monthIndex minYear maxYear at *
    omega
  exact NaiveDate.exists_fromYmdOpt hnext (by omega)
    ⟨le_min d.day_range.1 (NaiveDate.one_le_daysInMonth _ _), min_le_right _ _⟩

/-- A step of the scheduler is a day forward at least, and less than fourteen years. -/
theorem advanceFrequency_step {d : NaiveDate} {f : String} (h : IsRecognisedFrequency f)
    (hyear : d.year + 14 < maxYear) :
    ∃ d', advanceFrequency d f = some d' ∧ d < d' ∧ d'.year ≤ d.year + 14 := by
  have hdays : ∀ n : ℕ, 0 < n → n ≤ 14 →
      ∃ d', d.addDays n = some d' ∧ d < d' ∧ d'.year ≤ d.year + 14 := by
    intro n hpos hn
    obtain ⟨d', hd', hyear', -⟩ := @NaiveDate.exists_addDays n d (by omega)
    have hnumber := NaiveDate.dayNumber_of_addDays hd'
    exact ⟨d', hd', NaiveDate.dayNumber_strictMono.lt_iff_lt.mp (by omega), by omega⟩
  have hmonths : ∀ n : ℕ, 0 < n → n ≤ 12 →
      ∃ d', some (addMonths d n) = some d' ∧ d < d' ∧ d'.year ≤ d.year + 14 := by
    intro n hpos hn
    obtain ⟨d', hd'⟩ := @exists_checkedAddMonths d n (by omega)
    have hindex := NaiveDate.monthIndex_of_checkedAddMonths hd'
    refine ⟨d', by rw [addMonths_eq, hd']; rfl, NaiveDate.lt_of_monthIndex (by omega), ?_⟩
    have hmonth := d.month_range
    have hmonth' := d'.month_range
    unfold NaiveDate.monthIndex at hindex
    omega
  rcases recognised_cases h with rfl | rfl | rfl | rfl | rfl
  · exact hdays 7 (by decide) (by decide)
  · exact hdays 14 (by decide) (by decide)
  · exact hmonths 1 (by decide) (by decide)
  · exact hmonths 3 (by decide) (by decide)
  · exact hmonths 12 (by decide) (by decide)

theorem occurrence_number {f : String} {first : NaiveDate} (h : IsRecognisedFrequency f) :
    ∀ {n : ℕ}, first.year + 14 * n < maxYear → ∃ x, occurrence f first n = some x ∧
      x.year ≤ first.year + 14 * n ∧ first.dayNumber + n ≤ x.dayNumber
  | 0, _ => ⟨first, rfl, by simp, by simp⟩
  | n + 1, hyear => by
    push_cast at hyear ⊢
    obtain ⟨x, hx, hxyear, hnumber⟩ := @occurrence_number f first h n (by omega)
    obtain ⟨y, hy, hlt, hyyear⟩ := advanceFrequency_step (d := x) h (by omega)
    have hstep := NaiveDate.dayNumber_strictMono hlt
    exact ⟨y, by rw [occurrence, hx]; exact hy, by omega, by omega⟩

/-! ## The entries of a template -/

/-- The dates that the scheduler posts the template on, up to the horizon. -/
structure Schedule (t : TemplateRow) (horizon : NaiveDate) (dates : List NaiveDate) : Prop where
  dates_eq : ∀ k, dates[k]? =
    (occurrence t.frequency t.nextDate k).filter fun date => date ≤ horizon
  ascending : dates.Pairwise (· < ·)

section Entries

variable {t : TemplateRow} {today horizon : NaiveDate}

theorem filter_occurrence_of_past {f : String} {first d : NaiveDate} {m : ℕ}
    (hd : occurrence f first m = some d) (hpast : horizon < d) (k : ℕ) :
    (occurrence f first (m + k)).filter (fun date => date ≤ horizon) = none := by
  rw [Option.filter_eq_none_iff]
  intro x hx hle
  have hdx := occurrence_le (Nat.le_add_right m k) hd hx
  exact absurd (of_decide_eq_true hle) (not_le.mpr (hpast.trans_le hdx))

/-- The loop from the occurrence `m` on, when the guard allows it to pass the horizon. -/
theorem entriesFrom_spec (h : IsRecognisedFrequency t.frequency)
    (hhorizon : horizon.year + 14 < maxYear) :
    ∀ {guard m : ℕ} {d : NaiveDate}, occurrence t.frequency t.nextDate m = some d → today ≤ d →
      (∀ x, occurrence t.frequency t.nextDate (m + guard) = some x → horizon < x) →
      ∃ dates : List NaiveDate, entriesFrom t today horizon guard d = some (dates.map (entryOn t)) ∧
        (∀ k, dates[k]? = (occurrence t.frequency t.nextDate (m + k)).filter
          fun date => date ≤ horizon) ∧
        dates.Pairwise (· < ·) ∧ ∀ x ∈ dates, d ≤ x
  | 0, m, d, hd, _, hguard => by
    refine ⟨[], rfl, fun k => ?_, List.Pairwise.nil, List.forall_mem_nil _⟩
    rw [filter_occurrence_of_past hd (hguard d hd) k]
    rfl
  | guard + 1, m, d, hd, htoday, hguard => by
    rw [entriesFrom]
    by_cases hle : d ≤ horizon
    · have hdyear : d.year ≤ horizon.year := by
        by_contra hlt
        exact absurd hle (not_le.mpr (NaiveDate.lt_iff.mpr (Or.inl (not_le.mp hlt))))
      obtain ⟨next, hnext, hlt, -⟩ := advanceFrequency_step (d := d) h (by omega)
      have hoccurrence : occurrence t.frequency t.nextDate (m + 1) = some next := by
        rw [occurrence, hd]
        exact hnext
      have hpast : ∀ x, occurrence t.frequency t.nextDate (m + 1 + guard) = some x →
          horizon < x := by
        intro x hx
        rw [Nat.add_assoc, Nat.add_comm 1 guard] at hx
        exact hguard x hx
      obtain ⟨dates, hdates, hspec, hascending, hfrom⟩ :=
        entriesFrom_spec h hhorizon hoccurrence (htoday.trans hlt.le) hpast
      have hadvance := advance_eq (d := d) h (by omega)
      refine ⟨d :: dates, ?_, fun k => ?_, List.pairwise_cons.mpr
        ⟨fun x hx => hlt.trans_le (hfrom x hx), hascending⟩, List.forall_mem_cons.mpr
        ⟨le_rfl, fun x hx => hlt.le.trans (hfrom x hx)⟩⟩
      · rw [if_pos hle, hadvance, hnext]
        simp only [Option.bind_eq_bind, Option.bind_some, hdates, if_pos htoday, List.map_cons]
      · cases k with
        | zero =>
          rw [Nat.add_zero, hd, Option.filter_some, if_pos (decide_eq_true hle)]
          rfl
        | succ k =>
          rw [List.getElem?_cons_succ, hspec k]
          congr 2
          omega
    · rw [if_neg hle]
      refine ⟨[], rfl, fun k => ?_, List.Pairwise.nil, List.forall_mem_nil _⟩
      rw [filter_occurrence_of_past hd (not_le.mp hle) k]
      rfl

/-- The entries of a template are those on the dates that the scheduler posts it on. -/
theorem templateEntries_spec (h : IsRecognisedFrequency t.frequency) (hnext : today ≤ t.nextDate)
    (hyear : t.nextDate.year ≤ 9000) (hhorizon : horizon.year ≤ 9400)
    (hdays : horizon.dayNumber ≤ today.dayNumber + 365) :
    ∃ dates, templateEntries t today horizon = some (dates.map (entryOn t)) ∧
      Schedule t horizon dates := by
  have hmax : maxYear = 262142 := rfl
  have hguard : ∀ x, occurrence t.frequency t.nextDate (0 + 400) = some x → horizon < x := by
    intro x hx
    obtain ⟨y, hy, -, hnumber⟩ := @occurrence_number t.frequency t.nextDate h 400 (by omega)
    rw [Nat.zero_add, hy] at hx
    cases hx
    have hfirst := NaiveDate.dayNumber_strictMono.le_iff_le.mpr hnext
    exact NaiveDate.dayNumber_strictMono.lt_iff_lt.mp (by omega)
  obtain ⟨dates, hdates, hspec, hascending, -⟩ :=
    entriesFrom_spec h (by omega) (d := t.nextDate) rfl hnext hguard
  refine ⟨dates, by rw [templateEntries, if_pos h, hdates], fun k => ?_, hascending⟩
  rw [hspec k, Nat.zero_add]

end Entries

theorem mapM_eq_some {α β : Type} {f : α → Option β} {g : α → β} {xs : List α}
    (h : ∀ x ∈ xs, f x = some (g x)) : xs.mapM f = some (xs.map g) := by
  induction xs with
  | nil => rfl
  | cons x xs ih =>
    obtain ⟨hx, hxs⟩ := List.forall_mem_cons.mp h
    rw [List.mapM_cons, hx, ih hxs]
    rfl

theorem Schedule.from_next {t : TemplateRow} {horizon : NaiveDate} {dates : List NaiveDate}
    (h : Schedule t horizon dates) : ∀ x ∈ dates, t.nextDate ≤ x := by
  intro x hx
  obtain ⟨k, hk⟩ := List.mem_iff_getElem?.mp hx
  rw [h.dates_eq, Option.filter_eq_some_iff] at hk
  exact occurrence_le (Nat.zero_le k) rfl hk.1

/-- The forecast of recognised templates that are not overdue: its entries are those on the dates of
the scheduler, in order, and its points are the days up to the horizon, each with the entries up to
it in the balance. -/
theorem forecast_exact (d : Decimal.Arith) {templates : List TemplateRow} {today : NaiveDate}
    {horizonDays : ℕ} (todayBalance : ℚ) (htoday : today.year ≤ 9000) (hdays : horizonDays ≤ 365)
    (htemplates : ∀ t ∈ templates, IsRecognisedFrequency t.frequency ∧ today ≤ t.nextDate ∧
      t.nextDate.year ≤ 9000) :
    ∃ horizon entries points, today.addDays horizonDays = some horizon ∧
      materializeForecast templates today horizonDays = some entries ∧
      project d today todayBalance entries horizonDays = some points ∧
      (∃ dates : TemplateRow → List NaiveDate, (∀ t ∈ templates, Schedule t horizon (dates t)) ∧
        entries = orderBy ForecastEntry.date
          (templates.flatMap fun t => (dates t).map (entryOn t))) ∧
      points.length = horizonDays + 1 ∧ ∀ k ≤ horizonDays, ∃ p, points[k]? = some p ∧
        today.addDays k = some p.date ∧
        p.balance = total d todayBalance (entries.filter fun e => e.date ≤ p.date) := by
  have hmax : maxYear = 262142 := rfl
  obtain ⟨horizon, hhorizon, hyear, -⟩ := @NaiveDate.exists_addDays horizonDays today (by omega)
  have hnumber := NaiveDate.dayNumber_of_addDays hhorizon
  have hentries : ∀ t : TemplateRow, ∃ dates : List NaiveDate, t ∈ templates →
      templateEntries t today horizon = some (dates.map (entryOn t)) ∧
        Schedule t horizon dates := by
    intro t
    by_cases ht : t ∈ templates
    · obtain ⟨hrecognised, hnext, hnextYear⟩ := htemplates t ht
      obtain ⟨dates, hdates⟩ := @templateEntries_spec t today horizon hrecognised hnext hnextYear
        (by omega) (by omega)
      exact ⟨dates, fun _ => hdates⟩
    · exact ⟨[], fun h => absurd h ht⟩
  choose dates hdates using hentries
  let entries := orderBy ForecastEntry.date
    (templates.flatMap fun t => (dates t).map (entryOn t))
  have hmaterialize : materializeForecast templates today horizonDays = some entries := by
    simp only [materializeForecast, hhorizon, Option.bind_eq_bind, Option.bind_some,
      mapM_eq_some fun t ht => (hdates t ht).1]
    rfl
  have hfrom : ∀ e ∈ entries, today ≤ e.date := by
    intro e he
    obtain ⟨t, ht, he⟩ := List.mem_flatMap.mp (mem_orderBy.mp he)
    obtain ⟨x, hx, rfl⟩ := List.mem_map.mp he
    exact (htemplates t ht).2.1.trans ((hdates t ht).2.from_next x hx)
  obtain ⟨points, hpoints, hlength, hspec⟩ := @project_spec d today horizonDays (by omega) entries
    (pairwise_orderBy ForecastEntry.date _) hfrom todayBalance
  exact ⟨horizon, entries, points, hhorizon, hmaterialize, hpoints,
    ⟨dates, fun t ht => (hdates t ht).2, rfl⟩, hlength, hspec⟩

namespace Sample

def today : NaiveDate := (NaiveDate.fromYmdOpt 2028 1 31).getD default

/-- Rent at the end of the month, and wages every other week. -/
def templates : List TemplateRow :=
  [{ description := "Rent", frequency := "monthly", nextDate := today, amount := 900,
     cashDirection := "CREDIT" },
    { description := "Wages", frequency := "biweekly",
      nextDate := (NaiveDate.fromYmdOpt 2028 2 29).getD default, amount := 1500,
      cashDirection := "DEBIT" }]

end Sample

/-- After a year the balance has thirteen rents less and twenty-five wages more. -/
theorem forecast_exact_year :
    ∃ entries points, materializeForecast Sample.templates Sample.today 365 = some entries ∧
      project Decimal.nearest Sample.today 1000 entries 365 = some points ∧
      points.length = 366 ∧ points[365]?.map ForecastPoint.balance = some 26800 := by
  obtain ⟨_, entries, points, -, hentries, hpoints, -, hlength, hbalances⟩ :=
    @forecast_exact Decimal.nearest Sample.templates Sample.today 365 1000 (by decide) (by decide)
      (by decide)
  obtain ⟨p, hp, hdate, hbalance⟩ := hbalances 365 le_rfl
  have htotal : (materializeForecast Sample.templates Sample.today 365).bind (fun entries =>
      (Sample.today.addDays 365).map fun day =>
        total Decimal.nearest 1000 (entries.filter fun e => e.date ≤ day)) = some 26800 := by
    decide +kernel
  rw [hentries, Option.bind_some, hdate, Option.map_some, ← hbalance] at htotal
  exact ⟨entries, points, hentries, hpoints, hlength, by rw [hp]; exact htotal⟩

end OpenAccounting.CashFlowForecast
