import OpenAccounting.System.Forecasts

/-!
# Due dates advance

`advance_frequency` moves a date by one or two weeks or by some months.  Its `add_months` falls back
to the date itself when there is no such date, on which the catch-up loops of both scans would turn
forever.  In the years that can be written there always is one.
-/

namespace OpenAccounting.TemplateRun

open Calendar
open CashFlowForecast (addMonths_eq exists_checkedAddMonths)

/-- The frequencies that move by months. -/
def monthSteps : List (String × ℕ) := [("monthly", 1), ("quarterly", 3), ("yearly", 12)]

/-- A frequency is a number of days or of months. -/
theorem advanceFrequency_cases (f : String) :
    (∃ n, (7 ≤ n ∧ n ≤ 14) ∧ (∀ months, (f, months) ∉ monthSteps) ∧
        ∀ d, advanceFrequency d f = d.addDays n) ∨
      ∃ n, (n = 1 ∨ n = 3 ∨ n = 12) ∧ (∀ months, (f, months) ∈ monthSteps → months = n) ∧
        ∀ d, advanceFrequency d f = some (addMonths d n) := by
  by_cases hmonthly : f = "monthly"
  · subst hmonthly
    exact Or.inr ⟨1, by decide, by simp [monthSteps], fun d => rfl⟩
  by_cases hquarterly : f = "quarterly"
  · subst hquarterly
    exact Or.inr ⟨3, by decide, by simp [monthSteps], fun d => rfl⟩
  by_cases hyearly : f = "yearly"
  · subst hyearly
    exact Or.inr ⟨12, by decide, by simp [monthSteps], fun d => rfl⟩
  have hnone : ∀ months, (f, months) ∉ monthSteps := by
    simp [monthSteps, hmonthly, hquarterly, hyearly]
  refine Or.inl ⟨if f = "biweekly" then 14 else 7, ?_, hnone, fun d => ?_⟩
  · split <;> decide
  · rw [advanceFrequency]
    by_cases hweekly : f = "weekly"
    · subst hweekly
      rfl
    · rw [if_neg hweekly, if_neg hmonthly, if_neg hquarterly, if_neg hyearly]
      split <;> rfl

/-- Where the next due date lies. -/
structure Advances (f : String) (d next : NaiveDate) : Prop where
  later : d < next
  days : d.dayNumber + 7 ≤ next.dayNumber ∧ next.dayNumber ≤ d.dayNumber + 366
  inMonth : ∀ months, (f, months) ∈ monthSteps → next.monthIndex = d.monthIndex + months ∧
    (next.day = d.day ∨ next.day = Calendar.daysInMonth next.year next.month)

theorem exists_advanceFrequency (f : String) {d : NaiveDate} (hyear : d.year ≤ 9000) :
    ∃ next, advanceFrequency d f = some next ∧ Advances f d next := by
  rcases advanceFrequency_cases f with ⟨n, hn, hnone, hf⟩ | ⟨n, hn, honly, hf⟩
  · obtain ⟨next, hnext, -⟩ := @NaiveDate.exists_addDays n d (by unfold maxYear; omega)
    have hnumber := NaiveDate.dayNumber_of_addDays hnext
    refine ⟨next, (hf d).trans hnext, NaiveDate.dayNumber_strictMono.lt_iff_lt.mp (by omega),
      by omega, fun months h => absurd h (hnone months)⟩
  · obtain ⟨next, hnext⟩ := @exists_checkedAddMonths d n (by unfold maxYear; omega)
    have hadd : advanceFrequency d f = some next := by
      rw [hf, addMonths_eq, hnext]
      rfl
    have hindex := NaiveDate.monthIndex_of_checkedAddMonths hnext
    have hdays := NaiveDate.dayNumber_of_checkedAddMonths hnext (by omega)
    refine ⟨next, hadd, NaiveDate.lt_of_monthIndex (by omega), by omega, fun months h => ?_⟩
    obtain ⟨hyear, hmonth, hday⟩ := NaiveDate.fromYmdOpt_eq_some.mp hnext
    rw [← hyear, ← hmonth] at hday
    rw [honly months h, hday]
    exact ⟨hindex, min_choice _ _⟩

theorem year_le {d e : NaiveDate} (h : d ≤ e) : d.year ≤ e.year := by
  have hindex := NaiveDate.monthIndex_le h
  have hd := d.month_range
  have he := e.month_range
  unfold NaiveDate.monthIndex at hindex
  omega

theorem advanceFrequency_mono {f : String} {d e d' e' : NaiveDate} (h : d ≤ e)
    (hyear : e.year ≤ 9000) (hd : advanceFrequency d f = some d')
    (he : advanceFrequency e f = some e') : d' ≤ e' := by
  have hyears := year_le h
  rcases advanceFrequency_cases f with ⟨n, -, -, hf⟩ | ⟨n, hn, -, hf⟩
  · rw [hf] at hd he
    have hd' := NaiveDate.dayNumber_of_addDays hd
    have he' := NaiveDate.dayNumber_of_addDays he
    have hdays := NaiveDate.dayNumber_strictMono.le_iff_le.mpr h
    exact NaiveDate.dayNumber_strictMono.le_iff_le.mp (by omega)
  · obtain ⟨x, hx⟩ := @exists_checkedAddMonths d n (by unfold maxYear; omega)
    obtain ⟨y, hy⟩ := @exists_checkedAddMonths e n (by unfold maxYear; omega)
    rw [hf, addMonths_eq, hx] at hd
    rw [hf, addMonths_eq, hy] at he
    cases hd
    cases he
    exact NaiveDate.checkedAddMonths_mono h hx hy

theorem occurrence_passes {f : String} {first today : NaiveDate} (hyear : today.year ≤ 9000) :
    ∀ n : ℕ, (∃ k ≤ n, ∃ d, occurrence f first k = some d ∧ today < d) ∨
      ∃ d, occurrence f first n = some d ∧ d ≤ today ∧ first.dayNumber + 7 * n ≤ d.dayNumber
  | 0 => by
    rcases lt_or_ge today first with hlt | hge
    · exact Or.inl ⟨0, le_rfl, first, rfl, hlt⟩
    · exact Or.inr ⟨first, rfl, hge, by simp⟩
  | n + 1 => by
    rcases occurrence_passes hyear n with ⟨k, hk, hpassed⟩ | ⟨d, hd, hle, hdays⟩
    · exact Or.inl ⟨k, hk.trans (Nat.le_succ n), hpassed⟩
    · obtain ⟨next, hnext, hadvances⟩ :=
        exists_advanceFrequency f ((year_le hle).trans hyear)
      have hocc : occurrence f first (n + 1) = some next := by
        rw [occurrence, hd]
        exact hnext
      rcases lt_or_ge today next with hlt | hge
      · exact Or.inl ⟨n + 1, le_rfl, next, hocc, hlt⟩
      · have hweek := hadvances.days.1
        exact Or.inr ⟨next, hocc, hge, by push_cast; omega⟩

/-- A due date up to the year 9000 has a next one, at least 7 and at most 366 days later and, for a
frequency of months, so many months later on the same day or on the last one.  Later dates have no
earlier next ones, and the due dates of a catch-up go past its day after as many turns as there are
weeks up to it, and one. -/
theorem advanceFrequency_advances (f : String) :
    (∀ d : NaiveDate, d.year ≤ 9000 →
        ∃ next, advanceFrequency d f = some next ∧ Advances f d next) ∧
      (∀ d e d' e' : NaiveDate, d ≤ e → e.year ≤ 9000 → advanceFrequency d f = some d' →
        advanceFrequency e f = some e' → d' ≤ e') ∧
      ∀ first today : NaiveDate, today.year ≤ 9000 →
        ∃ k ≤ (today.dayNumber - first.dayNumber).toNat / 7 + 1,
          ∃ d, occurrence f first k = some d ∧ today < d := by
  refine ⟨fun d => exists_advanceFrequency f,
    fun d e d' e' h hyear hd he => advanceFrequency_mono h hyear hd he, ?_⟩
  intro first today hyear
  rcases occurrence_passes hyear ((today.dayNumber - first.dayNumber).toNat / 7 + 1) with
    hpassed | ⟨d, -, hle, hdays⟩
  · exact hpassed
  · have hnumber := NaiveDate.dayNumber_strictMono.le_iff_le.mpr hle
    omega

end OpenAccounting.TemplateRun
