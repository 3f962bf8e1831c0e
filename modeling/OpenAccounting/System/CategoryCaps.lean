import OpenAccounting.Domain.Policies

/-!
# Category caps

`evaluate` walks over the lines, adds up a day when it meets a line of the category on it, and
remembers the days that exceed the cap.  What it reports is one violation for each such day.  The
days are summed by decimal additions and shown in cents.  Where the amounts fit into one mantissa
together the sums are exact, and then the order of the lines does not matter.
-/

namespace OpenAccounting.CategoryCaps

open Calendar Policies

/-! ## One violation a day -/

section

variable {Json : Type} {d : Decimal.Checked} {cfg : CategoryCapConfig} {lines : List PolicyLine}

/-- One of the lines is of the category and on the date, and the sum of the date exceeds the cap. -/
structure Over (d : Decimal.Checked) (cfg : CategoryCapConfig) (lines met : List PolicyLine)
    (date : NaiveDate) : Prop where
  line : ∃ l ∈ met, l.category = cfg.category ∧ l.txnDate = date
  sum : ∃ sum ∈ daySum d cfg.category lines date, cfg.maxPerDay < sum

/-- The violation that is reported for a date. -/
structure ReportedFor (d : Decimal.Checked) (cfg : CategoryCapConfig) (lines : List PolicyLine)
    (date : NaiveDate) (v : Violation) : Prop where
  shown : ∃ sum ∈ daySum d cfg.category lines date, ∃ actual ∈ decimalToCents d sum,
    ∃ cap ∈ decimalToCents d cfg.maxPerDay, v = .categoryCapOver cfg.category date actual cap

/-- There is one violation for each date that is over the cap, and nothing else. -/
def Reports (d : Decimal.Checked) (cfg : CategoryCapConfig) (lines : List PolicyLine)
    (vs : List Violation) : Prop :=
  ∃ dates : List NaiveDate, dates.Nodup ∧ (∀ date, date ∈ dates ↔ Over d cfg lines lines date) ∧
    List.Forall₂ (ReportedFor d cfg lines) dates vs

theorem ReportedFor.unique {date : NaiveDate} {v w : Violation}
    (hv : ReportedFor d cfg lines date v) (hw : ReportedFor d cfg lines date w) : v = w := by
  obtain ⟨sum, hsum, actual, hactual, cap, hcap, rfl⟩ := hv.shown
  obtain ⟨sum', hsum', actual', hactual', cap', hcap', rfl⟩ := hw.shown
  obtain rfl := Option.mem_unique hsum hsum'
  obtain rfl := Option.mem_unique hactual hactual'
  obtain rfl := Option.mem_unique hcap hcap'
  rfl

/-- The loop after the lines `met`: the keys of the dates that are over the cap, and a violation for
each of them. -/
structure Progress (d : Decimal.Checked) (cfg : CategoryCapConfig) (lines met : List PolicyLine)
    (s : CapState) (dates : List NaiveDate) : Prop where
  nodup : dates.Nodup
  passed : ∀ date, date ∈ dates ↔ Over d cfg lines met date
  seen : ∀ date, (cfg.category, date) ∈ s.seen ↔ date ∈ dates
  out : List.Forall₂ (ReportedFor d cfg lines) dates s.out

theorem Progress.init : Progress d cfg lines [] {} [] where
  nodup := List.nodup_nil
  passed date := by
    refine ⟨fun h => (List.not_mem_nil h).elim, fun h => ?_⟩
    obtain ⟨l, hl, -⟩ := h.line
    exact (List.not_mem_nil hl).elim
  seen date := by simp
  out := List.Forall₂.nil

variable {line : PolicyLine} {met : List PolicyLine} {dates : List NaiveDate} {s : CapState}

theorem over_append_iff {date : NaiveDate}
    (h : Over d cfg lines [line] date → Over d cfg lines met date) :
    Over d cfg lines (met ++ [line]) date ↔ Over d cfg lines met date := by
  constructor
  · rintro ⟨⟨l, hl, hline⟩, hsum⟩
    rcases List.mem_append.mp hl with hl | hl
    · exact ⟨⟨l, hl, hline⟩, hsum⟩
    · exact h ⟨⟨l, hl, hline⟩, hsum⟩
  · rintro ⟨⟨l, hl, hline⟩, hsum⟩
    exact ⟨⟨l, List.mem_append_left _ hl, hline⟩, hsum⟩

theorem Progress.skip (h : Progress d cfg lines met s dates)
    (hline : ∀ date, Over d cfg lines [line] date → date ∈ dates) :
    Progress d cfg lines (met ++ [line]) s dates where
  nodup := h.nodup
  passed date := by
    rw [over_append_iff fun hover => (h.passed date).mp (hline date hover)]
    exact h.passed date
  seen := h.seen
  out := h.out

/-- One turn of the loop: its keys and violations are those of the lines so far. -/
theorem Progress.step {s' : CapState} (h : Progress d cfg lines met s dates)
    (hstep : capStep d cfg lines s line = some s') :
    ∃ dates', Progress d cfg lines (met ++ [line]) s' dates' := by
  -- The only date the line can bring over the cap is its own.
  have hdate : ∀ {date}, Over d cfg lines [line] date →
      line.category = cfg.category ∧ line.txnDate = date := by
    intro date hover
    obtain ⟨l, hl, hline⟩ := hover.line
    rwa [List.mem_singleton.mp hl] at hline
  rw [capStep] at hstep
  by_cases hcategory : line.category = cfg.category
  · rw [if_neg (not_not.mpr hcategory)] at hstep
    by_cases hseen : (cfg.category, line.txnDate) ∈ s.seen
    · rw [if_pos hseen] at hstep
      cases hstep
      refine ⟨dates, h.skip fun date hover => ?_⟩
      obtain ⟨-, rfl⟩ := hdate hover
      exact (h.seen _).mp hseen
    · rw [if_neg hseen] at hstep
      obtain ⟨sum, hsum, hstep⟩ := Option.bind_eq_some_iff.mp hstep
      split at hstep
      · rename_i hcap
        obtain ⟨actual, hactual, hstep⟩ := Option.bind_eq_some_iff.mp hstep
        obtain ⟨cap, hcents, hstep⟩ := Option.bind_eq_some_iff.mp hstep
        cases hstep
        have hnew : line.txnDate ∉ dates := fun hmem => hseen ((h.seen _).mpr hmem)
        refine ⟨dates ++ [line.txnDate], ?_, fun date => ?_, fun date => ?_, ?_⟩
        · exact List.nodup_append.mpr ⟨h.nodup, by simp, by
            rintro date hmem other hother rfl
            rw [List.mem_singleton.mp hother] at hmem
            exact hnew hmem⟩
        · rw [List.mem_append, List.mem_singleton, h.passed]
          constructor
          · rintro (hover | rfl)
            · obtain ⟨l, hl, hline⟩ := hover.line
              exact ⟨⟨l, List.mem_append_left _ hl, hline⟩, hover.sum⟩
            · exact ⟨⟨line, by simp, hcategory, rfl⟩, sum, hsum, hcap⟩
          · rintro ⟨⟨l, hl, hline⟩, hover⟩
            rcases List.mem_append.mp hl with hl | hl
            · exact Or.inl ⟨⟨l, hl, hline⟩, hover⟩
            · rw [List.mem_singleton.mp hl] at hline
              exact Or.inr hline.2.symm
        · rw [List.mem_cons, List.mem_append, List.mem_singleton, ← h.seen, Prod.mk.injEq]
          simp [or_comm]
        · exact List.rel_append h.out
            (List.Forall₂.cons ⟨sum, hsum, actual, hactual, cap, hcents, rfl⟩ List.Forall₂.nil)
      · rename_i hcap
        cases hstep
        refine ⟨dates, h.skip fun date hover => ?_⟩
        obtain ⟨-, rfl⟩ := hdate hover
        obtain ⟨sum', hsum', hlt⟩ := hover.sum
        rw [Option.mem_unique hsum' hsum] at hlt
        exact absurd hlt hcap
  · rw [if_pos hcategory] at hstep
    cases hstep
    exact ⟨dates, h.skip fun date hover => absurd (hdate hover).1 hcategory⟩

/-- So they are after the whole loop. -/
theorem Progress.run {rest : List PolicyLine} {s' : CapState}
    (h : Progress d cfg lines met s dates) (hrun : rest.foldlM (capStep d cfg lines) s = some s') :
    ∃ dates', Progress d cfg lines (met ++ rest) s' dates' := by
  induction rest generalizing met s dates with
  | nil =>
    cases hrun
    rw [List.append_nil]
    exact ⟨dates, h⟩
  | cons line rest ih =>
    rw [List.foldlM_cons] at hrun
    obtain ⟨mid, hmid, hrun⟩ := Option.bind_eq_some_iff.mp hrun
    obtain ⟨dates', hprogress⟩ := h.step hmid
    rw [← List.singleton_append, ← List.append_assoc]
    exact ih hprogress hrun

theorem reports_of_foldlM (h : lines.foldlM (capStep d cfg lines) {} = some s) :
    Reports d cfg lines s.out := by
  obtain ⟨dates, hprogress⟩ := Progress.init.run h
  rw [List.nil_append] at hprogress
  exact ⟨dates, hprogress.nodup, hprogress.passed, hprogress.out⟩

/-- Lists of lines with the same dates and sums have the same violations. -/
theorem Reports.perm {others : List PolicyLine} {vs ws : List Violation}
    (hvs : Reports d cfg lines vs) (hws : Reports d cfg others ws) (hperm : others.Perm lines)
    (hsum : ∀ date, daySum d cfg.category others date = daySum d cfg.category lines date) :
    ws.Perm vs := by
  obtain ⟨dates, hnodup, hover, hshown⟩ := hvs
  obtain ⟨dates', hnodup', hover', hshown'⟩ := hws
  have hsame : dates'.Perm dates := by
    rw [List.perm_ext_iff_of_nodup hnodup' hnodup]
    intro date
    rw [hover, hover']
    constructor
    · rintro ⟨⟨l, hl, hline⟩, hcap⟩
      exact ⟨⟨l, hperm.mem_iff.mp hl, hline⟩, by rwa [hsum] at hcap⟩
    · rintro ⟨⟨l, hl, hline⟩, hcap⟩
      exact ⟨⟨l, hperm.mem_iff.mpr hl, hline⟩, by rwa [hsum]⟩
  have hreported : List.Forall₂ (ReportedFor d cfg lines) dates' ws :=
    hshown'.imp fun date v h => ⟨by rw [← hsum]; exact h.shown⟩
  obtain ⟨us, hus, husws⟩ := List.perm_comp_forall₂ hsame.symm hreported
  obtain rfl : us = vs := by
    clear hover hover' hsame hreported husws hnodup
    induction hshown generalizing us with
    | nil =>
      cases hus
      rfl
    | cons hv _ ih =>
      cases hus with
      | cons hu hus => rw [hu.unique hv, ih _ hus]
  exact husws.symm

end

/-! ## Exact sums -/

section

variable {d : Decimal.Checked} {cfg : CategoryCapConfig} {lines : List PolicyLine} {n : ℕ}

open Rounding Decimal

def inCategory (category : String) (lines : List PolicyLine) : List PolicyLine :=
  lines.filter fun l => l.category = category

def trueSum (category : String) (lines : List PolicyLine) (date : NaiveDate) : ℚ :=
  ((lines.filter fun l => l.category = category ∧ l.txnDate = date).map (·.amount)).sum

/-- The amounts of the category have at most `n` decimals, and all of them fit into one mantissa. -/
structure InRange (cfg : CategoryCapConfig) (lines : List PolicyLine) (n : ℕ) : Prop where
  two_le : 2 ≤ n
  le : n ≤ 28
  scale : ∀ l ∈ inCategory cfg.category lines, HasScale n l.amount
  fits : ((inCategory cfg.category lines).map fun l => |l.amount|).sum * 10 ^ n < 2 ^ 96
  capScale : HasScale n cfg.maxPerDay
  capFits : |cfg.maxPerDay| * 10 ^ n < 2 ^ 96

theorem InRange.perm {others : List PolicyLine} (h : InRange cfg lines n)
    (hperm : others.Perm lines) : InRange cfg others n where
  two_le := h.two_le
  le := h.le
  scale l hl := h.scale l ((hperm.filter _).mem_iff.mp hl)
  fits := by
    rw [inCategory, ((hperm.filter _).map _).sum_eq]
    exact h.fits
  capScale := h.capScale
  capFits := h.capFits

theorem trueSum_perm {others : List PolicyLine} (hperm : others.Perm lines) (date : NaiveDate) :
    trueSum cfg.category others date = trueSum cfg.category lines date :=
  ((hperm.filter _).map _).sum_eq

theorem amounts_sublist (category : String) (lines : List PolicyLine) (date : NaiveDate) :
    (lines.filter fun l => l.category = category ∧ l.txnDate = date).Sublist
      (inCategory category lines) :=
  List.monotone_filter_right lines (by simp +contextual)

theorem InRange.dayFits (h : InRange cfg lines n) (date : NaiveDate) :
    ((lines.filter fun l => l.category = cfg.category ∧ l.txnDate = date).map
      fun l => |l.amount|).sum * 10 ^ n < 2 ^ 96 := by
  refine lt_of_le_of_lt ?_ h.fits
  gcongr
  exact ((amounts_sublist cfg.category lines date).map _).sum_le_sum (by simp)

theorem InRange.daySum_eq (hd : d.Lawful) (h : InRange cfg lines n) (date : NaiveDate) :
    daySum d cfg.category lines date = some (trueSum cfg.category lines date) := by
  refine hd.sum_eq h.le (fun x hx => ?_) ?_
  · obtain ⟨l, hl, rfl⟩ := List.mem_map.mp hx
    exact h.scale l ((amounts_sublist cfg.category lines date).subset hl)
  · rw [List.map_map]
    exact h.dayFits date

theorem InRange.trueSum_fits (h : InRange cfg lines n) (date : NaiveDate) :
    HasScale n (trueSum cfg.category lines date) ∧
      |trueSum cfg.category lines date| * 10 ^ n < 2 ^ 96 := by
  constructor
  · refine HasScale.list_sum fun x hx => ?_
    obtain ⟨l, hl, rfl⟩ := List.mem_map.mp hx
    exact h.scale l ((amounts_sublist cfg.category lines date).subset hl)
  · refine lt_of_le_of_lt ?_ (h.dayFits date)
    gcongr
    have habs := List.le_sum_of_subadditive (abs : ℚ → ℚ) abs_zero.le (fun x y => abs_add_le x y)
      ((lines.filter fun l => l.category = cfg.category ∧ l.txnDate = date).map (·.amount))
    rwa [List.map_map] at habs

theorem cents_representable {x : ℚ} (hn : 2 ≤ n) (hn' : n ≤ 28) (hx : HasScale n x)
    (hfits : |x| * 10 ^ n < 2 ^ 96) : Representable (x * 100) := by
  obtain ⟨m, rfl⟩ := Nat.exists_eq_add_of_le hn
  refine representable_of_hasScale (n := m) (by omega) ?_ ?_
  · obtain ⟨k, rfl⟩ := hx
    refine ⟨k, ?_⟩
    field_simp
    ring
  · rw [abs_mul, abs_of_pos (show (0 : ℚ) < 100 by norm_num)]
    rw [pow_add] at hfits
    linarith

theorem representable_hundred : Representable 100 := by
  exact_mod_cast representable_intCast (k := 100) (by norm_num)

theorem decimalToCents_isSome (hd : d.Lawful) {x : ℚ} (hn : 2 ≤ n) (hn' : n ≤ 28)
    (hx : HasScale n x) (hfits : |x| * 10 ^ n < 2 ^ 96) : (decimalToCents d x).isSome := by
  rw [decimalToCents, hd.mul x 100 (representable_of_hasScale hn' hx hfits) representable_hundred
    (cents_representable hn hn' hx hfits)]
  rfl

theorem decimalToCents_eq (hd : d.Lawful) {k : ℤ} (hk : |k| < 2 ^ 53) :
    decimalToCents d (k / 100) = some k := by
  have habs : |((k : ℚ) / 100)| * 10 ^ 2 = |(k : ℚ)| := by
    rw [abs_div, abs_of_pos (show (0 : ℚ) < 100 by norm_num)]
    ring
  have hscale : HasScale 2 ((k : ℚ) / 100) := ⟨k, by norm_num⟩
  have hlt : |(k : ℚ)| < 2 ^ 53 := by exact_mod_cast hk
  have hfits : |((k : ℚ) / 100)| * 10 ^ 2 < 2 ^ 96 := by
    rw [habs]
    linarith
  have hmul : (k : ℚ) / 100 * 100 = k := by ring
  have hfits64 : FitsI64 k := by
    rw [abs_lt] at hk
    constructor <;> omega
  rw [decimalToCents, hd.mul _ 100 (representable_of_hasScale (by norm_num) hscale hfits)
    representable_hundred (cents_representable le_rfl (by norm_num) hscale hfits), hmul,
    Option.map_some, Binary64.nearest_intCast hk, Binary64.toI64_intCast hfits64]

theorem InRange.foldlM (hd : d.Lawful) (h : InRange cfg lines n) (met : List PolicyLine)
    (s : CapState) : ∃ s', met.foldlM (capStep d cfg lines) s = some s' := by
  induction met generalizing s with
  | nil => exact ⟨s, rfl⟩
  | cons line met ih =>
    have hstep : ∃ mid, capStep d cfg lines s line = some mid := by
      rw [capStep]
      split
      · exact ⟨s, rfl⟩
      · dsimp only
        split
        · exact ⟨s, rfl⟩
        · obtain ⟨hscale, hfits⟩ := h.trueSum_fits line.txnDate
          obtain ⟨actual, hactual⟩ := Option.isSome_iff_exists.mp
            (decimalToCents_isSome hd h.two_le h.le hscale hfits)
          obtain ⟨cap, hcap⟩ := Option.isSome_iff_exists.mp
            (decimalToCents_isSome hd h.two_le h.le h.capScale h.capFits)
          rw [h.daySum_eq hd, Option.bind_eq_bind, Option.bind_some, hactual, hcap]
          split
          · exact ⟨_, rfl⟩
          · exact ⟨_, rfl⟩
    obtain ⟨mid, hmid⟩ := hstep
    obtain ⟨s', hs'⟩ := ih mid
    rw [List.foldlM_cons, hmid]
    exact ⟨s', hs'⟩

end

/-! ## Evaluation of a category cap -/

section

variable {Json : Type} {d : Decimal.Checked} {serde : Serde Json} {policy : Policy Json}
  {cfg : CategoryCapConfig} {lines : List PolicyLine}

theorem evaluate_eq (hkind : policy.kind = .categoryCap)
    (hcfg : serde.categoryCap policy.config = some cfg) :
    evaluate d serde policy lines = (lines.foldlM (capStep d cfg lines) {}).map CapState.out := by
  rw [evaluate, hkind]
  show evalCategoryCap d serde policy lines = _
  rw [evalCategoryCap, hcfg]

theorem reports_of_evaluate (hkind : policy.kind = .categoryCap)
    (hcfg : serde.categoryCap policy.config = some cfg) {vs : List Violation}
    (h : evaluate d serde policy lines = some vs) : Reports d cfg lines vs := by
  rw [evaluate_eq hkind hcfg] at h
  obtain ⟨s, hs, rfl⟩ := Option.map_eq_some_iff.mp h
  exact reports_of_foldlM hs

/-- A cap is reported once for each date that exceeds it, and the order of the lines does not matter
where the sums are exact. -/
theorem evaluate_categoryCap (d : Decimal.Checked) (serde : Serde Json) {policy : Policy Json}
    (hkind : policy.kind = .categoryCap) (lines : List PolicyLine) :
    (serde.categoryCap policy.config = none → evaluate d serde policy lines = some []) ∧
      ∀ cfg, serde.categoryCap policy.config = some cfg →
        (∀ vs, evaluate d serde policy lines = some vs → Reports d cfg lines vs) ∧
          (d.Lawful →
            (∀ k : ℤ, |k| < 2 ^ 53 → decimalToCents d (k / 100) = some k) ∧
            ∀ n, InRange cfg lines n →
              (∀ date, daySum d cfg.category lines date =
                some (trueSum cfg.category lines date)) ∧
              ∃ vs, evaluate d serde policy lines = some vs ∧
                ∀ others : List PolicyLine, others.Perm lines →
                  ∃ ws, evaluate d serde policy others = some ws ∧ ws.Perm vs) := by
  refine ⟨fun hnone => ?_, fun cfg hcfg => ⟨fun vs hvs => reports_of_evaluate hkind hcfg hvs,
    fun hd => ⟨fun k hk => decimalToCents_eq hd hk, fun n hrange => ⟨hrange.daySum_eq hd, ?_⟩⟩⟩⟩
  · rw [evaluate, hkind]
    show evalCategoryCap d serde policy lines = _
    rw [evalCategoryCap, hnone]
  · have hsome : ∀ {others : List PolicyLine}, InRange cfg others n →
        ∃ ws, evaluate d serde policy others = some ws := by
      intro others hothers
      obtain ⟨s, hs⟩ := hothers.foldlM hd others {}
      exact ⟨s.out, by rw [evaluate_eq hkind hcfg, hs]; rfl⟩
    obtain ⟨vs, hvs⟩ := hsome hrange
    refine ⟨vs, hvs, fun others hperm => ?_⟩
    obtain ⟨ws, hws⟩ := hsome (hrange.perm hperm)
    refine ⟨ws, hws, (reports_of_evaluate hkind hcfg hvs).perm
      (reports_of_evaluate hkind hcfg hws) hperm fun date => ?_⟩
    rw [(hrange.perm hperm).daySum_eq hd, hrange.daySum_eq hd, trueSum_perm hperm]

end

/-! ## A cap on meals -/

namespace Sample

def serde : Serde CategoryCapConfig where
  categoryCap cfg := some cfg
  receiptRequired _ := none

def mealsCap : Policy CategoryCapConfig where
  id := 1
  name := "Meals cap"
  kind := .categoryCap
  config := { category := "meals", maxPerDay := 100 }
  severity := .hard

def march12 : NaiveDate where
  year := 2024
  month := 3
  day := 12
  year_range := by decide
  month_range := by decide
  day_range := by decide

def meal (amount : ℚ) : PolicyLine where
  category := "meals"
  txnDate := march12
  amount := amount
  hasReceipt := true

theorem inRange_meals : InRange mealsCap.config [meal 80, meal 45] 2 where
  two_le := le_rfl
  le := by norm_num
  scale l hl := by
    rcases List.mem_pair.mp (List.mem_of_mem_filter hl) with rfl | rfl
    · exact ⟨8000, by norm_num [meal]⟩
    · exact ⟨4500, by norm_num [meal]⟩
  fits := by
    norm_num [inCategory, meal, mealsCap]
  capScale := ⟨10000, by norm_num [mealsCap]⟩
  capFits := by norm_num [mealsCap]

end Sample

open Sample

/-- Two meals, in either order. -/
theorem evaluate_categoryCap_meals :
    ∃ vs ws, evaluate Decimal.checkedNearest serde mealsCap [meal 80, meal 45] = some vs ∧
      Reports Decimal.checkedNearest mealsCap.config [meal 80, meal 45] vs ∧
      evaluate Decimal.checkedNearest serde mealsCap [meal 45, meal 80] = some ws ∧ ws.Perm vs := by
  have hcap : mealsCap.kind = .categoryCap := rfl
  obtain ⟨hreports, hexact⟩ := (evaluate_categoryCap Decimal.checkedNearest serde hcap
    [meal 80, meal 45]).2 mealsCap.config rfl
  obtain ⟨-, vs, hvs, hperm⟩ := (hexact Decimal.checkedNearest_lawful).2 2 inRange_meals
  obtain ⟨ws, hws, hsame⟩ := hperm [meal 45, meal 80] (List.Perm.swap (meal 80) (meal 45) [])
  exact ⟨vs, ws, hvs, hreports vs hvs, hws, hsame⟩

/-- A meal of 100.005 exceeds the cap, and the amount that is shown for it is 100. -/
theorem evaluate_drops_fraction :
    evaluate Decimal.checkedNearest serde mealsCap [meal 100.005] =
        some [.categoryCapOver "meals" march12 10000 10000] ∧
      trueSum "meals" [meal 100.005] march12 = 100.005 ∧
      (mealsCap.config.maxPerDay : ℚ) < 100.005 ∧ ((10000 : ℤ) : ℚ) / 100 ≠ 100.005 := by
  refine ⟨?_, ?_, ?_, by norm_num⟩
  · decide +kernel
  · norm_num [trueSum, meal]
  · norm_num [mealsCap]

end OpenAccounting.CategoryCaps
