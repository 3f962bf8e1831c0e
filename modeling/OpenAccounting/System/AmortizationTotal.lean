import OpenAccounting.System.AmortizationRun
import OpenAccounting.System.JournalOps

/-!
# What a schedule posts in all

The worker splits the total into equal parts of 28 digits and gives the last period what the parts
leave over.  The journal keeps four decimals of each amount, so the over is lost, and the entries
add up to the total exactly when the equal part has four decimals itself (`exhausts_iff`).
-/

namespace OpenAccounting.Amortization

open Rounding Decimal

/-! ## Integers -/

theorem close_abs {x y : ℚ} (hx : 0 ≤ x) (hxy : |y - x| ≤ 1 / 100) :
    |(|y| : ℚ) - x| ≤ 1 / 100 := by
  have hle := abs_abs_sub_abs_le y x
  rw [abs_of_nonneg hx] at hle
  exact hle.trans hxy

theorem close_roundAway {x y : ℚ} (hy : |y - x| ≤ 1 / 100) : |(roundAway y : ℚ) - x| ≤ 51 / 100 := by
  have hround := abs_le.mp (abs_roundAway_sub_le y)
  rw [abs_le] at hy
  rw [abs_le]
  constructor <;> linarith only [hround.1, hround.2, hy.1, hy.2]

/-- If the rounded parts of `m` add up to `m`, then `m` is divisible.  For two parts the point is
half way between two integers, and both parts have to be rounded from there. -/
theorem dvd_of_rounded_parts {m n : ℤ} {part last : ℚ} (hm : 0 ≤ m) (hn : 0 < n)
    (hpart : |part - m / n| ≤ 1 / 100) (hlast : |last - m / n| ≤ 1 / 100)
    (htwo : n = 2 → part = last) (hsum : (n - 1) * roundAway |part| + roundAway |last| = m) :
    n ∣ m := by
  have hnq : (0 : ℚ) < n := by exact_mod_cast hn
  have hq : (0 : ℚ) ≤ (m : ℚ) / n := by
    have : (0 : ℚ) ≤ m := by exact_mod_cast hm
    positivity
  have hlast' := close_abs hq hlast
  have hround := close_roundAway (close_abs hq hpart)
  have hround' := close_roundAway hlast'
  obtain ⟨r, hr⟩ : ∃ r, roundAway |part| = r := ⟨_, rfl⟩
  obtain ⟨q, hq'⟩ : ∃ q, roundAway |last| = q := ⟨_, rfl⟩
  rw [hr] at hround hsum
  rw [hq'] at hround' hsum
  rw [abs_le] at hlast' hround hround'
  -- The two rounded parts differ by one at most.
  have hupper : q - r < 2 := by
    have : (q : ℚ) - r < 2 := by linarith only [hround.1, hround'.2]
    exact_mod_cast this
  have hlower : -2 < q - r := by
    have : (-2 : ℚ) < q - r := by linarith only [hround.2, hround'.1]
    exact_mod_cast this
  have hdiff : m - n * r = q - r := by
    rw [← hsum]
    ring
  by_cases hone : n = 1
  · rw [hone]
    exact one_dvd m
  by_cases hequal : q = r
  · exact ⟨r, by linarith only [hdiff, hequal]⟩
  · exfalso
    have hne_two : n ≠ 2 := fun h => hequal (by rw [← hq', ← hr, htwo h])
    have hthree : (3 : ℚ) ≤ n := by
      have : 3 ≤ n := by omega
      exact_mod_cast this
    -- With three parts or more the quotient is close to the rounded part.
    have hquot : (m : ℚ) / n - r = ((q - r : ℤ) : ℚ) / n := by
      rw [← hdiff]
      push_cast
      field_simp
    have hsmall : |((q - r : ℤ) : ℚ) / n| ≤ 1 / 3 := by
      have hone : |((q - r : ℤ) : ℚ)| ≤ 1 := by
        have : |q - r| ≤ 1 := by
          rw [abs_le]
          omega
        exact_mod_cast this
      rw [abs_div, abs_of_pos hnq, div_le_div_iff₀ hnq (by norm_num)]
      linarith only [hone, hthree]
    rw [← hquot, abs_le] at hsmall
    refine hequal (hq'.symm.trans (roundAway_of_abs_sub_lt ?_))
    rw [abs_lt]
    constructor <;> linarith only [hsmall.1, hsmall.2, hlast'.1, hlast'.2]

/-! ## The parts -/

/-- Every period but the last. -/
def part (d : Decimal.Arith) (total : ℚ) (periods : ℤ) : ℚ := d.div total periods

def lastPart (d : Decimal.Arith) (total : ℚ) (periods : ℤ) : ℚ :=
  d.add (part d total periods) (d.sub total (d.mul (part d total periods) periods))

/-- A total as the column has it, with a number of periods. -/
structure Splits (total : ℚ) (periods : ℤ) : Prop where
  scale : HasScale 4 total
  nonneg : 0 ≤ total
  small : total < 10 ^ 16
  positive : 0 < periods
  fits : periods < 2 ^ 31

variable {d : Decimal.Arith} {total : ℚ} {periods : ℤ}

theorem Splits.positive_cast (h : Splits total periods) : (1 : ℚ) ≤ periods := by
  exact_mod_cast h.positive

theorem Splits.total_representable (h : Splits total periods) : Representable total := by
  refine representable_of_hasScale (by decide) h.scale ?_
  rw [abs_of_nonneg h.nonneg]
  have := h.small
  norm_num at this ⊢
  linarith

theorem Splits.periods_representable (h : Splits total periods) : Representable periods := by
  refine representable_intCast ?_
  have := h.positive
  have := h.fits
  rw [abs_of_pos h.positive]
  omega

theorem Splits.quotient_le (h : Splits total periods) : total / periods ≤ total :=
  div_le_self h.nonneg h.positive_cast

theorem Splits.quotient_nonneg (h : Splits total periods) : 0 ≤ total / periods :=
  div_nonneg h.nonneg (zero_le_one.trans h.positive_cast)

theorem Splits.quotient_mul (h : Splits total periods) : total / periods * periods = total :=
  div_mul_cancel₀ _ (zero_lt_one.trans_le h.positive_cast).ne'

theorem Splits.rounds_part (h : Splits total periods) (hd : d.Lawful) :
    Rounds (part d total periods) (total / periods) := by
  refine hd.div _ _ h.total_representable h.periods_representable
    (zero_lt_one.trans_le h.positive_cast).ne' ?_
  rw [abs_of_nonneg h.quotient_nonneg]
  have := h.quotient_le
  have := h.small
  norm_num at this ⊢
  linarith

theorem Splits.exact (h : Splits total periods) (hd : d.Lawful)
    (hq : Representable (total / periods)) :
    part d total periods = total / periods ∧ lastPart d total periods = total / periods := by
  have hpart := (h.rounds_part hd).exact hq
  have hsmall := h.small
  have hle := h.quotient_le
  have hmul : d.mul (total / periods) periods = total := by
    have hrounds := hd.mul _ _ hq h.periods_representable
    rw [h.quotient_mul, abs_of_nonneg h.nonneg] at hrounds
    refine (hrounds ?_).exact h.total_representable
    norm_num at hsmall ⊢
    linarith
  have hzero : Representable 0 := ⟨0, 0, by decide, by decide, by simp⟩
  have hsub : d.sub total total = 0 := by
    have hrounds := hd.sub _ _ h.total_representable h.total_representable
    rw [sub_self, abs_zero] at hrounds
    exact (hrounds (by positivity)).exact hzero
  have hadd : d.add (total / periods) 0 = total / periods := by
    have hrounds := hd.add _ _ hq hzero
    rw [add_zero, abs_of_nonneg h.quotient_nonneg] at hrounds
    refine (hrounds ?_).exact hq
    norm_num at hsmall ⊢
    linarith
  refine ⟨hpart, ?_⟩
  rw [lastPart, hpart, hmul, hsub, hadd]

/-- A result of the size of a total is rounded at the ninth decimal or later. -/
theorem abs_sub_le_of_rounds {r x : ℚ} (h : Rounds r x) (hx : |x| ≤ 2 * 10 ^ 16) :
    |r - x| ≤ 1 / 10 ^ 9 := by
  refine h.close.trans ?_
  norm_num at hx ⊢
  linarith

theorem abs_le_of_close {x y : ℚ} (hy : |y| ≤ 10 ^ 16) (hxy : |x - y| ≤ 1) : |x| ≤ 2 * 10 ^ 16 := by
  have htri := abs_add_le (x - y) y
  rw [sub_add_cancel] at htri
  norm_num at hy ⊢
  linarith

/-- The equal parts together differ from the total by their errors alone. -/
theorem Splits.product_close (h : Splits total periods) (hd : d.Lawful) :
    |part d total periods * periods - total| ≤ 1 / 10 ^ 9 := by
  have hnpos : (0 : ℚ) < periods := zero_lt_one.trans_le h.positive_cast
  have hnlt : (periods : ℚ) < 2 ^ 31 := by exact_mod_cast h.fits
  have hclose := (h.rounds_part hd).close
  rw [abs_of_nonneg h.quotient_nonneg] at hclose
  calc |part d total periods * periods - total|
      = |part d total periods - total / periods| * periods := by
        rw [← abs_of_pos hnpos, ← abs_mul, abs_of_pos hnpos, sub_mul, h.quotient_mul]
    _ ≤ (total / periods / 10 ^ 27 + 1 / 10 ^ 28) * periods :=
        mul_le_mul_of_nonneg_right hclose hnpos.le
    _ = total / 10 ^ 27 + periods / 10 ^ 28 := by
        rw [add_mul, div_right_comm, div_mul_cancel₀ _ hnpos.ne', one_div_mul_eq_div]
    _ ≤ 1 / 10 ^ 9 := by
        have := h.small
        norm_num at this hnlt ⊢
        linarith

theorem Splits.remainder_close (h : Splits total periods) (hd : d.Lawful) :
    Representable (d.sub total (d.mul (part d total periods) periods)) ∧
      |d.sub total (d.mul (part d total periods) periods)| ≤ 1 / 10 ^ 8 := by
  have htotal : |total| ≤ 10 ^ 16 := by
    rw [abs_of_nonneg h.nonneg]
    exact h.small.le
  have hproduct := h.product_close hd
  have hlarge : |part d total periods * periods| ≤ 2 * 10 ^ 16 :=
    abs_le_of_close htotal (hproduct.trans (by norm_num))
  have hmul := hd.mul _ _ (h.rounds_part hd).representable h.periods_representable
    (hlarge.trans (by norm_num))
  have hover : |total - d.mul (part d total periods) periods| ≤ 1 / 10 ^ 9 + 1 / 10 ^ 9 := by
    rw [abs_sub_comm]
    exact (abs_sub_le _ _ _).trans (add_le_add (abs_sub_le_of_rounds hmul hlarge) hproduct)
  have hsub := hd.sub _ _ h.total_representable hmul.representable (hover.trans (by norm_num))
  refine ⟨hsub.representable, ?_⟩
  have hrounded := abs_sub_le_of_rounds hsub (hover.trans (by norm_num))
  have htri := abs_add_le (d.sub total (d.mul (part d total periods) periods) -
    (total - d.mul (part d total periods) periods)) (total - d.mul (part d total periods) periods)
  rw [sub_add_cancel] at htri
  norm_num at htri hrounded hover ⊢
  linarith

theorem Splits.close (h : Splits total periods) (hd : d.Lawful) :
    |part d total periods - total / periods| ≤ 1 / 10 ^ 6 ∧
      |lastPart d total periods - total / periods| ≤ 1 / 10 ^ 6 := by
  have hquotient : |total / periods| ≤ 10 ^ 16 := by
    rw [abs_of_nonneg h.quotient_nonneg]
    exact h.quotient_le.trans h.small.le
  have hpart := abs_sub_le_of_rounds (h.rounds_part hd) (hquotient.trans (by norm_num))
  obtain ⟨hrepresentable, hremainder⟩ := h.remainder_close hd
  refine ⟨hpart.trans (by norm_num), ?_⟩
  have hsum : |part d total periods + d.sub total (d.mul (part d total periods) periods) -
      total / periods| ≤ 1 / 10 ^ 9 + 1 / 10 ^ 8 := by
    rw [add_sub_right_comm]
    exact (abs_add_le _ _).trans (add_le_add hpart hremainder)
  have hlarge := abs_le_of_close hquotient (hsum.trans (by norm_num))
  have hadd := hd.add _ _ (h.rounds_part hd).representable hrepresentable
    (hlarge.trans (by norm_num))
  refine (abs_sub_le _ _ _).trans
    ((add_le_add (abs_sub_le_of_rounds hadd hlarge) hsum).trans (by norm_num))

/-! ## The sum of the entries -/

/-- The rounded parts add up to the total if and only if its share per period has four decimals. -/
theorem Splits.sum_iff (h : Splits total periods) (hd : d.Lawful) :
    (periods - 1) * roundDp 4 |part d total periods| + roundDp 4 |lastPart d total periods| = total ↔
      HasScale 4 (total / periods) := by
  constructor
  · intro hsum
    obtain ⟨m, hm⟩ := h.scale
    have hn := h.positive_cast
    have hnpos : (0 : ℚ) < periods := zero_lt_one.trans_le hn
    have hquot : total / periods * 10 ^ 4 = m / periods := by
      rw [hm]
      field_simp
    obtain ⟨hpart, hlast⟩ := h.close hd
    have hscaled : ∀ {x : ℚ}, |x - total / periods| ≤ 1 / 10 ^ 6 →
        |x * 10 ^ 4 - m / periods| ≤ 1 / 100 := by
      intro x hx
      rw [← hquot, ← sub_mul, abs_mul, abs_of_pos (show (0 : ℚ) < 10 ^ 4 by positivity)]
      norm_num at hx ⊢
      linarith
    have habs : ∀ x : ℚ, |x * 10 ^ 4| = |x| * 10 ^ 4 := fun x => by
      rw [abs_mul, abs_of_pos (show (0 : ℚ) < 10 ^ 4 by positivity)]
    have hdvd : periods ∣ m := by
      refine dvd_of_rounded_parts ?_ h.positive (hscaled hpart) (hscaled hlast) ?_ ?_
      · have hnonneg := h.nonneg
        rw [hm] at hnonneg
        have : (0 : ℚ) ≤ m := by
          have hpow : (0 : ℚ) < 10 ^ 4 := by positivity
          exact nonneg_of_mul_nonneg_left (by rwa [div_eq_mul_inv] at hnonneg) (inv_pos.mpr hpow)
        exact_mod_cast this
      · -- Half of a total is a decimal.
        rintro rfl
        have hhalf : Representable (total / (2 : ℤ)) := by
          refine representable_of_hasScale (n := 5) (by decide) ⟨5 * m, ?_⟩ ?_
          · rw [hm]
            push_cast
            ring
          · rw [abs_of_nonneg h.quotient_nonneg]
            have := h.quotient_le
            have := h.small
            norm_num at this ⊢
            linarith
        obtain ⟨hp, hl⟩ := h.exact hd hhalf
        rw [hp, hl]
      · have htotal : total * 10 ^ 4 = m := by rw [hm, div_mul_cancel₀ _ (by positivity)]
        have hscale := congrArg (· * (10 : ℚ) ^ 4) hsum
        simp only [roundDp] at hscale
        rw [htotal, add_mul, mul_assoc, div_mul_cancel₀ _ (by positivity),
          div_mul_cancel₀ _ (by positivity), ← habs, ← habs] at hscale
        exact_mod_cast hscale
    obtain ⟨c, rfl⟩ := hdvd
    refine ⟨c, ?_⟩
    rw [hm]
    push_cast
    field_simp
  · intro hq
    have hrepresentable : Representable (total / periods) := by
      refine representable_of_hasScale (by decide) hq ?_
      rw [abs_of_nonneg h.quotient_nonneg]
      have := h.quotient_le
      have := h.small
      norm_num at this ⊢
      linarith
    obtain ⟨hp, hl⟩ := h.exact hd hrepresentable
    rw [hp, hl, abs_of_nonneg h.quotient_nonneg, roundDp_of_hasScale hq, ← add_one_mul,
      sub_add_cancel, mul_comm, h.quotient_mul]

theorem sum_expected {s₀ : AmortizationSchedule} {n : ℕ} (hn : ((n + 1 : ℕ) : ℤ) = s₀.periods) :
    (((List.range (n + 1)).map (expected d s₀)).map fun e => e.2.2).sum =
      (s₀.periods - 1) * roundDp 4 |part d s₀.totalAmount s₀.periods| +
        roundDp 4 |lastPart d s₀.totalAmount s₀.periods| := by
  have hfront : ((List.range n).map (expected d s₀)).map (fun e => e.2.2) =
      List.replicate n (roundDp 4 |part d s₀.totalAmount s₀.periods|) := by
    rw [List.map_map, List.eq_replicate_iff]
    refine ⟨by simp, fun x hx => ?_⟩
    obtain ⟨j, hj, rfl⟩ := List.mem_map.mp hx
    have hne : (j : ℤ) + 1 ≠ s₀.periods := by
      have := List.mem_range.mp hj
      omega
    simp only [Function.comp_apply, expected, periodAmount, if_neg hne, part]
  have hlast : (expected d s₀ n).2.2 = roundDp 4 |lastPart d s₀.totalAmount s₀.periods| := by
    have heq : (n : ℤ) + 1 = s₀.periods := by exact_mod_cast hn
    simp only [expected, periodAmount, if_pos heq, lastPart, part]
  rw [List.range_succ, List.map_append, List.map_append, List.sum_append, hfront,
    List.sum_replicate, nsmul_eq_mul, List.map_singleton, List.map_singleton, List.sum_singleton,
    hlast, ← hn]
  push_cast
  rw [add_sub_cancel_right]

/-- The entries of the schedule add up to the total. -/
def Exhausts (sh : Shared) (schedule : Uuid) (total : ℚ) : Prop :=
  ((sh.entriesOf schedule).map fun e => amountOf sh.db.books e.txn).sum = total

theorem Accepted.splits {db db' : Db} {id : Uuid} {form : NewAmortizationForm}
    {s₀ : AmortizationSchedule} (h : Accepted db db' id form s₀) (hscale : HasScale 4 form.totalAmount) :
    s₀.totalAmount = form.totalAmount ∧ Splits form.totalAmount form.periods := by
  have hsmall : form.totalAmount < 10 ^ 16 := by
    have hstored := h.stored
    unfold amountColumn numeric at hstored
    split at hstored
    · rename_i hlt
      rw [roundDp_of_hasScale hscale, abs_of_nonneg h.total] at hlt
      exact hlt
    · cases hstored
  exact ⟨numeric_of_hasScale hscale h.stored, hscale, h.total, hsmall, h.periods,
    form.periods_fits.2⟩

/-- A created schedule that sweeps have posted to its last period adds up to its total exactly when
the total over the number of periods has four decimals. -/
theorem exhausts_iff (hd : d.Lawful) {db db' : Db} {req : Request} {auth : Option Uuid}
    {ledger id : Uuid} {form : NewAmortizationForm} {sweeps : List Sweep} (hdb : Keyed db)
    (hscale : HasScale 4 form.totalAmount) (hcreate : create db req auth ledger form = (.ok id, db'))
    (hdone : Completed (runSweeps d { db := db' } sweeps) id) :
    Exhausts (runSweeps d { db := db' } sweeps) id form.totalAmount ↔
      HasScale 4 (form.totalAmount / form.periods) := by
  obtain ⟨s₀, haccepted⟩ := create_spec hcreate
  obtain ⟨htotal, hsplits⟩ := haccepted.splits hscale
  obtain ⟨n, hn, hprogress⟩ := progress_of_completed haccepted hdb hdone
  have hamounts := congrArg (fun l => (l.map fun e => e.2.2).sum) hprogress.entries
  have hsum : (((List.range (n + 1)).map (expected d s₀)).map fun e => e.2.2).sum = _ :=
    sum_expected (hn.trans haccepted.periods_eq.symm)
  rw [htotal, haccepted.periods_eq] at hsum
  rw [haccepted.id_eq] at hamounts
  rw [← hsplits.sum_iff hd, ← hsum, ← hamounts, List.map_map]
  rfl

namespace Sample

open OpenAccounting.Sample

theorem fitsI32_three : FitsI32 3 := by decide

/-- A total over three monthly periods from 15 March on. -/
def threeMonths (total : ℚ) : NewAmortizationForm where
  description := "Insurance"
  sourceAccountId := cash
  targetAccountId := sales
  totalAmount := total
  periodUnit := "monthly"
  periods := 3
  startDate := march 15
  periods_fits := fitsI32_three

def scheduleId : Uuid := (request 1).rowId 0

/-- The sample ledger with the schedule. -/
def scheduled (form : NewAmortizationForm) : Except AppError Uuid × Db :=
  create OpenAccounting.Sample.db (request 1) (some owner) ledgerId form

def sweep (seed : ℕ) : Sweep where
  today := (Calendar.NaiveDate.fromYmdOpt 2027 1 1).getD default
  actor := owner
  draw _ := request seed

/-- A sweep for each of the three periods. -/
def threeSweeps : List Sweep := [sweep 2, sweep 3, sweep 4]

theorem keyed : Keyed OpenAccounting.Sample.db :=
  ⟨List.nodup_nil, List.forall_mem_nil _⟩

theorem scheduled_ok {total : ℚ} (h : (scheduled (threeMonths total)).1 = .ok scheduleId) :
    scheduled (threeMonths total) = (.ok scheduleId, (scheduled (threeMonths total)).2) :=
  Prod.ext h rfl

end Sample

/-- A total of `100` over three periods posts `33.3333` three times. -/
theorem third_not_exhausts :
    nearest.Lawful ∧ Keyed OpenAccounting.Sample.db ∧
      HasScale 4 (Sample.threeMonths 100).totalAmount ∧
      (Sample.scheduled (Sample.threeMonths 100)).1 = .ok Sample.scheduleId ∧
      Completed (runSweeps nearest { db := (Sample.scheduled (Sample.threeMonths 100)).2 }
        Sample.threeSweeps) Sample.scheduleId ∧
      ¬ Exhausts (runSweeps nearest { db := (Sample.scheduled (Sample.threeMonths 100)).2 }
        Sample.threeSweeps) Sample.scheduleId 100 := by
  refine ⟨nearest_lawful, Sample.keyed, by decide +kernel, by decide +kernel, ?_, ?_⟩
  · unfold Completed
    decide +kernel
  · unfold Exhausts
    decide +kernel

/-- A total of `300` over three periods is posted whole. -/
theorem exhausts_iff_hundreds :
    Exhausts (runSweeps nearest { db := (Sample.scheduled (Sample.threeMonths 300)).2 }
      Sample.threeSweeps) Sample.scheduleId (Sample.threeMonths 300).totalAmount := by
  refine (exhausts_iff nearest_lawful Sample.keyed (by decide +kernel)
    (Sample.scheduled_ok (by decide +kernel)) ?_).mpr (by decide +kernel)
  unfold Completed
  decide +kernel

end OpenAccounting.Amortization
