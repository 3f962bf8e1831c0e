import OpenAccounting.Handlers.FixedAssets
import OpenAccounting.System.JournalOps
import Mathlib.Algebra.Order.Floor.Semiring

/-!
# Depreciation of an asset

`calculate_depreciation` called month after month on one asset.  The accumulated depreciation never
decreases and never passes cost minus salvage.  Whether it gets there depends on the method.  A
straight-line charge below half a unit of the fourth decimal is stored as nothing.  A
declining-balance charge is rounded to cents, and is nothing once the book value is at most three
hundredths for each year of life, which has to be covered by the salvage value
(`finishes_iff_completes`).
-/

namespace OpenAccounting.FixedAssets

open Calendar Commit Depreciation Relational Rounding

/-! ## Calls -/

/-- One call of `calculate_depreciation`. -/
structure Call where
  req : Request
  auth : Option Uuid
  ledger : Uuid

def step (asset : Uuid) (db : Db) (c : Call) : Db :=
  (calculateDepreciation db c.req c.auth c.ledger asset).2

/-- The caller may write to the ledger of the path. -/
def Authorized (db : Db) (c : Call) : Prop :=
  ∃ user l, c.auth = some user ∧ db.ensureWriter user c.ledger = .ok l

/-- Cost minus salvage. -/
def depreciable (a : FixedAsset) : ℚ := a.purchaseCost - a.salvageValue

/-- What is left to depreciate. -/
def undepreciated (a : FixedAsset) : ℚ := depreciable a - a.accumulatedDepreciation

/-- All of it is depreciated, and the status says so. -/
def FullyDepreciated (a : FixedAsset) : Prop :=
  a.status = .fullyDepreciated ∧ a.accumulatedDepreciation = depreciable a

instance (a : FixedAsset) : Decidable (FullyDepreciated a) := instDecidableAnd

structure Depreciating (a : FixedAsset) : Prop where
  cost_fits : amountColumn a.purchaseCost = some a.purchaseCost
  cost_scale : HasScale 2 a.purchaseCost
  salvage_scale : HasScale 2 a.salvageValue
  salvage_nonneg : 0 ≤ a.salvageValue
  salvage_lt : a.salvageValue < a.purchaseCost
  life_pos : 1 ≤ a.usefulLifeYears
  accumulated_scale : HasScale 4 a.accumulatedDepreciation
  accumulated_nonneg : 0 ≤ a.accumulatedDepreciation
  accumulated_le : a.accumulatedDepreciation ≤ depreciable a
  all_of_status : a.status = .fullyDepreciated → a.accumulatedDepreciation = depreciable a

/-- Every charge is stored as something. -/
def Charges (a : FixedAsset) : Prop :=
  match a.depreciationMethod with
  | .straightLine => 0 < wrapI32 (a.usefulLifeYears * 12) ∧
      wrapI32 (a.usefulLifeYears * 12) ≤ 20000 * depreciable a
  | .decliningBalance => 3 * a.usefulLifeYears ≤ 100 * a.salvageValue

/-- The asset is completely depreciated in the end. -/
def Completes (a : FixedAsset) : Prop :=
  Charges a ∨ a.accumulatedDepreciation = depreciable a ∧ (proposedCharge a).isSome

instance (a : FixedAsset) : Decidable (Charges a) := by
  unfold Charges
  cases a.depreciationMethod <;> infer_instance

instance (a : FixedAsset) : Decidable (Completes a) :=
  inferInstanceAs (Decidable (_ ∨ _ ∧ _))

/-- Finitely many calls of callers who may write depreciate the asset completely. -/
def Finishes (asset : Uuid) (db : Db) : Prop :=
  ∃ n, ∀ calls : List Call, (∀ c ∈ calls, Authorized db c) → calls.length = n →
    ∃ a, findAsset (Runs.exec (step asset) db calls) asset = some a ∧ FullyDepreciated a

/-- From one state to a later one accumulated depreciation does not decrease, and it stays within
cost minus salvage. -/
def Grows (asset : Uuid) (db db' : Db) : Prop :=
  ∀ a, findAsset db asset = some a → ∃ a', findAsset db' asset = some a' ∧
    a.accumulatedDepreciation ≤ a'.accumulatedDepreciation ∧
    a'.accumulatedDepreciation ≤ depreciable a'

/-! ## One month -/

/-- What a call of someone who may write makes of the asset. -/
def monthly (req : Request) (a : FixedAsset) : FixedAsset :=
  if a.status = .active then
    match proposedCharge a with
    | some proposed =>
      chargeAsset req (roundDp 4 (depreciated a proposed).1) (depreciated a proposed).2 a
    | none => a
  else a

section

variable {a : FixedAsset} {req : Request} {proposed : ℚ}

theorem hasScale_depreciable (h : Depreciating a) : HasScale 4 (depreciable a) := by
  rw [depreciable, sub_eq_add_neg]
  exact (h.cost_scale.add h.salvage_scale.neg).mono (by decide)

theorem hasScale_undepreciated (h : Depreciating a) : HasScale 4 (undepreciated a) := by
  rw [undepreciated, sub_eq_add_neg]
  exact (hasScale_depreciable h).add h.accumulated_scale.neg

/-- The charge as it is capped. -/
def toAdd (a : FixedAsset) (proposed : ℚ) : ℚ :=
  capAtDepreciable proposed a.accumulatedDepreciation a.purchaseCost a.salvageValue

theorem toAdd_eq (h : Depreciating a) :
    toAdd a proposed = max (min proposed (undepreciated a)) 0 := by
  have hle := h.accumulated_le
  have hleft : max (undepreciated a) 0 = undepreciated a :=
    max_eq_left (sub_nonneg.mpr hle)
  rw [toAdd, capAtDepreciable]
  exact congrArg (fun x => max (min proposed x) 0) hleft

theorem toAdd_nonneg (h : Depreciating a) (proposed : ℚ) : 0 ≤ toAdd a proposed := by
  rw [toAdd_eq h]
  exact le_max_right _ _

theorem toAdd_le (h : Depreciating a) (proposed : ℚ) : toAdd a proposed ≤ undepreciated a := by
  rw [toAdd_eq h]
  exact max_le (min_le_right _ _) (sub_nonneg.mpr h.accumulated_le)

theorem roundDp_total (h : Depreciating a) :
    roundDp 4 (depreciated a proposed).1 =
      a.accumulatedDepreciation + roundDp 4 (toAdd a proposed) :=
  roundDp_add h.accumulated_scale h.accumulated_nonneg (toAdd_nonneg h _)

theorem roundDp_toAdd_le (h : Depreciating a) (proposed : ℚ) :
    roundDp 4 (toAdd a proposed) ≤ undepreciated a :=
  roundDp_le (hasScale_undepreciated h) (toAdd_le h _)

theorem amountColumn_total (h : Depreciating a) :
    amountColumn (depreciated a proposed).1 = some (roundDp 4 (depreciated a proposed).1) := by
  have hadd := toAdd_le h proposed
  have hnonneg := add_nonneg h.accumulated_nonneg (toAdd_nonneg h proposed)
  have hcost := h.salvage_nonneg.trans h.salvage_lt.le
  have hle : |(depreciated a proposed).1| ≤ |a.purchaseCost| := by
    have htotal : a.accumulatedDepreciation + toAdd a proposed ≤ a.purchaseCost := by
      have hsalvage := h.salvage_nonneg
      rw [undepreciated, depreciable] at hadd
      linarith
    exact abs_le_abs_of_nonneg hnonneg htotal
  obtain ⟨total, htotal⟩ := Option.isSome_iff_exists.mp
    (numeric_isSome_of_abs_le hle (Option.isSome_iff_exists.mpr ⟨_, h.cost_fits⟩))
  exact htotal.trans (congrArg some (numeric_eq_some htotal))

theorem monthly_active (h : Depreciating a) (hactive : a.status = .active)
    (hproposed : proposedCharge a = some proposed) :
    monthly req a = chargeAsset req (a.accumulatedDepreciation + roundDp 4 (toAdd a proposed))
      (if undepreciated a ≤ toAdd a proposed then .fullyDepreciated else .active) a := by
  have hstatus : (depreciated a proposed).2 =
      if undepreciated a ≤ toAdd a proposed then .fullyDepreciated else .active := by
    have hiff : depreciable a ≤ a.accumulatedDepreciation + toAdd a proposed ↔
        undepreciated a ≤ toAdd a proposed := by
      rw [undepreciated, sub_le_iff_le_add']
    exact if_congr hiff rfl rfl
  rw [monthly, if_pos hactive, hproposed]
  dsimp only
  rw [roundDp_total h, hstatus]

theorem monthly_of_none (hproposed : proposedCharge a = none) : monthly req a = a := by
  rw [monthly, hproposed, ite_self]

theorem monthly_of_inactive (h : a.status ≠ .active) : monthly req a = a := by
  rw [monthly, if_neg h]

theorem FullyDepreciated.not_active (h : FullyDepreciated a) : a.status ≠ .active := by
  rw [h.1]
  decide

theorem monthly_last (req : Request) (h : Depreciating a) (hactive : a.status = .active)
    (hproposed : proposedCharge a = some proposed) (hall : undepreciated a ≤ toAdd a proposed) :
    FullyDepreciated (monthly req a) := by
  have hlast := le_antisymm (toAdd_le h proposed) hall
  rw [monthly_active h hactive hproposed]
  refine ⟨if_pos hall, ?_⟩
  show a.accumulatedDepreciation + roundDp 4 (toAdd a proposed) = depreciable a
  rw [hlast, roundDp_of_hasScale (hasScale_undepreciated h), undepreciated]
  ring

theorem Depreciating.monthly (h : Depreciating a) : Depreciating (monthly req a) ∧
    a.accumulatedDepreciation ≤ (FixedAssets.monthly req a).accumulatedDepreciation := by
  rcases eq_or_ne a.status .active with hactive | hrest
  · cases hproposed : proposedCharge a with
    | none =>
      rw [monthly_of_none hproposed]
      exact ⟨h, le_rfl⟩
    | some proposed =>
      have hround := roundDp_nonneg (n := 4) (toAdd_nonneg h proposed)
      have hle := roundDp_toAdd_le h proposed
      have hlast := monthly_last req h hactive hproposed
      rw [undepreciated] at hle
      rw [monthly_active h hactive hproposed] at hlast ⊢
      refine ⟨⟨h.cost_fits, h.cost_scale, h.salvage_scale, h.salvage_nonneg, h.salvage_lt,
        h.life_pos, h.accumulated_scale.add (hasScale_roundDp 4 _),
        add_nonneg h.accumulated_nonneg hround, ?_, ?_⟩, le_add_of_nonneg_right hround⟩
      · show a.accumulatedDepreciation + roundDp 4 (toAdd a proposed) ≤ depreciable a
        linarith
      · intro hstatus
        rcases le_or_gt (undepreciated a) (toAdd a proposed) with hall | hmore
        · exact (hlast hall).2
        · cases (if_neg hmore.not_ge).symm.trans hstatus
  · rw [monthly_of_inactive hrest]
    exact ⟨h, le_rfl⟩

/-! ## Charges -/

theorem monthly_progress (req : Request) (h : Depreciating a) (hactive : a.status = .active)
    (hproposed : proposedCharge a = some proposed) (hcharge : 1 / 2 ≤ proposed * 10 ^ 4)
    (hleft : 0 < undepreciated a) :
    undepreciated (monthly req a) * 10 ^ 4 + 1 ≤ undepreciated a * 10 ^ 4 := by
  have hunit := one_le_of_hasScale (hasScale_undepreciated h) hleft
  have hmin : 1 / 2 ≤ toAdd a proposed * 10 ^ 4 := by
    rw [toAdd_eq h]
    have hle : min proposed (undepreciated a) ≤ max (min proposed (undepreciated a)) 0 :=
      le_max_left _ _
    rcases min_choice proposed (undepreciated a) with hmin | hmin
    · rw [hmin] at hle ⊢
      linarith
    · rw [hmin] at hle ⊢
      linarith
  have hround := one_le_of_hasScale (hasScale_roundDp 4 _)
    ((roundDp_pos_iff (toAdd_nonneg h _)).mpr hmin)
  rw [monthly_active h hactive hproposed]
  show (depreciable a - (a.accumulatedDepreciation + roundDp 4 (toAdd a proposed))) * 10 ^ 4 + 1 ≤ _
  rw [undepreciated]
  linarith

theorem isSome_of_charges (h : Depreciating a) (hcharges : Charges a) :
    (proposedCharge a).isSome := by
  have hlife : ¬ a.usefulLifeYears ≤ 0 := by
    have := h.life_pos
    omega
  unfold Charges at hcharges
  unfold proposedCharge
  cases hmethod : a.depreciationMethod with
  | straightLine =>
    rw [hmethod] at hcharges
    rw [straightLineMonthly, if_neg hlife, if_neg hcharges.1.ne']
    rfl
  | decliningBalance => rfl

/-- The book value over six years of life is the charge before it is rounded. -/
theorem decliningBalanceMonthly_eq (h : Depreciating a) (hbook : 0 < a.purchaseCost -
    a.accumulatedDepreciation) :
    decliningBalanceMonthly (a.purchaseCost - a.accumulatedDepreciation) a.usefulLifeYears =
      roundHalfEven ((a.purchaseCost - a.accumulatedDepreciation) * 100 /
        (6 * a.usefulLifeYears)) / 10 ^ 2 := by
  have hlife := h.life_pos
  have hcast : (0 : ℚ) < a.usefulLifeYears := by exact_mod_cast hlife
  rw [decliningBalanceMonthly, if_neg (by rw [not_or]; exact ⟨by omega, not_le.mpr hbook⟩),
    roundDpHalfEven]
  congr 3
  field_simp
  ring

/-- While something is left, an asset that charges has a charge that is stored. -/
theorem proposed_of_charges (h : Depreciating a) (hcharges : Charges a)
    (hleft : 0 < undepreciated a) :
    ∃ proposed, proposedCharge a = some proposed ∧ 1 / 2 ≤ proposed * 10 ^ 4 := by
  have hlife : ¬ a.usefulLifeYears ≤ 0 := by
    have := h.life_pos
    omega
  unfold Charges at hcharges
  unfold proposedCharge
  cases hmethod : a.depreciationMethod with
  | straightLine =>
    rw [hmethod] at hcharges
    obtain ⟨hpos, hle⟩ := hcharges
    have hcast : (0 : ℚ) < (wrapI32 (a.usefulLifeYears * 12) : ℤ) := by exact_mod_cast hpos
    refine ⟨_, by rw [straightLineMonthly, if_neg hlife, if_neg hpos.ne'], ?_⟩
    rw [div_mul_eq_mul_div, le_div_iff₀ hcast]
    rw [depreciable] at hle
    linarith
  | decliningBalance =>
    rw [hmethod] at hcharges
    have hcast : (0 : ℚ) < a.usefulLifeYears := by exact_mod_cast h.life_pos
    have hsalvage := h.salvage_nonneg
    rw [undepreciated, depreciable] at hleft
    have hbook : 0 < a.purchaseCost - a.accumulatedDepreciation := by linarith
    refine ⟨_, rfl, ?_⟩
    rw [decliningBalanceMonthly_eq h hbook]
    have hpos : 0 < roundHalfEven ((a.purchaseCost - a.accumulatedDepreciation) * 100 /
        (6 * a.usefulLifeYears)) := by
      refine roundHalfEven_pos ?_
      rw [lt_div_iff₀ (by positivity)]
      linarith
    have hone : (1 : ℚ) ≤ (roundHalfEven ((a.purchaseCost - a.accumulatedDepreciation) * 100 /
        (6 * a.usefulLifeYears)) : ℤ) := by exact_mod_cast hpos
    linarith

theorem straightLine_small (h : Depreciating a)
    (hnot : ¬ (0 < wrapI32 (a.usefulLifeYears * 12) ∧
      wrapI32 (a.usefulLifeYears * 12) ≤ 20000 * depreciable a))
    (hproposed : straightLineMonthly a.purchaseCost a.salvageValue a.usefulLifeYears =
      some proposed) : proposed * 10 ^ 4 < 1 / 2 := by
  have hlife : ¬ a.usefulLifeYears ≤ 0 := by
    have := h.life_pos
    omega
  have hbase : 0 < depreciable a := sub_pos.mpr h.salvage_lt
  rw [straightLineMonthly, if_neg hlife] at hproposed
  split at hproposed
  · cases hproposed
  · next hne =>
      obtain rfl := Option.some.inj hproposed
      show depreciable a / _ * 10 ^ 4 < 1 / 2
      rcases lt_or_gt_of_ne hne with hneg | hpos
      · have hcast : ((wrapI32 (a.usefulLifeYears * 12) : ℤ) : ℚ) < 0 := by exact_mod_cast hneg
        have := div_neg_of_pos_of_neg hbase hcast
        linarith
      · have hcast : (0 : ℚ) < (wrapI32 (a.usefulLifeYears * 12) : ℤ) := by exact_mod_cast hpos
        have hmore := not_le.mp fun hle => hnot ⟨hpos, hle⟩
        rw [div_mul_eq_mul_div, div_lt_iff₀ hcast]
        linarith

/-- A salvage value below the limit is at least a cent below it, and no charge in cents gets over
that. -/
theorem decliningBalance_short (h : Depreciating a)
    (hnot : ¬ 3 * (a.usefulLifeYears : ℚ) ≤ 100 * a.salvageValue) (hleft : 0 < undepreciated a)
    (hproposed : decliningBalanceMonthly (a.purchaseCost - a.accumulatedDepreciation)
      a.usefulLifeYears = proposed) :
    HasScale 2 proposed ∧ 0 ≤ proposed ∧ proposed < undepreciated a := by
  have hlife : (1 : ℚ) ≤ a.usefulLifeYears := by exact_mod_cast h.life_pos
  have hsalvage := h.salvage_nonneg
  have hbook : 0 < a.purchaseCost - a.accumulatedDepreciation := by
    rw [undepreciated, depreciable] at hleft
    linarith
  rw [decliningBalanceMonthly_eq h hbook] at hproposed
  generalize hshare : (a.purchaseCost - a.accumulatedDepreciation) * 100 /
    (6 * a.usefulLifeYears) = share at hproposed
  have hbookEq : (a.purchaseCost - a.accumulatedDepreciation) * 100 =
      share * (6 * a.usefulLifeYears) := by
    rw [← hshare, div_mul_cancel₀ _ (by positivity)]
  have hpos : 0 < share := by
    rw [← hshare]
    positivity
  have hcents : 100 * a.salvageValue ≤ 3 * a.usefulLifeYears - 1 := by
    obtain ⟨k, hk⟩ := h.salvage_scale
    rw [hk] at hnot ⊢
    have hlt : (k : ℚ) < 3 * a.usefulLifeYears := by linarith
    have hle : k ≤ 3 * a.usefulLifeYears - 1 := by
      have : k < 3 * a.usefulLifeYears := by exact_mod_cast hlt
      omega
    have hcast : (k : ℚ) ≤ 3 * a.usefulLifeYears - 1 := by exact_mod_cast hle
    linarith
  refine ⟨⟨_, hproposed.symm⟩, ?_⟩
  rcases le_or_gt share (1 / 2) with hsmall | hlarge
  · rw [roundHalfEven_eq_zero hpos.le hsmall, Int.cast_zero, zero_div] at hproposed
    rw [← hproposed]
    exact ⟨le_rfl, hleft⟩
  · have hclose := (abs_le.mp (abs_roundHalfEven_sub_le share)).2
    have hround : (0 : ℚ) ≤ (roundHalfEven share : ℤ) := by
      exact_mod_cast (roundHalfEven_pos hlarge).le
    have hgap : (6 * (a.usefulLifeYears : ℚ) - 1) * (1 / 2) < (6 * a.usefulLifeYears - 1) * share :=
      mul_lt_mul_of_pos_left hlarge (by linarith)
    rw [← hproposed, undepreciated, depreciable]
    exact ⟨by positivity, by linarith⟩

/-- An asset whose charges may round to nothing is never charged to its end. -/
theorem charge_short (h : Depreciating a) (hnot : ¬ Charges a) (hleft : 0 < undepreciated a)
    (hproposed : proposedCharge a = some proposed) :
    toAdd a proposed < undepreciated a ∧ roundDp 4 (toAdd a proposed) < undepreciated a := by
  have hunit := one_le_of_hasScale (hasScale_undepreciated h) hleft
  have hnonneg := toAdd_nonneg h proposed
  unfold Charges at hnot
  unfold proposedCharge at hproposed
  cases hmethod : a.depreciationMethod with
  | straightLine =>
    rw [hmethod] at hnot hproposed
    have hsmall := straightLine_small h hnot hproposed
    have hadd : toAdd a proposed * 10 ^ 4 < 1 / 2 := by
      rw [toAdd_eq h]
      rcases max_choice (min proposed (undepreciated a)) 0 with hmax | hmax
      · rw [hmax]
        have := min_le_left proposed (undepreciated a)
        linarith
      · rw [hmax]
        norm_num
    have hzero : ¬ 0 < roundDp 4 (toAdd a proposed) := fun hpos =>
      absurd ((roundDp_pos_iff hnonneg).mp hpos) (not_le.mpr hadd)
    constructor
    · linarith
    · linarith
  | decliningBalance =>
    rw [hmethod] at hnot hproposed
    obtain ⟨hscale, h0, hlt⟩ := decliningBalance_short h hnot hleft (Option.some.inj hproposed)
    have hadd : toAdd a proposed = proposed := by
      rw [toAdd_eq h, min_eq_left hlt.le, max_eq_left h0]
    rw [hadd, roundDp_of_hasScale (hscale.mono (by decide))]
    exact ⟨hlt, hlt⟩

/-! ## Assets that complete and assets that do not -/

theorem charges_monthly : Charges (monthly req a) ↔ Charges a := by
  unfold monthly
  split
  · cases proposedCharge a with
    | none => exact Iff.rfl
    | some proposed => exact Iff.rfl
  · exact Iff.rfl

theorem monthly_not_disposed (hactive : a.status = .active) :
    (monthly req a).status ≠ .disposed := by
  rw [monthly, if_pos hactive]
  cases proposedCharge a with
  | none =>
    show a.status ≠ .disposed
    rw [hactive]
    decide
  | some proposed =>
    show (if _ then AssetStatus.fullyDepreciated else .active) ≠ .disposed
    split <;> decide

theorem undepreciated_pos (h : Depreciating a)
    (hne : a.accumulatedDepreciation ≠ depreciable a) : 0 < undepreciated a :=
  sub_pos.mpr (lt_of_le_of_ne h.accumulated_le hne)

theorem monthly_rest (h : Depreciating a) (hactive : a.status = .active)
    (hall : a.accumulatedDepreciation = depreciable a) (hsome : (proposedCharge a).isSome) :
    FullyDepreciated (monthly req a) := by
  obtain ⟨proposed, hproposed⟩ := Option.isSome_iff_exists.mp hsome
  refine monthly_last req h hactive hproposed ?_
  rw [undepreciated, hall, sub_self]
  exact toAdd_nonneg h proposed

theorem Completes.monthly (hcompletes : Completes a) (req : Request) (h : Depreciating a)
    (hactive : a.status = .active) :
    Completes (monthly req a) ∨ FullyDepreciated (FixedAssets.monthly req a) := by
  rcases hcompletes with hcharges | ⟨hall, hsome⟩
  · exact Or.inl (Or.inl (charges_monthly.mpr hcharges))
  · exact Or.inr (monthly_rest h hactive hall hsome)

/-- The calls that are needed at most. -/
def callsLeft (a : FixedAsset) : ℕ :=
  if FullyDepreciated a then 0 else ⌊undepreciated a * 10 ^ 4⌋₊ + 1

theorem callsLeft_monthly (req : Request) (h : Depreciating a) (hactive : a.status = .active)
    (hcompletes : Completes a) : callsLeft (monthly req a) < callsLeft a := by
  have hnot : ¬ FullyDepreciated a := fun hfully => hfully.not_active hactive
  rw [callsLeft, callsLeft, if_neg hnot]
  split
  · omega
  · next hmore =>
      rcases hcompletes with hcharges | ⟨hall, hsome⟩
      · rcases eq_or_ne a.accumulatedDepreciation (depreciable a) with hall | hne
        · exact absurd (monthly_rest h hactive hall (isSome_of_charges h hcharges)) hmore
        · have hleft := undepreciated_pos h hne
          obtain ⟨proposed, hproposed, hcharge⟩ := proposed_of_charges h hcharges hleft
          have hprogress := monthly_progress req h hactive hproposed hcharge hleft
          have hnonneg : 0 ≤ undepreciated (monthly req a) * 10 ^ 4 :=
            mul_nonneg (sub_nonneg.mpr h.monthly.1.accumulated_le) (by positivity)
          have hfloor := Nat.floor_le_floor hprogress
          rw [Nat.floor_add_one hnonneg] at hfloor
          omega
      · exact absurd (monthly_rest h hactive hall hsome) hmore

theorem not_completes_monthly (h : Depreciating a) (hactive : a.status = .active)
    (hnot : ¬ Completes a) :
    (monthly req a).status = .active ∧ ¬ Completes (monthly req a) := by
  rw [Completes, not_or] at hnot
  obtain ⟨hcharges, hshort⟩ := hnot
  cases hproposed : proposedCharge a with
  | none =>
    rw [monthly_of_none hproposed, Completes, not_or]
    exact ⟨hactive, hcharges, hshort⟩
  | some proposed =>
    have hne : a.accumulatedDepreciation ≠ depreciable a := fun hall =>
      hshort ⟨hall, by rw [hproposed]; rfl⟩
    have hleft := undepreciated_pos h hne
    obtain ⟨hadd, hround⟩ := charge_short h hcharges hleft hproposed
    rw [Completes, charges_monthly, not_or, monthly_active h hactive hproposed]
    refine ⟨if_neg hadd.not_ge, hcharges, fun hall => ?_⟩
    have htotal : a.accumulatedDepreciation + roundDp 4 (toAdd a proposed) = depreciable a :=
      hall.1
    rw [undepreciated] at hround
    linarith

end

/-! ## Calls on the database -/

section

variable {asset : Uuid} {db : Db} {c : Call} {a : FixedAsset}

theorem step_eq (asset : Uuid) (db : Db) (c : Call) :
    step asset db c = db ∨ ∃ rows, step asset db c = { db with fixedAssets := rows } := by
  unfold step
  cases h : calculateDepreciation db c.req c.auth c.ledger asset with
  | mk answer db' =>
    cases answer with
    | error e =>
      rcases commit_eq h with ⟨-, hsame⟩ | ⟨u, hok, -⟩
      · exact Or.inl hsame
      · cases hok
    | ok u =>
      obtain ⟨_, _, _, -, -, -, hdb⟩ := calculateDepreciation_ok h
      exact Or.inr ⟨_, hdb⟩

theorem authorized_step {d : Call} : Authorized (step asset db c) d ↔ Authorized db d := by
  rcases step_eq asset db c with h | ⟨rows, h⟩
  · rw [h]
  · rw [h]
    exact Iff.rfl

theorem meets_authorized {calls : List Call} (h : ∀ c ∈ calls, Authorized db c) :
    Runs.Meets (step asset) Authorized db calls := by
  induction calls generalizing db with
  | nil => trivial
  | cons c calls ih =>
    obtain ⟨hc, hcalls⟩ := List.forall_mem_cons.mp h
    exact ⟨hc, ih fun d hd => authorized_step.mpr (hcalls d hd)⟩

theorem findAsset_updated {f : FixedAsset → FixedAsset} (hf : ∀ r, (f r).id = r.id)
    (hfind : findAsset db asset = some a) :
    findAsset { db with fixedAssets := updateWhere (fun r => r.id = asset) f db.fixedAssets } asset =
      some (f a) := by
  have hid : a.id = asset := by simpa using List.find?_some hfind
  rw [findAsset, find?_updateWhere hf]
  rw [findAsset] at hfind
  rw [hfind, Option.map_some, if_pos hid]

/-- A call of someone who may write is one month of the asset. -/
theorem findAsset_step (hcaller : Authorized db c) (hfind : findAsset db asset = some a)
    (h : Depreciating a) : findAsset (step asset db c) asset = some (monthly c.req a) := by
  obtain ⟨user, l, hauth, hwriter⟩ := hcaller
  have hbody := calculateDepreciation.eq_1 db c.req c.auth c.ledger asset
  simp only [hauth, okOr, ok_bind, hwriter, hfind] at hbody
  rcases eq_or_ne a.status .active with hactive | hrest
  · have hcalm : a.status ≠ .disposed ∧ a.status ≠ .fullyDepreciated := by
      rw [hactive]
      decide
    rw [ensure, if_pos hcalm, ok_bind] at hbody
    cases hproposed : proposedCharge a with
    | none =>
      rw [hproposed] at hbody
      rw [step, hauth, hbody, monthly_of_none hproposed]
      exact hfind
    | some proposed =>
      rw [hproposed] at hbody
      simp only [ok_bind, amountColumn_total h] at hbody
      have hmonthly : monthly c.req a = chargeAsset c.req
          (roundDp 4 (depreciated a proposed).1) (depreciated a proposed).2 a := by
        rw [monthly, if_pos hactive, hproposed]
      rw [step, hauth, hbody, hmonthly]
      exact findAsset_updated (fun _ => rfl) hfind
  · have hrefused : ¬ (a.status ≠ .disposed ∧ a.status ≠ .fullyDepreciated) := fun hcalm => by
      cases hstatus : a.status with
      | active => exact hrest hstatus
      | disposed => exact hcalm.1 hstatus
      | fullyDepreciated => exact hcalm.2 hstatus
    rw [ensure, if_neg hrefused] at hbody
    rw [step, hauth, hbody, monthly_of_inactive hrest]
    exact hfind

/-- Whoever calls, it is one month of the asset or none. -/
theorem findAsset_step_cases (hfind : findAsset db asset = some a) (h : Depreciating a) :
    findAsset (step asset db c) asset = some a ∨
      findAsset (step asset db c) asset = some (monthly c.req a) := by
  cases hcall : calculateDepreciation db c.req c.auth c.ledger asset with
  | mk answer db' =>
    cases answer with
    | error e =>
      rcases commit_eq hcall with ⟨-, hsame⟩ | ⟨u, hok, -⟩
      · left
        rw [step, hcall, hsame]
        exact hfind
      · cases hok
    | ok u =>
      right
      rw [calculateDepreciation, commit_eq_ok] at hcall
      simp only [bind_eq_ok, okOr_eq_ok] at hcall
      obtain ⟨user, hauth, l, hwriter, -⟩ := hcall
      exact findAsset_step ⟨user, l, hauth, hwriter⟩ hfind h

/-! ## Runs -/

/-- The asset is in the table. -/
def Holds (P : FixedAsset → Prop) (asset : Uuid) (db : Db) : Prop :=
  ∃ a, findAsset db asset = some a ∧ Depreciating a ∧ P a

theorem Holds.step {P : FixedAsset → Prop} (h : Holds P asset db) (hcaller : Authorized db c)
    (hP : ∀ a, Depreciating a → P a → P (monthly c.req a)) :
    Holds P asset (FixedAssets.step asset db c) := by
  obtain ⟨a, hfind, ha, hPa⟩ := h
  exact ⟨_, findAsset_step hcaller hfind ha, ha.monthly.1, hP a ha hPa⟩

theorem grows_of_step (hfind : findAsset db asset = some a) (h : Depreciating a) :
    Grows asset db (step asset db c) := by
  intro b hb
  obtain rfl : a = b := Option.some.inj (hfind.symm.trans hb)
  rcases findAsset_step_cases (c := c) hfind h with hsame | hmonthly
  · exact ⟨a, hsame, le_rfl, h.accumulated_le⟩
  · exact ⟨_, hmonthly, h.monthly.2, h.monthly.1.accumulated_le⟩

theorem grows_trans {db' db'' : Db} (h : Grows asset db db') (h' : Grows asset db' db'') :
    Grows asset db db'' := by
  intro a ha
  obtain ⟨b, hb, hle, -⟩ := h a ha
  obtain ⟨d, hd, hle', hlimit⟩ := h' b hb
  exact ⟨d, hd, hle.trans hle', hlimit⟩

/-- The total never decreases and never passes the limit, whoever calls. -/
theorem pairwise_grows (hfind : findAsset db asset = some a) (h : Depreciating a)
    (calls : List Call) : (Runs.visited (step asset) db calls).Pairwise (Grows asset) := by
  have hkept : ∀ d c, Holds (fun _ => True) asset d →
      Holds (fun _ => True) asset (step asset d c) ∧ Grows asset d (step asset d c) := by
    rintro d c ⟨b, hb, hdep, -⟩
    refine ⟨?_, grows_of_step hb hdep⟩
    rcases findAsset_step_cases (c := c) hb hdep with hsame | hmonthly
    · exact ⟨b, hsame, hdep, trivial⟩
    · exact ⟨_, hmonthly, hdep.monthly.1, trivial⟩
  have hcalls : Runs.Meets (step asset) (fun _ _ => True) db calls :=
    Runs.meets_of_forall fun _ _ => trivial
  exact Runs.pairwise_visited (R := Grows asset) (fun _ _ _ => grows_trans)
    (fun d c hd _ => hkept d c hd) ⟨a, hfind, h, trivial⟩ hcalls

/-! ## The end -/

/-- On its way to the end, or there. -/
def Finishing (a : FixedAsset) : Prop :=
  FullyDepreciated a ∨ a.status = .active ∧ Completes a

/-- An active asset that never gets there, or a disposed one. -/
def Stuck (a : FixedAsset) : Prop :=
  a.status = .disposed ∨ a.status = .active ∧ ¬ Completes a

theorem finishing_or_stuck (h : Depreciating a) : Finishing a ∨ Stuck a := by
  cases hstatus : a.status with
  | active =>
    by_cases hcompletes : Completes a
    · exact Or.inl (Or.inr ⟨hstatus, hcompletes⟩)
    · exact Or.inr (Or.inr ⟨hstatus, hcompletes⟩)
  | disposed => exact Or.inr (Or.inl hstatus)
  | fullyDepreciated => exact Or.inl (Or.inl ⟨hstatus, h.all_of_status hstatus⟩)

theorem Finishing.monthly {req : Request} (hfinishing : Finishing a) (h : Depreciating a) :
    Finishing (monthly req a) := by
  rcases hfinishing with hfully | ⟨hactive, hcompletes⟩
  · rw [monthly_of_inactive hfully.not_active]
    exact Or.inl hfully
  · rcases hcompletes.monthly req h hactive with hmore | hfully
    · rcases finishing_or_stuck h.monthly.1 with hthere | hdisposed | ⟨-, hnot⟩
      · exact hthere
      · exact absurd hdisposed (monthly_not_disposed hactive)
      · exact absurd hmore hnot
    · exact Or.inl hfully

theorem Stuck.monthly {req : Request} (hstuck : Stuck a) (h : Depreciating a) :
    Stuck (monthly req a) := by
  rcases hstuck with hdisposed | ⟨hactive, hnot⟩
  · rw [monthly_of_inactive (by rw [hdisposed]; decide)]
    exact Or.inl hdisposed
  · exact Or.inr (not_completes_monthly h hactive hnot)

theorem Stuck.not_fully (hstuck : Stuck a) : ¬ FullyDepreciated a := by
  rintro ⟨hfully, -⟩
  rcases hstuck with hdisposed | ⟨hactive, -⟩
  · cases hdisposed.symm.trans hfully
  · cases hactive.symm.trans hfully

/-- The calls that are left for the asset of the table. -/
def callsLeftOn (asset : Uuid) (db : Db) : ℕ := ((findAsset db asset).map callsLeft).getD 0

/-- The asset of the table is completely depreciated. -/
def FullyOn (asset : Uuid) (db : Db) : Prop :=
  ∃ a, findAsset db asset = some a ∧ FullyDepreciated a

theorem finishes_of_finishing (hfind : findAsset db asset = some a) (h : Depreciating a)
    (hfinishing : Finishing a) : Finishes asset db := by
  refine ⟨callsLeft a, fun calls hcallers hlength => ?_⟩
  have hstays : ∀ d c, FullyOn asset d → Holds Finishing asset d → Authorized d c →
      FullyOn asset (step asset d c) := by
    rintro d c ⟨b', hb', hfully⟩ ⟨b, hb, hdep, -⟩ hc
    obtain rfl : b = b' := Option.some.inj (hb.symm.trans hb')
    refine ⟨b, ?_, hfully⟩
    rw [findAsset_step hc hb hdep, monthly_of_inactive hfully.not_active]
  have hthere : ∀ d, Holds Finishing asset d → callsLeftOn asset d = 0 → FullyOn asset d := by
    rintro d ⟨b, hb, -, -⟩ hzero
    rw [callsLeftOn, hb, Option.map_some, Option.getD_some, callsLeft] at hzero
    split at hzero
    · next hfully => exact ⟨b, hb, hfully⟩
    · omega
  have hless : ∀ d c, Holds Finishing asset d → Authorized d c → ¬ FullyOn asset d →
      callsLeftOn asset (step asset d c) < callsLeftOn asset d := by
    rintro d c ⟨b, hb, hdep, hP⟩ hc hnot
    obtain ⟨hactive, hcompletes⟩ := hP.resolve_left fun hfully => hnot ⟨b, hb, hfully⟩
    rw [callsLeftOn, callsLeftOn, findAsset_step hc hb hdep, hb]
    exact callsLeft_monthly c.req hdep hactive hcompletes
  exact Runs.goal_of_variant (I := Holds Finishing asset)
    (fun _ _ hI hc => hI.step hc fun _ hdep hP => hP.monthly hdep)
    (fun d c hI hc hgoal => hstays d c hgoal hI hc) hthere hless ⟨a, hfind, h, hfinishing⟩
    (meets_authorized hcallers) (by rw [callsLeftOn, hfind, hlength]; rfl)

theorem not_finishes_of_stuck (hfind : findAsset db asset = some a) (h : Depreciating a)
    (hcaller : Authorized db c) (hstuck : Stuck a) : ¬ Finishes asset db := by
  rintro ⟨n, hn⟩
  have hcallers : ∀ d ∈ List.replicate n c, Authorized db d := fun d hd => by
    rw [List.eq_of_mem_replicate hd]
    exact hcaller
  obtain ⟨b, hb, hfully⟩ := hn _ hcallers (List.length_replicate ..)
  have hend : Holds Stuck asset (Runs.exec (step asset) db (List.replicate n c)) :=
    Runs.invariant_of_meets (P := Holds Stuck asset)
      (fun _ _ hd he => hd.step he fun _ hdep hP => hP.monthly hdep) ⟨a, hfind, h, hstuck⟩
      (meets_authorized hcallers) _ (Runs.exec_mem_visited _ _)
  obtain ⟨b', hb', -, hP⟩ := hend
  obtain rfl : b = b' := Option.some.inj (hb.symm.trans hb')
  exact hP.not_fully hfully

end

/-- Accumulated depreciation never decreases and never passes cost minus salvage.  It gets there, with
the status, exactly when the asset completes. -/
theorem finishes_iff_completes {asset : Uuid} {db : Db} {a : FixedAsset} {c : Call}
    (hfind : findAsset db asset = some a) (h : Depreciating a) (hcaller : Authorized db c) :
    (∀ calls, (Runs.visited (step asset) db calls).Pairwise (Grows asset)) ∧
      (Finishes asset db ↔ FullyDepreciated a ∨ a.status = .active ∧ Completes a) := by
  refine ⟨pairwise_grows hfind h, fun hfinishes => ?_, finishes_of_finishing hfind h⟩
  rcases finishing_or_stuck h with hfinishing | hstuck
  · exact hfinishing
  · exact absurd hfinishes (not_finishes_of_stuck hfind h hcaller hstuck)

namespace Sample

open OpenAccounting.Sample

/-- A machine with a salvage value, over five years. -/
def machine : FixedAsset where
  id := 90
  ledgerId := ledgerId
  accountId := cash
  purchaseCost := 12000
  salvageValue := 2000
  usefulLifeYears := 5
  depreciationMethod := .straightLine

def computer : FixedAsset :=
  { machine with id := 91, salvageValue := 0, depreciationMethod := .decliningBalance }

def assets : Db :=
  { OpenAccounting.Sample.db with fixedAssets := [machine, computer] }

/-- The owner of the ledger, on 15 March. -/
def monthEnd : Call where
  req := request 1
  auth := some owner
  ledger := ledgerId

theorem monthEnd_authorized : Authorized assets monthEnd :=
  ⟨owner, _, rfl, rfl⟩

theorem machine_depreciating : Depreciating machine where
  cost_fits := by decide +kernel
  cost_scale := ⟨1200000, by norm_num [machine]⟩
  salvage_scale := ⟨200000, by norm_num [machine]⟩
  salvage_nonneg := by decide
  salvage_lt := by decide
  life_pos := by decide
  accumulated_scale := ⟨0, by norm_num [machine]⟩
  accumulated_nonneg := le_rfl
  accumulated_le := by norm_num [depreciable, machine]
  all_of_status := fun h => by cases h

theorem computer_depreciating : Depreciating computer :=
  { machine_depreciating with
    salvage_scale := ⟨0, by norm_num [computer]⟩
    salvage_nonneg := le_rfl
    salvage_lt := by decide
    accumulated_le := by norm_num [depreciable, computer, machine]
    all_of_status := fun h => by cases h }

theorem computer_not_completes : ¬ Completes computer := by
  decide +kernel

end Sample

/-- A straight-line machine is depreciated in the end. -/
theorem finishes_iff_completes_machine : Finishes Sample.machine.id Sample.assets := by
  have hiff := @finishes_iff_completes Sample.machine.id Sample.assets _ Sample.monthEnd
    (by decide) Sample.machine_depreciating Sample.monthEnd_authorized
  exact hiff.2.mpr (Or.inr ⟨rfl, Or.inl (by decide +kernel)⟩)

/-- A declining-balance computer without a salvage value is never completely depreciated. -/
theorem computer_never_finishes :
    Depreciating Sample.computer ∧ Sample.computer.status = .active ∧
      findAsset Sample.assets Sample.computer.id = some Sample.computer ∧
      Authorized Sample.assets Sample.monthEnd ∧ ¬ Finishes Sample.computer.id Sample.assets := by
  refine ⟨Sample.computer_depreciating, rfl, by decide, Sample.monthEnd_authorized, ?_⟩
  exact not_finishes_of_stuck (by decide) Sample.computer_depreciating Sample.monthEnd_authorized
    (Or.inr ⟨rfl, Sample.computer_not_completes⟩)

end OpenAccounting.FixedAssets
