import OpenAccounting.Db.State
import OpenAccounting.Lib.Commit
import OpenAccounting.Lib.CostLayers

/-!
# Inventory valuation

`domain/inventory_valuation.rs`: the quantity and the value that a list of movements leaves, with
the oldest layers sold first or at the running average.  A division is exact here.
-/

namespace OpenAccounting

open Commit Rounding

/-- `Movement`: a purchase at its unit cost, or a sale, whose unit cost is not used. -/
structure Movement where
  qty : ℤ
  unitCost : ℚ := 0
deriving DecidableEq

namespace InventoryValuation

/-! ## FIFO -/

/-- `layers.iter().map(|(q, _)| q).sum()`. -/
def onHand (layers : CostLayers.Layers) : ℤ := wrapI32 (CostLayers.quantity layers)

/-- One movement of `valuate_fifo`. -/
def moveFifo (layers : CostLayers.Layers) (m : Movement) : Except String CostLayers.Layers :=
  if 0 ≤ m.qty then .ok (layers ++ [(m.qty, m.unitCost)])
  else do
    let need := wrapI32 (-m.qty)
    ensure (need ≤ onHand layers)
      ("FIFO sale of " ++ toString need ++ " exceeds on-hand " ++ toString (onHand layers))
    .ok (CostLayers.remaining (CostLayers.draw layers need))

def valuateFifo (movements : List Movement) : Except String (ℤ × ℚ) := do
  let layers ← movements.foldlM moveFifo []
  .ok (onHand layers, CostLayers.value layers)

/-! ## Running average -/

/-- One movement of `valuate_average`, on quantity and value.  A stock that is used up has no
value. -/
def moveAverage (stock : ℤ × ℚ) (m : Movement) : Except String (ℤ × ℚ) :=
  if 0 ≤ m.qty then .ok (wrapI32 (stock.1 + m.qty), stock.2 + m.qty * m.unitCost)
  else do
    let need := wrapI32 (-m.qty)
    ensure (need ≤ stock.1)
      ("average sale of " ++ toString need ++ " exceeds on-hand " ++ toString stock.1)
    let avg := if 0 < stock.1 then stock.2 / stock.1 else 0
    let qty := wrapI32 (stock.1 - need)
    .ok (qty, if qty = 0 then 0 else stock.2 - need * avg)

def valuateAverage (movements : List Movement) : Except String (ℤ × ℚ) :=
  movements.foldlM moveAverage (0, 0)

def valuate (method : InventoryMethod) (movements : List Movement) : Except String (ℤ × ℚ) :=
  match method with
  | .fifo => valuateFifo movements
  | .average => valuateAverage movements

/-- What the purchases have cost. -/
def purchaseCost (movements : List Movement) : ℚ :=
  (movements.map fun m => if 0 ≤ m.qty then (m.qty : ℚ) * m.unitCost else 0).sum

/-! ## One more movement -/

section Concat

variable {movements : List Movement} {q : ℤ}

theorem purchaseCost_purchase (hq : 0 < q) (c : ℚ) :
    purchaseCost (movements ++ [⟨q, c⟩]) = purchaseCost movements + q * c := by
  simp [purchaseCost, hq.le]

theorem purchaseCost_sale (hq : q < 0) (c : ℚ) :
    purchaseCost (movements ++ [⟨q, c⟩]) = purchaseCost movements := by
  simp [purchaseCost, not_le.mpr hq]

theorem wrapI32_sale {stock : ℤ} (hq : q < 0) (hfits : FitsI32 stock) (hcovered : 0 ≤ stock + q) :
    wrapI32 (-q) = -q ∧ wrapI32 (stock - -q) = stock + q := by
  unfold FitsI32 at hfits
  unfold wrapI32
  omega

theorem moveFifo_purchase (layers : CostLayers.Layers) (hq : 0 < q) (c : ℚ) :
    moveFifo layers ⟨q, c⟩ = .ok (layers ++ [(q, c)]) := by
  rw [moveFifo, if_pos hq.le]

theorem moveFifo_sale {layers : CostLayers.Layers} (hq : q < 0)
    (hfits : FitsI32 (CostLayers.quantity layers)) (hcovered : 0 ≤ CostLayers.quantity layers + q)
    (c : ℚ) :
    moveFifo layers ⟨q, c⟩ = .ok (CostLayers.remaining (CostLayers.draw layers (-q))) := by
  have hneed : -q ≤ onHand layers := by
    rw [onHand, wrapI32_of_fits hfits]
    omega
  simp only [moveFifo, if_neg (not_le.mpr hq), (wrapI32_sale hq hfits hcovered).1, ensure,
    if_pos hneed]
  rfl

theorem moveAverage_purchase {stock : ℤ × ℚ} (hq : 0 < q) (hfits : FitsI32 (stock.1 + q)) (c : ℚ) :
    moveAverage stock ⟨q, c⟩ = .ok (stock.1 + q, stock.2 + q * c) := by
  rw [moveAverage, if_pos hq.le, wrapI32_of_fits hfits]

/-- A sale takes its share of the value, all of it when nothing is left. -/
theorem moveAverage_sale {stock : ℤ × ℚ} (hq : q < 0) (hfits : FitsI32 stock.1)
    (hcovered : 0 ≤ stock.1 + q) (c : ℚ) :
    moveAverage stock ⟨q, c⟩ = .ok (stock.1 + q, stock.2 + q * (stock.2 / stock.1)) := by
  obtain ⟨hneed, hleft⟩ := wrapI32_sale hq hfits hcovered
  have hpos : 0 < stock.1 := by omega
  have hne : (stock.1 : ℚ) ≠ 0 := by exact_mod_cast hpos.ne'
  have hle : -q ≤ stock.1 := by omega
  simp only [moveAverage, if_neg (not_le.mpr hq), hneed, hleft, ensure, if_pos hle, if_pos hpos,
    bind, Except.bind]
  congr 2
  split
  · next hzero =>
      have hq : (q : ℚ) = -stock.1 := by
        have : q = -stock.1 := by omega
        exact_mod_cast this
      rw [hq]
      field_simp
      ring
  · push_cast
    ring

end Concat

end InventoryValuation

end OpenAccounting

/-!
## The valuation methods

What `valuate` says of every list of movements.  FIFO is a queue of single units: purchases append
the units at their cost, a sale drops as many from the front (`valuate_fifo_units`).  The running
average refuses the same sales and leaves the same quantity, at a value between the cheapest and the
dearest purchase, and so does FIFO (`valuate_comparable`).
-/

namespace OpenAccounting.InventoryValuation

open Commit Rounding

/-! ## Movements -/

/-- The quantity that the movements leave. -/
def stock (movements : List Movement) : ℤ := (movements.map Movement.qty).sum

/-- No sale takes more than is there: no prefix has a negative quantity. -/
def Covered (movements : List Movement) : Prop := ∀ front, front <+: movements → 0 ≤ stock front

instance (movements : List Movement) : Decidable (Covered movements) :=
  decidable_of_iff (∀ front ∈ movements.inits, 0 ≤ stock front) (by simp [Covered])

/-- The quantities up to the first sale that is not covered are of type `i32`. -/
def InI32 (movements : List Movement) : Prop :=
  ∀ front m, front ++ [m] <+: movements → Covered front →
    FitsI32 (-m.qty) ∧ FitsI32 (stock front + m.qty)

/-- The cost of each unit bought, in order. -/
def bought (movements : List Movement) : List ℚ :=
  movements.flatMap fun m => List.replicate m.qty.toNat m.unitCost

/-- The number of units sold. -/
def sold (movements : List Movement) : ℕ := (movements.map fun m => (-m.qty).toNat).sum

/-- The unit costs of the purchases of something. -/
def unitCosts (movements : List Movement) : Set ℚ :=
  {c | ∃ m ∈ movements, 0 < m.qty ∧ m.unitCost = c}

@[simp] theorem stock_concat (front : List Movement) (m : Movement) :
    stock (front ++ [m]) = stock front + m.qty := by
  simp [stock]

@[simp] theorem bought_concat (front : List Movement) (m : Movement) :
    bought (front ++ [m]) = bought front ++ List.replicate m.qty.toNat m.unitCost := by
  simp [bought]

@[simp] theorem sold_concat (front : List Movement) (m : Movement) :
    sold (front ++ [m]) = sold front + (-m.qty).toNat := by
  simp [sold]

theorem unitCosts_concat (front : List Movement) (m : Movement) :
    unitCosts front ⊆ unitCosts (front ++ [m]) := by
  rintro c ⟨k, hk, hpos, rfl⟩
  exact ⟨k, List.mem_append_left _ hk, hpos, rfl⟩

variable {front movements : List Movement}

theorem mem_bought {c : ℚ} (h : c ∈ bought movements) : c ∈ unitCosts movements := by
  obtain ⟨m, hm, hc⟩ := List.mem_flatMap.mp h
  obtain ⟨hne, rfl⟩ := List.mem_replicate.mp hc
  exact ⟨m, hm, by omega, rfl⟩

theorem stock_eq (movements : List Movement) :
    stock movements = (bought movements).length - sold movements := by
  induction movements using List.reverseRecOn with
  | nil => rfl
  | append_singleton front m ih =>
    rw [stock_concat, ih, bought_concat, sold_concat, List.length_append, List.length_replicate]
    omega

theorem abs_stock_le (h : front <+: movements) :
    |stock front| ≤ (movements.map fun m => |m.qty|).sum := by
  obtain ⟨rest, rfl⟩ := h
  have hfront : |stock front| ≤ (front.map fun m => |m.qty|).sum := by
    induction front using List.reverseRecOn with
    | nil => rfl
    | append_singleton front m ih =>
      rw [stock_concat, List.map_append, List.sum_append, List.map_singleton, List.sum_singleton]
      exact (abs_add_le _ _).trans (Int.add_le_add_right ih _)
  have hrest : 0 ≤ (rest.map fun m => |m.qty|).sum := by
    refine List.sum_nonneg fun q hq => ?_
    obtain ⟨m, -, rfl⟩ := List.mem_map.mp hq
    exact abs_nonneg _
  rw [List.map_append, List.sum_append]
  omega

theorem inI32_of_sum (h : (movements.map fun m => |m.qty|).sum < 2 ^ 31) : InI32 movements := by
  intro front m hprefix _
  have hstock := abs_stock_le hprefix
  have hm : m ∈ movements := hprefix.subset (List.mem_append_right _ (List.mem_singleton_self m))
  have hone : |m.qty| ≤ (movements.map fun m => |m.qty|).sum :=
    List.single_le_sum (fun q hq => by
      obtain ⟨k, -, rfl⟩ := List.mem_map.mp hq
      exact abs_nonneg _) _ (List.mem_map_of_mem hm)
  rw [stock_concat] at hstock
  rw [abs_le] at hstock hone
  unfold FitsI32
  omega

/-! ## FIFO -/

/-- The layers are the units bought, without as many as were sold from the front. -/
structure Queued (front : List Movement) (layers : CostLayers.Layers) : Prop where
  nonneg : ∀ l ∈ layers, 0 ≤ l.1
  quantity : CostLayers.quantity layers = stock front
  fits : FitsI32 (stock front)
  units : CostLayers.units layers = (bought front).drop (sold front)

theorem Queued.sold_le {layers : CostLayers.Layers} (h : Queued front layers) :
    sold front ≤ (bought front).length := by
  have hnonneg := CostLayers.quantity_nonneg h.nonneg
  rw [h.quantity, stock_eq] at hnonneg
  omega

theorem Queued.onHand_eq {layers : CostLayers.Layers} (h : Queued front layers) :
    onHand layers = stock front := by
  rw [onHand, h.quantity, wrapI32_of_fits h.fits]

section

variable {front : List Movement} {m : Movement} {layers : CostLayers.Layers}
  (hfits : FitsI32 (-m.qty) ∧ FitsI32 (stock front + m.qty)) (h : Queued front layers)
include hfits h

theorem moveFifo_accepts (hcovered : 0 ≤ stock (front ++ [m])) :
    ∃ layers', moveFifo layers m = .ok layers' ∧ Queued (front ++ [m]) layers' := by
  rw [stock_concat] at hcovered
  rcases le_or_gt 0 m.qty with hq | hq
  · refine ⟨layers ++ [(m.qty, m.unitCost)], by rw [moveFifo, if_pos hq], ?_, ?_, ?_, ?_⟩
    · rw [List.forall_mem_append, List.forall_mem_singleton]
      exact ⟨h.nonneg, hq⟩
    · simp [h.quantity]
    · rw [stock_concat]
      exact hfits.2
    · have hnone : (-m.qty).toNat = 0 := by omega
      rw [CostLayers.units_append, h.units, bought_concat, sold_concat, hnone, Nat.add_zero,
        List.drop_append_of_le_length h.sold_le]
      simp
  · have hcover : 0 ≤ CostLayers.quantity layers + m.qty := by rwa [h.quantity]
    have hneed : 0 ≤ -m.qty := by omega
    have hdraw := CostLayers.draw_nonneg h.nonneg (-m.qty)
    refine ⟨_, moveFifo_sale hq (h.quantity ▸ h.fits) hcover m.unitCost, ?_, ?_, ?_, ?_⟩
    · exact fun l hl => hdraw l (List.mem_filter.mp hl).1
    · rw [CostLayers.quantity_remaining hdraw, CostLayers.quantity_draw h.nonneg hneed (by omega),
        h.quantity, stock_concat]
      omega
    · rw [stock_concat]
      exact hfits.2
    · have hnone : m.qty.toNat = 0 := by omega
      rw [CostLayers.units_remaining, CostLayers.units_draw h.nonneg hneed, h.units, bought_concat,
        sold_concat, hnone, List.replicate_zero, List.append_nil, List.drop_drop]

theorem moveFifo_refuses (huncovered : ¬ 0 ≤ stock (front ++ [m])) :
    ¬ ∃ layers', moveFifo layers m = .ok layers' := by
  rw [stock_concat] at huncovered
  have hstock : 0 ≤ stock front := h.quantity ▸ CostLayers.quantity_nonneg h.nonneg
  have hq : ¬ 0 ≤ m.qty := by omega
  rintro ⟨layers', hmove⟩
  simp only [moveFifo, if_neg hq, bind_eq_ok, ensure_eq_ok, wrapI32_of_fits hfits.1,
    h.onHand_eq] at hmove
  obtain ⟨-, hle, -⟩ := hmove
  omega

end

theorem queued_nil : Queued [] [] where
  nonneg := by simp
  quantity := rfl
  fits := by decide
  units := rfl

theorem foldlM_moveFifo (hfits : InI32 movements) :
    ((∃ layers, movements.foldlM moveFifo [] = .ok layers) ↔ Covered movements) ∧
      ∀ layers, movements.foldlM moveFifo [] = .ok layers → Queued movements layers :=
  foldlM_tracks le_rfl queued_nil
    (fun front m _ hprefix hcovered => moveFifo_accepts (hfits front m hprefix hcovered))
    (fun front m _ hprefix hcovered => moveFifo_refuses (hfits front m hprefix hcovered))

theorem valuateFifo_isOk_iff (hfits : InI32 movements) :
    (∃ r, valuate .fifo movements = .ok r) ↔ Covered movements := by
  rw [← (foldlM_moveFifo hfits).1]
  constructor
  · rintro ⟨r, hr⟩
    obtain ⟨layers, hlayers, -⟩ := bind_eq_ok.mp hr
    exact ⟨layers, hlayers⟩
  · rintro ⟨layers, hlayers⟩
    exact ⟨_, bind_eq_ok.mpr ⟨layers, hlayers, rfl⟩⟩

theorem valuateFifo_eq (hfits : InI32 movements) {r : ℤ × ℚ} (h : valuate .fifo movements = .ok r) :
    r = (stock movements, ((bought movements).drop (sold movements)).sum) := by
  obtain ⟨layers, hlayers, hr⟩ := bind_eq_ok.mp h
  cases hr
  have hqueued := (foldlM_moveFifo hfits).2 layers hlayers
  rw [hqueued.onHand_eq, ← CostLayers.sum_units hqueued.nonneg, hqueued.units]

theorem length_unitsLeft (hcovered : Covered movements) :
    (((bought movements).drop (sold movements)).length : ℤ) = stock movements := by
  have hnonneg := hcovered movements (List.prefix_refl _)
  have hstock := stock_eq movements
  rw [List.length_drop]
  omega

/-- Quantity and value of the average: the value is between those of the quantity at the lowest and
at the highest unit cost. -/
structure Priced (front : List Movement) (r : ℤ × ℚ) : Prop where
  quantity : r.1 = stock front
  fits : FitsI32 (stock front)
  nonneg : 0 ≤ stock front
  empty : stock front = 0 → r.2 = 0
  lower : ∀ lo ∈ lowerBounds (unitCosts front), r.1 * lo ≤ r.2
  upper : ∀ hi ∈ upperBounds (unitCosts front), r.2 ≤ r.1 * hi

theorem priced_nil : Priced [] (0, 0) where
  quantity := rfl
  fits := by decide
  nonneg := le_rfl
  empty _ := rfl
  lower := by simp
  upper := by simp

section

variable {front : List Movement} {m : Movement} {r : ℤ × ℚ}
  (hfits : FitsI32 (-m.qty) ∧ FitsI32 (stock front + m.qty)) (h : Priced front r)
include hfits h

theorem Priced.purchase (hq : 0 ≤ m.qty) :
    Priced (front ++ [m]) (r.1 + m.qty, r.2 + m.qty * m.unitCost) := by
  have hmono := unitCosts_concat front m
  have hcost : 0 < m.qty → m.unitCost ∈ unitCosts (front ++ [m]) := fun hpos =>
    ⟨m, List.mem_append_right _ (List.mem_singleton_self m), hpos, rfl⟩
  have hcast : (0 : ℚ) ≤ m.qty := by exact_mod_cast hq
  have hnonneg := h.nonneg
  refine ⟨by rw [stock_concat, h.quantity], by rw [stock_concat]; exact hfits.2,
    by rw [stock_concat]; omega, fun hzero => ?_, fun lo hlo => ?_, fun hi hhi => ?_⟩
  · rw [stock_concat] at hzero
    have hstock : stock front = 0 := by omega
    have hnone : m.qty = 0 := by omega
    simp [h.empty hstock, hnone]
  · have hfront := h.lower lo (lowerBounds_mono_set hmono hlo)
    have hlast : m.qty * lo ≤ m.qty * m.unitCost := by
      rcases hq.eq_or_lt with hzero | hpos
      · simp [← hzero]
      · exact mul_le_mul_of_nonneg_left (hlo (hcost hpos)) hcast
    push_cast
    linarith
  · have hfront := h.upper hi (upperBounds_mono_set hmono hhi)
    have hlast : m.qty * m.unitCost ≤ m.qty * hi := by
      rcases hq.eq_or_lt with hzero | hpos
      · simp [← hzero]
      · exact mul_le_mul_of_nonneg_left (hhi (hcost hpos)) hcast
    push_cast
    linarith

theorem Priced.sale (hq : m.qty < 0) (hcovered : 0 ≤ stock front + m.qty) :
    Priced (front ++ [m]) (r.1 + m.qty, r.2 + m.qty * (r.2 / r.1)) := by
  have hmono := unitCosts_concat front m
  have hpos : 0 < r.1 := by
    rw [h.quantity]
    omega
  have hstock : (0 : ℚ) < r.1 := by exact_mod_cast hpos
  have hleft : (0 : ℚ) ≤ r.1 + m.qty := by
    rw [h.quantity]
    exact_mod_cast hcovered
  have hvalue : r.2 + m.qty * (r.2 / r.1) = (r.1 + m.qty) * (r.2 / r.1) := by
    rw [add_mul, mul_div_cancel₀ _ hstock.ne']
  refine ⟨by rw [stock_concat, h.quantity], by rw [stock_concat]; exact hfits.2,
    by rwa [stock_concat], fun hzero => ?_, fun lo hlo => ?_, fun hi hhi => ?_⟩
  · rw [stock_concat, ← h.quantity] at hzero
    have hnone : (r.1 : ℚ) + m.qty = 0 := by exact_mod_cast hzero
    rw [hvalue, hnone, zero_mul]
  · have hfront := h.lower lo (lowerBounds_mono_set hmono hlo)
    rw [mul_comm] at hfront
    rw [hvalue, Int.cast_add]
    exact mul_le_mul_of_nonneg_left ((le_div_iff₀ hstock).mpr hfront) hleft
  · have hfront := h.upper hi (upperBounds_mono_set hmono hhi)
    rw [mul_comm] at hfront
    rw [hvalue, Int.cast_add]
    exact mul_le_mul_of_nonneg_left ((div_le_iff₀ hstock).mpr hfront) hleft

theorem moveAverage_accepts (hcovered : 0 ≤ stock (front ++ [m])) :
    ∃ r', moveAverage r m = .ok r' ∧ Priced (front ++ [m]) r' := by
  rw [stock_concat] at hcovered
  rcases le_or_gt 0 m.qty with hq | hq
  · refine ⟨_, ?_, h.purchase hfits hq⟩
    rw [moveAverage, if_pos hq, h.quantity, wrapI32_of_fits hfits.2]
  · refine ⟨_, ?_, h.sale hfits hq hcovered⟩
    have hstock : FitsI32 r.1 := h.quantity ▸ h.fits
    exact moveAverage_sale hq hstock (by rwa [h.quantity]) m.unitCost

theorem moveAverage_refuses (huncovered : ¬ 0 ≤ stock (front ++ [m])) :
    ¬ ∃ r', moveAverage r m = .ok r' := by
  rw [stock_concat] at huncovered
  have hnonneg := h.nonneg
  have hq : ¬ 0 ≤ m.qty := by omega
  rintro ⟨r', hmove⟩
  simp only [moveAverage, if_neg hq, bind_eq_ok, ensure_eq_ok, wrapI32_of_fits hfits.1,
    h.quantity] at hmove
  obtain ⟨-, hle, -⟩ := hmove
  omega

end

theorem foldlM_moveAverage (hfits : InI32 movements) :
    ((∃ r, valuate .average movements = .ok r) ↔ Covered movements) ∧
      ∀ r, valuate .average movements = .ok r → Priced movements r :=
  foldlM_tracks le_rfl priced_nil
    (fun front m _ hprefix hcovered => moveAverage_accepts (hfits front m hprefix hcovered))
    (fun front m _ hprefix hcovered => moveAverage_refuses (hfits front m hprefix hcovered))

/-! ## Both -/

theorem sum_mem_Icc {costs : List ℚ} {lo hi : ℚ} (h : ∀ c ∈ costs, lo ≤ c ∧ c ≤ hi) :
    costs.sum ∈ Set.Icc (costs.length * lo) (costs.length * hi) := by
  rw [← nsmul_eq_mul, ← nsmul_eq_mul]
  exact ⟨List.card_nsmul_le_sum costs lo fun c hc => (h c hc).1,
    List.sum_le_card_nsmul costs hi fun c hc => (h c hc).2⟩

/-- The units left under FIFO cost between the cheapest and the dearest purchase. -/
theorem valuateFifo_mem_Icc (hfits : InI32 movements) {q : ℤ} {v : ℚ}
    (h : valuate .fifo movements = .ok (q, v)) {lo hi : ℚ}
    (hlo : lo ∈ lowerBounds (unitCosts movements)) (hhi : hi ∈ upperBounds (unitCosts movements)) :
    v ∈ Set.Icc (q * lo) (q * hi) := by
  have hcovered := (valuateFifo_isOk_iff hfits).mp ⟨_, h⟩
  have hlength := length_unitsLeft hcovered
  have hunits := valuateFifo_eq hfits h
  simp only [Prod.mk.injEq] at hunits
  obtain ⟨rfl, rfl⟩ := hunits
  rw [← hlength, Int.cast_natCast]
  refine sum_mem_Icc fun c hc => ?_
  have hbought := mem_bought (List.mem_of_mem_drop hc)
  exact ⟨hlo hbought, hhi hbought⟩

end OpenAccounting.InventoryValuation
