import Mathlib.Algebra.Order.BigOperators.Group.List
import Mathlib.Algebra.Order.Field.Rat
import Mathlib.Tactic.Linarith
import Mathlib.Tactic.Ring

/-!
# Cost layers

Stock is a list of layers, each a quantity with its unit cost, the oldest first.  `draw` takes a
quantity from the front, and `drawn` is what it has cost.  A layer that is drawn empty stays in the
list with quantity zero, where it counts for nothing.  `units` reads the layers as a queue of single
units, where taking means dropping from the front.
-/

namespace CostLayers

/-- Quantity and unit cost of each layer, the oldest first. -/
abbrev Layers := List (ℤ × ℚ)

def quantity (layers : Layers) : ℤ := (layers.map Prod.fst).sum

/-- The cost of all layers. -/
def value (layers : Layers) : ℚ := (layers.map fun l => (l.1 : ℚ) * l.2).sum

/-- What is left when `need` is taken from the oldest layers. -/
def draw : Layers → ℤ → Layers
  | [], _ => []
  | l :: layers, need =>
    if need = 0 then l :: layers
    else (l.1 - min l.1 need, l.2) :: draw layers (need - min l.1 need)

/-- The cost of what is taken. -/
def drawn : Layers → ℤ → ℚ
  | [], _ => 0
  | l :: layers, need =>
    if need = 0 then 0 else ((min l.1 need : ℤ) : ℚ) * l.2 + drawn layers (need - min l.1 need)

/-- The layers with something left. -/
def remaining (layers : Layers) : Layers := layers.filter fun l => 0 < l.1

@[simp] theorem quantity_nil : quantity [] = 0 := rfl

@[simp] theorem quantity_cons (l : ℤ × ℚ) (layers : Layers) :
    quantity (l :: layers) = l.1 + quantity layers := by
  simp [quantity]

@[simp] theorem quantity_append (layers others : Layers) :
    quantity (layers ++ others) = quantity layers + quantity others := by
  simp [quantity]

@[simp] theorem value_nil : value [] = 0 := rfl

@[simp] theorem value_cons (l : ℤ × ℚ) (layers : Layers) :
    value (l :: layers) = l.1 * l.2 + value layers := by
  simp [value]

@[simp] theorem value_append (layers others : Layers) :
    value (layers ++ others) = value layers + value others := by
  simp [value]

theorem value_draw (layers : Layers) (need : ℤ) :
    value (draw layers need) = value layers - drawn layers need := by
  induction layers generalizing need with
  | nil => simp [draw, drawn]
  | cons l layers ih =>
    rw [draw, drawn]
    split
    · simp
    · rw [value_cons, ih, value_cons]
      push_cast
      ring

section Nonneg

variable {layers : Layers} (hnonneg : ∀ l ∈ layers, 0 ≤ l.1)
include hnonneg

theorem quantity_nonneg : 0 ≤ quantity layers := by
  refine List.sum_nonneg fun q hq => ?_
  obtain ⟨l, hl, rfl⟩ := List.mem_map.mp hq
  exact hnonneg l hl

theorem quantity_draw {need : ℤ} (h0 : 0 ≤ need) (hneed : need ≤ quantity layers) :
    quantity (draw layers need) = quantity layers - need := by
  induction layers generalizing need with
  | nil =>
    rw [quantity_nil] at hneed
    simp only [draw, quantity_nil]
    omega
  | cons l layers ih =>
    rw [draw]
    split
    · next h => simp [h]
    · have hl := hnonneg l List.mem_cons_self
      have hlayers := fun m hm => hnonneg m (List.mem_cons_of_mem l hm)
      have hrest := quantity_nonneg hlayers
      rw [quantity_cons] at hneed ⊢
      rw [ih hlayers (by omega) (by omega), quantity_cons]
      omega

theorem draw_nonneg (need : ℤ) : ∀ l ∈ draw layers need, 0 ≤ l.1 := by
  induction layers generalizing need with
  | nil => simp [draw]
  | cons l layers ih =>
    have hl := hnonneg l List.mem_cons_self
    rw [draw]
    split
    · exact hnonneg
    · intro m hm
      rcases List.mem_cons.mp hm with rfl | hm
      · dsimp only
        omega
      · exact ih (fun m hm => hnonneg m (List.mem_cons_of_mem _ hm)) _ m hm

theorem quantity_remaining : quantity (remaining layers) = quantity layers := by
  induction layers with
  | nil => rfl
  | cons l layers ih =>
    have hl := hnonneg l List.mem_cons_self
    have ih := ih fun m hm => hnonneg m (List.mem_cons_of_mem _ hm)
    rw [remaining] at ih ⊢
    rw [List.filter_cons]
    split
    · rw [quantity_cons, ih, quantity_cons]
    · next hempty =>
        have hempty : ¬ 0 < l.1 := by simpa using hempty
        rw [ih, quantity_cons]
        omega

theorem value_remaining : value (remaining layers) = value layers := by
  induction layers with
  | nil => rfl
  | cons l layers ih =>
    have hl := hnonneg l List.mem_cons_self
    have ih := ih fun m hm => hnonneg m (List.mem_cons_of_mem _ hm)
    rw [remaining] at ih ⊢
    rw [List.filter_cons]
    split
    · rw [value_cons, ih, value_cons]
    · next hempty =>
        have hempty : ¬ 0 < l.1 := by simpa using hempty
        have hzero : l.1 = 0 := by omega
        rw [ih, value_cons, hzero]
        simp

end Nonneg

theorem drawn_nonneg {layers : Layers} (hnonneg : ∀ l ∈ layers, 0 ≤ l.1 ∧ 0 ≤ l.2) {need : ℤ}
    (h0 : 0 ≤ need) : 0 ≤ drawn layers need := by
  induction layers generalizing need with
  | nil => simp [drawn]
  | cons l layers ih =>
    obtain ⟨hq, hc⟩ := hnonneg l List.mem_cons_self
    rw [drawn]
    split
    · exact le_rfl
    · have hmin : (0 : ℚ) ≤ ((min l.1 need : ℤ) : ℚ) := by exact_mod_cast le_min hq h0
      have hneed : 0 ≤ need - min l.1 need := by omega
      have hrest := ih (fun m hm => hnonneg m (List.mem_cons_of_mem _ hm)) hneed
      exact add_nonneg (mul_nonneg hmin hc) hrest

/-! ## Single units -/

/-- The cost of each unit, the oldest first. -/
def units (layers : Layers) : List ℚ := layers.flatMap fun l => List.replicate l.1.toNat l.2

@[simp] theorem units_nil : units [] = [] := rfl

@[simp] theorem units_cons (l : ℤ × ℚ) (layers : Layers) :
    units (l :: layers) = List.replicate l.1.toNat l.2 ++ units layers := rfl

@[simp] theorem units_append (layers others : Layers) :
    units (layers ++ others) = units layers ++ units others := List.flatMap_append

theorem units_draw {layers : Layers} (hnonneg : ∀ l ∈ layers, 0 ≤ l.1) {need : ℤ} (h0 : 0 ≤ need) :
    units (draw layers need) = (units layers).drop need.toNat := by
  induction layers generalizing need with
  | nil => simp [draw]
  | cons l layers ih =>
    have hl := hnonneg l List.mem_cons_self
    rw [draw]
    split
    · next h => simp [h]
    · have hleft : (l.1 - min l.1 need).toNat = l.1.toNat - need.toNat := by omega
      have hrest : (need - min l.1 need).toNat = need.toNat - l.1.toNat := by omega
      rw [units_cons, units_cons, List.drop_append, List.drop_replicate, List.length_replicate,
        hleft, ih (fun m hm => hnonneg m (List.mem_cons_of_mem _ hm)) (by omega), hrest]

theorem units_remaining (layers : Layers) : units (remaining layers) = units layers := by
  induction layers with
  | nil => rfl
  | cons l layers ih =>
    rw [remaining] at ih ⊢
    rw [List.filter_cons]
    split
    · rw [units_cons, ih, units_cons]
    · next hempty =>
        have hempty : ¬ 0 < l.1 := by simpa using hempty
        rw [ih, units_cons, Int.toNat_of_nonpos (not_lt.mp hempty), List.replicate_zero,
          List.nil_append]

theorem sum_units {layers : Layers} (hnonneg : ∀ l ∈ layers, 0 ≤ l.1) :
    (units layers).sum = value layers := by
  induction layers with
  | nil => rfl
  | cons l layers ih =>
    have hl : ((l.1.toNat : ℤ) : ℚ) = l.1 := by
      rw [Int.toNat_of_nonneg (hnonneg l List.mem_cons_self)]
    rw [units_cons, List.sum_append, List.sum_replicate, value_cons,
      ih fun m hm => hnonneg m (List.mem_cons_of_mem _ hm), nsmul_eq_mul, ← hl, Int.cast_natCast]

end CostLayers
