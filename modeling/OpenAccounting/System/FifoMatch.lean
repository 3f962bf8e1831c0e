import OpenAccounting.System.InvestmentSales
import Mathlib.Algebra.Order.BigOperators.Group.List

/-!
# Matching a sale alone

`fifo_match` as one call that nothing runs beside: the steps of `act` in a row.  Each iteration
selects the oldest lot with something left in the table as the iterations before have changed it.

The loop ends, because an iteration that leaves something to sell leaves one open lot less.  It
sells what there is of the quantity, from each lot only when all older ones are exhausted
(`fifoMatch_matched`).
-/

namespace OpenAccounting.InvestmentLots

open Calendar Commit Relational Rounding

/-! ## The loop -/

/-- An iteration, unless the loop ends before its insert: the row and the table with it. -/
def iterate (sale : Sale) (db : Db) (remaining : ℚ) (id : Uuid) :
    Option (Except SqlError (InvestmentDisposal × Db)) :=
  if 0 < remaining then
    (select db sale).map fun selected =>
      let row := disposalRow id sale selected remaining
      (insertDisposal db row).map fun db' => (row, db')
  else none

/-- The loop of `fifo_match`, with the ids that are drawn for the disposals.  There is no result
when it needs more of them. -/
def fifoLoop (sale : Sale) :
    List Uuid → Db → ℚ → Option (Except SqlError (List InvestmentDisposal) × Db)
  | [], db, remaining =>
    if 0 < remaining ∧ (select db sale).isSome then none else some (.ok [], db)
  | id :: ids, db, remaining =>
    match iterate sale db remaining id with
    | none => some (.ok [], db)
    | some (.error e) => some (.error e, db)
    | some (.ok (row, db')) =>
      (fifoLoop sale ids db' (remaining - row.qty)).map fun r => (r.1.map (row :: ·), r.2)

def fifoMatch (db : Db) (sale : Sale) (ids : List Uuid) :
    Option (Except SqlError (List InvestmentDisposal) × Db) :=
  fifoLoop sale ids db sale.sellQty

def remainingQty (db : Db) (account : Uuid) : ℚ :=
  ((db.investmentLots.filter fun l => l.accountId = account).map (available db)).sum

/-- The actions of the iterations. -/
def turns : List Uuid → List Action
  | [] => [.select]
  | id :: ids => .select :: .insert id :: turns ids

/-! ## What is left of a lot -/

/-- The order of the lots. -/
def lotKey (l : InvestmentLot) : NaiveDate ×ₗ Uuid := toLex (l.acquiredAt, l.id)

/-- What the disposals take from a lot. -/
def taken (disposals : List InvestmentDisposal) (lot : Uuid) : ℚ :=
  ((disposals.filter fun d => d.lotId = lot).map InvestmentDisposal.qty).sum

/-- The cost of a share of a lot. -/
def unitCostOf (db : Db) (lot : Uuid) : ℚ :=
  ((db.investmentLots.find? fun l => l.id = lot).map InvestmentLot.unitCost).getD 0

/-- The number of lots with something left. -/
def openLots (db : Db) (account : Uuid) : ℕ :=
  (db.investmentLots.filter fun l => l.accountId = account ∧ 0 < available db l).length

def stored (d : InvestmentDisposal) : InvestmentDisposal :=
  { d with
    unitProceeds := roundDp 8 d.unitProceeds
    realizedGain := roundDp 8 d.realizedGain }

/-- The database with more disposals. -/
def addDisposals (db : Db) (disposals : List InvestmentDisposal) : Db :=
  { db with investmentDisposals := db.investmentDisposals ++ disposals.map stored }

/-- The tables as the database keeps them, with no lot over-sold. -/
structure Exact (db : Db) : Prop where
  keyed : Keyed db
  notOversold : NotOversold db
  lots : ∀ l ∈ db.investmentLots, shareColumn l.qty = some l.qty
  disposals : ∀ d ∈ db.investmentDisposals, 0 < d.qty ∧ HasScale 8 d.qty

/-- What the database asks of the disposals of a call. -/
structure Acceptable (db : Db) (sale : Sale) (ids : List Uuid) : Prop where
  proceeds_fit : (shareColumn sale.unitProceeds).isSome
  proceeds_nonneg : 0 ≤ sale.unitProceeds
  gains_fit : ∀ l ∈ db.investmentLots, l.accountId = sale.accountId →
    (shareColumn (l.qty * (sale.unitProceeds - l.unitCost))).isSome
  txn : sale.sourceTxnId ∈ db.books.txnIds
  ids_nodup : ids.Nodup
  ids_fresh : ∀ d ∈ db.investmentDisposals, d.id ∉ ids

/-- A disposal takes from the oldest lot that the ones before it leave open, at most what is left of
it. -/
structure FromOldest (db : Db) (account : Uuid) (front : List InvestmentDisposal)
    (d : InvestmentDisposal) (lot : InvestmentLot) : Prop where
  mem : lot ∈ db.investmentLots
  id : d.lotId = lot.id
  onAccount : lot.accountId = account
  pos : 0 < d.qty
  within : d.qty ≤ available db lot - taken front lot.id
  oldest : ∀ l ∈ db.investmentLots, l.accountId = account → lotKey l < lotKey lot →
    available db l - taken front l.id = 0

/-- What the disposals of a call are. -/
structure Matched (db : Db) (sale : Sale) (qty : ℚ) (disposals : List InvestmentDisposal) :
    Prop where
  total : (disposals.map InvestmentDisposal.qty).sum = min qty (remainingQty db sale.accountId)
  oldest : ∀ front d, front ++ [d] <+: disposals → ∃ lot, FromOldest db sale.accountId front d lot
  gain : (disposals.map InvestmentDisposal.realizedGain).sum =
    (disposals.map fun d => d.qty * (sale.unitProceeds - unitCostOf db d.lotId)).sum

/-! ## One iteration -/

section

variable {db db' : Db} {sale : Sale} {selected : Selected} {remaining : ℚ} {id : Uuid}

theorem available_nonneg (h : Exact db) {l : InvestmentLot} (hl : l ∈ db.investmentLots) :
    0 ≤ available db l :=
  sub_nonneg.mpr (h.notOversold l hl)

theorem hasScale_available (h : Exact db) {l : InvestmentLot} (hl : l ∈ db.investmentLots) :
    HasScale 8 (available db l) := by
  have hqty : HasScale 8 l.qty := by
    rw [numeric_eq_some (h.lots l hl)]
    exact hasScale_roundDp 8 l.qty
  have hsold : HasScale 8 (sold db l.id) := by
    refine HasScale.list_sum fun x hx => ?_
    obtain ⟨d, hd, rfl⟩ := List.mem_map.mp hx
    exact (h.disposals d (List.mem_filter.mp hd).1).2
  rw [available, sub_eq_add_neg]
  exact hqty.add hsold.neg

theorem available_le (h : Exact db) (l : InvestmentLot) : available db l ≤ l.qty := by
  refine sub_le_self _ (List.sum_nonneg fun x hx => ?_)
  obtain ⟨d, hd, rfl⟩ := List.mem_map.mp hx
  exact (h.disposals d (List.mem_filter.mp hd).1).1.le

/-- What is selected is a lot of the account with something left, and no older one has. -/
theorem select_eq_some (h : select db sale = some selected) :
    ∃ lot ∈ db.investmentLots, lot.accountId = sale.accountId ∧ 0 < available db lot ∧
      selected = ⟨lot.id, lot.unitCost, available db lot⟩ ∧
      ∀ l ∈ db.investmentLots, l.accountId = sale.accountId → lotKey l < lotKey lot →
        ¬ 0 < available db l := by
  obtain ⟨lot, hlot, rfl⟩ := Option.map_eq_some_iff.mp h
  have hsorted := pairwise_orderBy lotKey (db.investmentLots.filter fun l =>
    l.accountId = sale.accountId ∧ 0 < available db l)
  obtain ⟨rest, hrest⟩ := List.head?_eq_some_iff.mp hlot
  have hmem : ∀ l, l ∈ db.investmentLots ∧ l.accountId = sale.accountId ∧ 0 < available db l ↔
      l ∈ lot :: rest := by
    intro l
    rw [← hrest, mem_orderBy, List.mem_filter, decide_eq_true_eq]
  obtain ⟨hmemLot, haccount, hopen⟩ := (hmem lot).mpr List.mem_cons_self
  refine ⟨lot, hmemLot, haccount, hopen, rfl, fun l hl hacc hlt hpos => ?_⟩
  rw [show orderBy lotKey _ = lot :: rest from hrest] at hsorted
  rcases List.mem_cons.mp ((hmem l).mp ⟨hl, hacc, hpos⟩) with rfl | hl
  · exact lt_irrefl _ hlt
  · exact not_le_of_gt hlt ((List.pairwise_cons.mp hsorted).1 l hl)

theorem select_eq_none (h : select db sale = none) :
    ∀ l ∈ db.investmentLots, l.accountId = sale.accountId → ¬ 0 < available db l := by
  intro l hl hacc hpos
  rw [select, Option.map_eq_none_iff, candidate, List.head?_eq_none_iff] at h
  have hmem : l ∈ orderBy (fun l : InvestmentLot => toLex (l.acquiredAt, l.id))
      (db.investmentLots.filter fun l => l.accountId = sale.accountId ∧ 0 < available db l) := by
    rw [mem_orderBy, List.mem_filter, decide_eq_true_eq]
    exact ⟨hl, hacc, hpos⟩
  rw [h] at hmem
  cases hmem

/-- An iteration takes all that is left of the lot, or all that is left to sell. -/
theorem take_cases : selected.take remaining = selected.available ∧ selected.available ≤ remaining ∨
    selected.take remaining = remaining ∧ remaining < selected.available := by
  unfold Selected.take
  split
  · next h => exact Or.inl ⟨rfl, h⟩
  · next h => exact Or.inr ⟨rfl, not_le.mp h⟩

theorem realizedGain_disposalRow :
    (disposalRow id sale selected remaining).realizedGain =
      selected.take remaining * (sale.unitProceeds - selected.unitCost) := by
  rw [mul_sub]
  rfl

theorem insertDisposal_eq_ok {d : InvestmentDisposal} (hscale : HasScale 8 d.qty)
    (h : insertDisposal db d = .ok db') : db' = addDisposals db [d] := by
  simp only [insertDisposal, bind_eq_ok, okOr_eq_ok, ensure_eq_ok] at h
  obtain ⟨qty, hqty, unitProceeds, hproceeds, gain, hgain, -, -, -, -, -, -, -, -, -, -, h⟩ := h
  cases h
  rw [numeric_of_hasScale hscale hqty, numeric_eq_some hproceeds, numeric_eq_some hgain]
  rfl

theorem taken_cons (d : InvestmentDisposal) (front : List InvestmentDisposal) (lot : Uuid) :
    taken (d :: front) lot = (if d.lotId = lot then d.qty else 0) + taken front lot := by
  unfold taken
  by_cases hd : d.lotId = lot
  · simp [hd]
  · simp [hd]

theorem available_addDisposals (d : InvestmentDisposal) (l : InvestmentLot) :
    available (addDisposals db [d]) l = available db l - if d.lotId = l.id then d.qty else 0 := by
  have hsold := sold_concat db (stored d) l.id
  rw [available, available, sub_sub]
  exact congrArg (l.qty - ·) hsold

end

/-- The database after the disposal of an iteration. -/
structure Iterated (db db' : Db) (sale : Sale) (lot : InvestmentLot) (take : ℚ)
    (row : InvestmentDisposal) : Prop where
  mem : lot ∈ db.investmentLots
  account : lot.accountId = sale.accountId
  isOpen : 0 < available db lot
  oldest : ∀ l ∈ db.investmentLots, l.accountId = sale.accountId → lotKey l < lotKey lot →
    ¬ 0 < available db l
  lotId : row.lotId = lot.id
  qty : row.qty = take
  gain : row.realizedGain = take * (sale.unitProceeds - lot.unitCost)
  pos : 0 < take
  within : take ≤ available db lot
  hasScale : HasScale 8 take
  eq : db' = addDisposals db [row]

section

variable {db db' : Db} {sale : Sale} {lot : InvestmentLot} {take : ℚ} {row : InvestmentDisposal}

theorem Iterated.available_eq (h : Iterated db db' sale lot take row) (l : InvestmentLot) :
    available db' l = available db l - if lot.id = l.id then take else 0 := by
  rw [h.eq, available_addDisposals, h.lotId, h.qty]

theorem Iterated.lots_eq (h : Iterated db db' sale lot take row) :
    db'.investmentLots = db.investmentLots := by
  rw [h.eq]
  rfl

theorem Exact.lot_eq (h : Exact db) {k l : InvestmentLot} (hk : k ∈ db.investmentLots)
    (hl : l ∈ db.investmentLots) (hid : k.id = l.id) : k = l :=
  List.inj_on_of_nodup_map h.keyed.lots hk hl hid

/-- An iteration keeps the tables exact. -/
theorem Iterated.exact (h : Iterated db db' sale lot take row) (hexact : Exact db) : Exact db' where
  keyed := by
    rw [h.eq]
    refine ⟨hexact.keyed.lots, ?_⟩
    rw [addDisposals, List.forall_mem_append]
    refine ⟨hexact.keyed.lot_fk, fun d hd => ?_⟩
    rw [List.map_singleton, List.mem_singleton] at hd
    rw [hd]
    show row.lotId ∈ _
    rw [h.lotId]
    exact List.mem_map_of_mem h.mem
  notOversold := by
    intro l hl
    rw [h.lots_eq] at hl
    have hleft := h.available_eq l
    have hnonneg := available_nonneg hexact hl
    have hle : (if lot.id = l.id then take else 0) ≤ available db l := by
      split
      · next hid =>
          rw [← hexact.lot_eq h.mem hl hid]
          exact h.within
      · exact hnonneg
    rw [available] at hleft
    linarith
  lots := by
    rw [h.lots_eq]
    exact hexact.lots
  disposals := by
    rw [h.eq, addDisposals, List.forall_mem_append]
    refine ⟨hexact.disposals, fun d hd => ?_⟩
    rw [List.map_singleton, List.mem_singleton] at hd
    rw [hd]
    show 0 < row.qty ∧ HasScale 8 row.qty
    rw [h.qty]
    exact ⟨h.pos, h.hasScale⟩

theorem Iterated.remainingQty_eq (h : Iterated db db' sale lot take row) (hexact : Exact db) :
    remainingQty db' sale.accountId = remainingQty db sale.accountId - take := by
  have hlot : ∃ l ∈ db.investmentLots, l.id = lot.id ∧ l.accountId = sale.accountId :=
    ⟨lot, h.mem, rfl, h.account⟩
  have htake := sum_map_ite_key hexact.keyed.lots lot.id
    (fun l : InvestmentLot => l.accountId = sale.accountId) take
  rw [if_pos hlot] at htake
  rw [remainingQty, remainingQty, h.lots_eq, sum_map_filter, sum_map_filter, eq_sub_iff_add_eq]
  conv_lhs => rw [← htake]
  rw [← List.sum_map_add]
  congr 1
  refine List.map_congr_left fun l hl => ?_
  rw [h.available_eq l]
  by_cases hacc : l.accountId = sale.accountId
  · by_cases hid : l.id = lot.id
    · simp [hacc, hid]
    · simp [hacc, hid, Ne.symm hid]
  · simp [hacc]

theorem Iterated.openLots_lt (h : Iterated db db' sale lot take row)
    (hall : take = available db lot) :
    openLots db' sale.accountId < openLots db sale.accountId := by
  have hopen : ∀ l : InvestmentLot, 0 < available db' l → 0 < available db l := by
    intro l hpos
    have hle : (0 : ℚ) ≤ if lot.id = l.id then take else 0 := by
      split
      · exact h.pos.le
      · exact le_rfl
    rw [h.available_eq l] at hpos
    linarith
  have hsub : db'.investmentLots.filter (fun l => l.accountId = sale.accountId ∧
        0 < available db' l) =
      (db.investmentLots.filter fun l => l.accountId = sale.accountId ∧ 0 < available db l).filter
        fun l => 0 < available db' l := by
    rw [h.lots_eq, List.filter_filter]
    refine List.filter_congr fun l _ => ?_
    rw [← Bool.decide_and, decide_eq_decide]
    exact ⟨fun hl => ⟨hl.2, hl.1, hopen l hl.2⟩, fun hl => ⟨hl.2.1, hl.1⟩⟩
  rw [openLots, openLots, hsub, List.length_filter_lt_length_iff_exists]
  refine ⟨lot, ?_, ?_⟩
  · rw [List.mem_filter, decide_eq_true_eq]
    exact ⟨h.mem, h.account, h.isOpen⟩
  · rw [decide_eq_true_eq, h.available_eq lot, if_pos rfl, hall, sub_self]
    exact lt_irrefl 0

theorem Iterated.fromOldest (h : Iterated db db' sale lot take row) (hexact : Exact db) :
    FromOldest db sale.accountId [] row lot where
  mem := h.mem
  id := h.lotId
  onAccount := h.account
  pos := h.qty ▸ h.pos
  within := by
    rw [h.qty]
    simpa [taken] using h.within
  oldest := by
    intro l hl hacc hlt
    have hzero := le_antisymm (not_lt.mp (h.oldest l hl hacc hlt)) (available_nonneg hexact hl)
    simpa [taken] using hzero

theorem Iterated.fromOldest_cons (h : Iterated db db' sale lot take row)
    {front : List InvestmentDisposal} {d : InvestmentDisposal} {k : InvestmentLot}
    (hd : FromOldest db' sale.accountId front d k) :
    FromOldest db sale.accountId (row :: front) d k := by
  have hleft : ∀ l : InvestmentLot,
      available db l - taken (row :: front) l.id = available db' l - taken front l.id := by
    intro l
    rw [h.available_eq l, taken_cons, h.lotId, h.qty]
    ring
  refine ⟨h.lots_eq ▸ hd.mem, hd.id, hd.onAccount, hd.pos, ?_, fun l hl hacc hlt => ?_⟩
  · rw [hleft]
    exact hd.within
  · rw [hleft]
    exact hd.oldest l (h.lots_eq ▸ hl) hacc hlt

theorem Iterated.matched_cons (h : Iterated db db' sale lot take row) (hexact : Exact db)
    {remaining : ℚ} {disposals : List InvestmentDisposal}
    (hrest : Matched db' sale (remaining - take) disposals) :
    Matched db sale remaining (row :: disposals) where
  total := by
    rw [List.map_cons, List.sum_cons, hrest.total, h.remainingQty_eq hexact, h.qty,
      ← min_add_add_left, add_sub_cancel, add_sub_cancel]
  oldest := by
    intro front d hstart
    cases front with
    | nil =>
      rw [List.nil_append, List.cons_prefix_cons] at hstart
      rw [hstart.1]
      exact ⟨lot, h.fromOldest hexact⟩
    | cons first front =>
      rw [List.cons_append, List.cons_prefix_cons] at hstart
      obtain ⟨rfl, hstart⟩ := hstart
      obtain ⟨k, hk⟩ := hrest.oldest front d hstart
      exact ⟨k, h.fromOldest_cons hk⟩
  gain := by
    have hcost : unitCostOf db row.lotId = lot.unitCost := by
      rw [unitCostOf, h.lotId, find?_key_eq_some hexact.keyed.lots h.mem]
      rfl
    have hsame : ∀ id, unitCostOf db' id = unitCostOf db id := fun id => by
      rw [unitCostOf, unitCostOf, h.lots_eq]
    rw [List.map_cons, List.map_cons, List.sum_cons, List.sum_cons, hrest.gain, h.gain, hcost,
      h.qty]
    simp only [hsame]

theorem Iterated.acceptable (h : Iterated db db' sale lot take row) {ids : List Uuid}
    (haccept : Acceptable db sale (row.id :: ids)) : Acceptable db' sale ids where
  proceeds_fit := haccept.proceeds_fit
  proceeds_nonneg := haccept.proceeds_nonneg
  gains_fit := by
    rw [h.lots_eq]
    exact haccept.gains_fit
  txn := by
    rw [h.eq]
    exact haccept.txn
  ids_nodup := (List.nodup_cons.mp haccept.ids_nodup).2
  ids_fresh := by
    rw [h.eq, addDisposals, List.forall_mem_append]
    refine ⟨fun d hd hid => haccept.ids_fresh d hd (List.mem_cons_of_mem _ hid), fun d hd => ?_⟩
    rw [List.map_singleton, List.mem_singleton] at hd
    rw [hd]
    exact (List.nodup_cons.mp haccept.ids_nodup).1

end

section

variable {db db' : Db} {sale : Sale} {selected : Selected} {remaining : ℚ} {id : Uuid}
  (hexact : Exact db) (hpos : 0 < remaining) (hscale : HasScale 8 remaining)
  (hselect : select db sale = some selected)
include hexact hpos hscale hselect

/-- What an iteration takes is positive, exact, and not more than is left. -/
theorem take_spec : 0 < selected.take remaining ∧ selected.take remaining ≤ selected.available ∧
    selected.take remaining ≤ remaining ∧ HasScale 8 (selected.take remaining) := by
  obtain ⟨lot, hlot, -, hopen, rfl, -⟩ := select_eq_some hselect
  rcases take_cases with ⟨htake, hle⟩ | ⟨htake, hlt⟩
  · rw [htake]
    exact ⟨hopen, le_rfl, hle, hasScale_available hexact hlot⟩
  · rw [htake]
    exact ⟨hpos, hlt.le, le_rfl, hscale⟩

theorem iterated_of_insert
    (hinsert : insertDisposal db (disposalRow id sale selected remaining) = .ok db') :
    ∃ lot, available db lot = selected.available ∧
      Iterated db db' sale lot (selected.take remaining)
        (disposalRow id sale selected remaining) := by
  obtain ⟨htake, hwithin, -, htakeScale⟩ := take_spec hexact hpos hscale hselect
  obtain ⟨lot, hlot, haccount, hopen, rfl, holdest⟩ := select_eq_some hselect
  exact ⟨lot, rfl, hlot, haccount, hopen, holdest, rfl, rfl, realizedGain_disposalRow, htake,
    hwithin, htakeScale, insertDisposal_eq_ok htakeScale hinsert⟩

theorem insertDisposal_accepts {ids : List Uuid} (haccept : Acceptable db sale (id :: ids)) :
    ∃ db', insertDisposal db (disposalRow id sale selected remaining) = .ok db' := by
  obtain ⟨htake, hwithin, -, htakeScale⟩ := take_spec hexact hpos hscale hselect
  obtain ⟨lot, hlot, haccount, hopen, rfl, -⟩ := select_eq_some hselect
  have hqty := hwithin.trans (available_le hexact lot)
  obtain ⟨qty, hfit⟩ := Option.isSome_iff_exists.mp
    (numeric_isSome_of_abs_le (abs_le_abs_of_nonneg htake.le hqty)
      (Option.isSome_iff_exists.mpr ⟨_, hexact.lots lot hlot⟩))
  obtain ⟨proceeds, hproceeds⟩ := Option.isSome_iff_exists.mp haccept.proceeds_fit
  have hgain := haccept.gains_fit lot hlot haccount
  have hgainLe : |Selected.take ⟨lot.id, lot.unitCost, available db lot⟩ remaining *
      (sale.unitProceeds - lot.unitCost)| ≤ |lot.qty * (sale.unitProceeds - lot.unitCost)| := by
    rw [abs_mul, abs_mul]
    exact mul_le_mul_of_nonneg_right (abs_le_abs_of_nonneg htake.le hqty) (abs_nonneg _)
  obtain ⟨gain, hgain⟩ := Option.isSome_iff_exists.mp (numeric_isSome_of_abs_le hgainLe hgain)
  simp only [insertDisposal, bind_eq_ok, okOr_eq_ok, ensure_eq_ok]
  refine ⟨_, qty, hfit, proceeds, hproceeds, gain, ?_, (), ?_, (), ?_, (), ?_, (),
    ⟨lot, hlot, rfl⟩, (), haccept.txn, rfl⟩
  · rw [realizedGain_disposalRow]
    exact hgain
  · rw [numeric_of_hasScale htakeScale hfit]
    exact htake
  · rw [numeric_eq_some hproceeds]
    exact roundDp_nonneg haccept.proceeds_nonneg
  · rintro ⟨d, hd, hid⟩
    exact haccept.ids_fresh d hd (hid ▸ List.mem_cons_self)

end

/-! ## The whole loop -/

section

variable {db db' : Db} {sale : Sale} {remaining : ℚ} {ids : List Uuid}

theorem iterate_eq_none {id : Uuid} :
    iterate sale db remaining id = none ↔ ¬ 0 < remaining ∨ select db sale = none := by
  unfold iterate
  split
  · next hpos => simp [hpos]
  · next hstop => simp [hstop]

theorem iterate_eq_some {id : Uuid} {r : Except SqlError (InvestmentDisposal × Db)}
    (h : iterate sale db remaining id = some r) :
    0 < remaining ∧ ∃ selected, select db sale = some selected ∧
      (insertDisposal db (disposalRow id sale selected remaining)).map
        (fun db' => (disposalRow id sale selected remaining, db')) = r := by
  unfold iterate at h
  split at h
  · next hpos => exact ⟨hpos, Option.map_eq_some_iff.mp h⟩
  · cases h

theorem matched_nil (hexact : Exact db) (h0 : 0 ≤ remaining)
    (h : ¬ 0 < remaining ∨ select db sale = none) : Matched db sale remaining [] where
  total := by
    have hnonneg : ∀ x ∈ (db.investmentLots.filter fun l => l.accountId = sale.accountId).map
        (available db), 0 ≤ x := by
      intro x hx
      obtain ⟨l, hl, rfl⟩ := List.mem_map.mp hx
      exact available_nonneg hexact (List.mem_filter.mp hl).1
    rcases h with hzero | hnone
    · rw [le_antisymm (not_lt.mp hzero) h0]
      exact (min_eq_left (List.sum_nonneg hnonneg)).symm
    · have hleft : remainingQty db sale.accountId = 0 := by
        refine List.sum_eq_zero fun x hx => ?_
        obtain ⟨l, hl, rfl⟩ := List.mem_map.mp hx
        rw [List.mem_filter, decide_eq_true_eq] at hl
        exact le_antisymm (not_lt.mp (select_eq_none hnone l hl.1 hl.2))
          (available_nonneg hexact hl.1)
      rw [hleft, min_eq_right h0]
      rfl
  oldest := by
    intro front d hstart
    simp at hstart
  gain := rfl

theorem openLots_pos {selected : Selected} (h : select db sale = some selected) :
    0 < openLots db sale.accountId := by
  obtain ⟨lot, hlot, haccount, hopen, -⟩ := select_eq_some h
  refine List.length_pos_of_mem (a := lot) ?_
  rw [List.mem_filter, decide_eq_true_eq]
  exact ⟨hlot, haccount, hopen⟩

/-- What a terminating call has done. -/
structure Outcome (db : Db) (sale : Sale) (remaining : ℚ) (ids : List Uuid)
    (r : Except SqlError (List InvestmentDisposal) × Db) : Prop where
  accepted : Acceptable db sale ids → r.1.isOk
  matched : ∀ disposals, r.1 = .ok disposals →
    Matched db sale remaining disposals ∧ r.2 = addDisposals db disposals

theorem outcome_stop (hexact : Exact db) (h0 : 0 ≤ remaining)
    (h : ¬ 0 < remaining ∨ select db sale = none) :
    ∃ r, fifoLoop sale ids db remaining = some r ∧ Outcome db sale remaining ids r := by
  refine ⟨(.ok [], db), ?_, fun _ => rfl, ?_⟩
  · cases ids with
    | nil =>
      rw [fifoLoop, if_neg]
      rintro ⟨hpos, hsome⟩
      rcases h with hzero | hnone
      · exact hzero hpos
      · rw [hnone] at hsome
        cases hsome
    | cons id ids =>
      rw [fifoLoop, iterate_eq_none.mpr h]
  · rintro disposals ⟨⟩
    refine ⟨matched_nil hexact h0 h, ?_⟩
    simp [addDisposals]

/-- The loop ends, and what it inserts is a match of the sale. -/
theorem fifoLoop_outcome (hexact : Exact db) (h0 : 0 ≤ remaining) (hscale : HasScale 8 remaining)
    (hids : 0 < remaining → openLots db sale.accountId ≤ ids.length) :
    ∃ r, fifoLoop sale ids db remaining = some r ∧ Outcome db sale remaining ids r := by
  induction ids generalizing db remaining with
  | nil =>
    refine outcome_stop hexact h0 ?_
    rcases h0.eq_or_lt with rfl | hpos
    · exact Or.inl (lt_irrefl 0)
    · cases hselect : select db sale with
      | none => exact Or.inr rfl
      | some selected => exact absurd (hids hpos) (not_le_of_gt (openLots_pos hselect))
  | cons id ids ih =>
    cases hiterate : iterate sale db remaining id with
    | none => exact outcome_stop hexact h0 (iterate_eq_none.mp hiterate)
    | some turn =>
      obtain ⟨hpos, selected, hselect, hturn⟩ := iterate_eq_some hiterate
      rw [fifoLoop, hiterate]
      cases turn with
      | error e =>
        refine ⟨_, rfl, fun haccept => ?_, by rintro disposals ⟨⟩⟩
        obtain ⟨db', hinsert⟩ := insertDisposal_accepts hexact hpos hscale hselect haccept
        rw [hinsert] at hturn
        cases hturn
      | ok turn =>
        obtain ⟨db', hinsert, rfl⟩ := map_eq_ok hturn
        obtain ⟨-, -, htake, htakeScale⟩ := take_spec hexact hpos hscale hselect
        obtain ⟨lot, hlot, hstep⟩ := iterated_of_insert hexact hpos hscale hselect hinsert
        have hrest : HasScale 8 (remaining - selected.take remaining) := by
          rw [sub_eq_add_neg]
          exact hscale.add htakeScale.neg
        have hfuel : 0 < remaining - selected.take remaining →
            openLots db' sale.accountId ≤ ids.length := by
          intro hmore
          rcases take_cases with ⟨hall, -⟩ | ⟨hall, -⟩
          · have hlt := hstep.openLots_lt (hall.trans hlot.symm)
            have hle := hids hpos
            rw [List.length_cons] at hle
            omega
          · rw [hall, sub_self] at hmore
            exact absurd hmore (lt_irrefl 0)
        obtain ⟨r, hr, houtcome⟩ := ih (hstep.exact hexact) (sub_nonneg.mpr htake) hrest hfuel
        have hrun : fifoLoop sale ids db'
            (remaining - (disposalRow id sale selected remaining).qty) = some r := hr
        dsimp only
        rw [hrun]
        refine ⟨_, rfl, fun haccept => ?_, fun disposals hdisposals => ?_⟩
        · obtain ⟨rest, hok⟩ :=
            exists_ok_of_isOk (houtcome.accepted (hstep.acceptable haccept))
          simp only [hok]
          rfl
        · obtain ⟨rest, hok, rfl⟩ := map_eq_ok hdisposals
          obtain ⟨hmatched, hdb⟩ := houtcome.matched rest hok
          refine ⟨hstep.matched_cons hexact hmatched, ?_⟩
          simp only [hdb, hstep.eq, addDisposals, List.map_cons, List.map_nil,
            List.append_assoc, List.singleton_append]

end

/-! ## The steps of the call -/

theorem foldl_act_idle (n : ℕ) (db : Db) (ids : List Uuid) :
    (turns ids).foldl (fun c a => act n c.1 c.2 a) (db, .idle) = (db, .idle) := by
  induction ids with
  | nil => rfl
  | cons id ids ih => exact ih

theorem act_selecting (n : ℕ) (db : Db) (sale : Sale) (remaining : ℚ) :
    act n db (.selecting sale remaining) .select =
      match select db sale with
      | some selected => (db, .inserting sale remaining selected)
      | none => (db, .idle) := (rfl)

theorem act_inserting (n : ℕ) (db : Db) (sale : Sale) (remaining : ℚ) (selected : Selected)
    (id : Uuid) :
    act n db (.inserting sale remaining selected) (.insert id) =
      match insertDisposal db (disposalRow id sale selected remaining) with
      | .ok db' => (db', .loop sale (remaining - selected.take remaining))
      | .error _ => (db, .idle) := (rfl)

/-- The steps of the loop, one iteration at a time, are `fifoLoop`. -/
theorem foldl_act_loop {n : ℕ} {sale : Sale} {ids : List Uuid} {db db' : Db} {remaining : ℚ}
    {answer : Except SqlError (List InvestmentDisposal)}
    (h : fifoLoop sale ids db remaining = some (answer, db')) :
    (turns ids).foldl (fun c a => act n c.1 c.2 a) (db, .loop sale remaining) = (db', .idle) := by
  induction ids generalizing db remaining answer with
  | nil =>
    rw [fifoLoop] at h
    split at h
    · cases h
    · next hstop =>
        obtain rfl : db = db' := (Prod.mk.inj (Option.some.inj h)).2
        rw [turns, List.foldl_cons, List.foldl_nil, Place.loop]
        split
        · next hpos =>
            have hnone : select db sale = none := by
              simpa [hpos] using hstop
            rw [act_selecting, hnone]
        · rfl
  | cons id ids ih =>
    rw [fifoLoop] at h
    rw [Place.loop]
    cases hiterate : iterate sale db remaining id with
    | none =>
      simp only [hiterate, Option.some.injEq, Prod.mk.injEq] at h
      rw [← h.2]
      rcases iterate_eq_none.mp hiterate with hstop | hnone
      · rw [if_neg hstop]
        exact foldl_act_idle n db (id :: ids)
      · split
        · rw [turns, List.foldl_cons, List.foldl_cons, act_selecting, hnone]
          exact foldl_act_idle n db (id :: ids)
        · exact foldl_act_idle n db (id :: ids)
    | some turn =>
      obtain ⟨hpos, selected, hselect, hturn⟩ := iterate_eq_some hiterate
      rw [if_pos hpos, turns, List.foldl_cons, List.foldl_cons, act_selecting, hselect,
        act_inserting]
      cases hinsert : insertDisposal db (disposalRow id sale selected remaining) with
      | error e =>
        rw [hinsert] at hturn
        obtain rfl : Except.error e = turn := hturn
        simp only [hiterate, Option.some.injEq, Prod.mk.injEq] at h
        rw [← h.2]
        exact foldl_act_idle n db ids
      | ok db₁ =>
        rw [hinsert] at hturn
        obtain rfl : Except.ok (disposalRow id sale selected remaining, db₁) = turn := hturn
        simp only [hiterate] at h
        obtain ⟨⟨rest, db₂⟩, hrest, hr⟩ := Option.map_eq_some_iff.mp h
        obtain rfl : db₂ = db' := (Prod.mk.inj hr).2
        exact ih hrest

/-- The steps of a sale that nothing interrupts are one call of `fifo_match`. -/
theorem fifoMatch_eq_exec {n : ℕ} {sale : Sale} {ids : List Uuid} {db' : Db} {s : State}
    {answer : Except SqlError (List InvestmentDisposal)} (hidle : s.place n = .idle)
    (h : fifoMatch s.shared sale ids = some (answer, db')) :
    (Runs.exec step s ((.sell sale :: turns ids).map (n, ·))).shared = db' := by
  have halone := (@Threads.exec_alone _ _ _ _ _ act n s (.sell sale :: turns ids)).1
  rw [hidle] at halone
  exact halone.trans (congrArg Prod.fst (foldl_act_loop h))

namespace Sample

/-- A second, later lot, of which half is sold already. -/
def laterLot : InvestmentLot where
  id := 85
  accountId := lot.accountId
  acquiredAt := OpenAccounting.Sample.march 5
  qty := 40
  unitCost := 7
  currency := "USD"
  sourceTxnId := trade.id

/-- Both lots, and the earlier sale. -/
def twoLots : Db :=
  { start.shared with
    investmentLots := [laterLot, lot]
    investmentDisposals :=
      [⟨86, laterLot.id, 20, 6, OpenAccounting.Sample.march 6, trade.id, -20⟩] }

theorem twoLots_exact : Exact twoLots where
  keyed := ⟨by decide, by decide⟩
  notOversold := by
    unfold NotOversold
    decide +kernel
  lots := by decide +kernel
  disposals := by decide +kernel

theorem twoLots_acceptable :
    Acceptable twoLots { sale with sellQty := 110 } [87, 88] where
  proceeds_fit := by decide +kernel
  proceeds_nonneg := by decide
  gains_fit := by decide +kernel
  txn := by decide
  ids_nodup := by decide
  ids_fresh := by decide

end Sample

/-- The sale of 110 shares ends the first lot and draws on the second. -/
theorem fifoMatch_eq_exec_sale :
    ∃ answer db', fifoMatch Sample.twoLots { Sample.sale with sellQty := 110 } [87, 88] =
        some (answer, db') ∧
      (Runs.exec step { Sample.start with shared := Sample.twoLots }
        ((.sell { Sample.sale with sellQty := 110 } :: turns [87, 88]).map (0, ·))).shared = db' := by
  have hsome : (fifoMatch Sample.twoLots { Sample.sale with sellQty := 110 } [87, 88]).isSome := by
    decide +kernel
  obtain ⟨⟨answer, db'⟩, hmatch⟩ := Option.isSome_iff_exists.mp hsome
  exact ⟨answer, db', hmatch,
    @fifoMatch_eq_exec 0 _ _ _ { Sample.start with shared := Sample.twoLots } _ rfl hmatch⟩

/-! ## The call -/

/-- Alone, `fifo_match` ends after at most one iteration for each open lot.  When the database
accepts its rows, it returns disposals of as much of the quantity as the account has, the oldest
lots first, at what they have gained, and has stored them. -/
theorem fifoMatch_matched {db : Db} {sale : Sale} {ids : List Uuid} (hexact : Exact db)
    (hpos : 0 < sale.sellQty) (hscale : HasScale 8 sale.sellQty)
    (hids : openLots db sale.accountId ≤ ids.length) :
    ∃ answer db', fifoMatch db sale ids = some (answer, db') ∧
      (Acceptable db sale ids → ∃ disposals, answer = .ok disposals) ∧
      ∀ disposals, answer = .ok disposals →
        Matched db sale sale.sellQty disposals ∧ db' = addDisposals db disposals := by
  obtain ⟨⟨answer, db'⟩, hmatch, houtcome⟩ := fifoLoop_outcome hexact hpos.le hscale fun _ => hids
  exact ⟨answer, db', hmatch, fun haccept => exists_ok_of_isOk (houtcome.accepted haccept),
    houtcome.matched⟩

/-- Of 120 shares in two lots 110 are sold: 100 of the older lot, 10 of the later one. -/
theorem fifoMatch_matched_twoLots :
    ∃ disposals db', fifoMatch Sample.twoLots { Sample.sale with sellQty := 110 } [87, 88] =
        some (.ok disposals, db') ∧
      Matched Sample.twoLots { Sample.sale with sellQty := 110 } 110 disposals := by
  obtain ⟨answer, db', hmatch, haccept, hmatched⟩ :=
    @fifoMatch_matched Sample.twoLots { Sample.sale with sellQty := 110 } [87, 88]
      Sample.twoLots_exact (by decide) (by decide +kernel) (by decide +kernel)
  obtain ⟨disposals, rfl⟩ := haccept Sample.twoLots_acceptable
  exact ⟨disposals, db', hmatch, (hmatched disposals rfl).1⟩

end OpenAccounting.InvestmentLots
