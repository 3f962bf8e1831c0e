import OpenAccounting.Db.Statements
import OpenAccounting.Lib.Relational

/-!
# Investment lots

`domain/investment_lot.rs`.  A buy inserts a lot.  A sell is matched against the oldest lots with
something left: each iteration of `fifo_match` selects a lot, in one statement, and inserts a
disposal of what it takes from it, in another.
-/

namespace OpenAccounting.InvestmentLots

open Calendar Commit Relational Rounding

/-- The column type of shares and of prices per share, `NUMERIC(20,8)`. -/
def shareColumn (x : ℚ) : Option ℚ := numeric 20 8 x

def insertLot (db : Db) (l : InvestmentLot) : Except SqlError Db := do
  let qty ← okOr (shareColumn l.qty) .numericFieldOverflow
  let unitCost ← okOr (shareColumn l.unitCost) .numericFieldOverflow
  ensure (0 < qty) (.checkViolation "investment_lots_qty_check")
  ensure (0 ≤ unitCost) (.checkViolation "investment_lots_unit_cost_check")
  ensure (¬ ∃ k ∈ db.investmentLots, k.id = l.id) (.uniqueViolation "investment_lots_pkey")
  ensure (l.accountId ∈ db.books.accountIds) (.foreignKeyViolation "account_id")
  ensure (l.sourceTxnId ∈ db.books.txnIds) (.foreignKeyViolation "source_txn_id")
  .ok { db with
    investmentLots := db.investmentLots ++ [{ l with qty := qty, unitCost := unitCost }] }

/-- What has been sold of a lot. -/
def sold (db : Db) (lot : Uuid) : ℚ :=
  ((db.investmentDisposals.filter fun d => d.lotId = lot).map InvestmentDisposal.qty).sum

/-- `l.qty - COALESCE(SUM(d.qty), 0)`. -/
def available (db : Db) (l : InvestmentLot) : ℚ := l.qty - sold db l.id

/-- The oldest lot with something left. -/
def candidate (db : Db) (account : Uuid) : Option InvestmentLot :=
  (orderBy (fun l => toLex (l.acquiredAt, l.id)) (db.investmentLots.filter fun l =>
    l.accountId = account ∧ 0 < available db l)).head?

/-- The arguments of a sell. -/
structure Sale where
  accountId : Uuid
  sellQty : ℚ
  unitProceeds : ℚ
  disposedAt : NaiveDate
  sourceTxnId : Uuid

/-- What an iteration has selected. -/
structure Selected where
  lotId : Uuid
  unitCost : ℚ
  available : ℚ

/-- The first statement of an iteration. -/
def select (db : Db) (sale : Sale) : Option Selected :=
  (candidate db sale.accountId).map fun l => ⟨l.id, l.unitCost, available db l⟩

def Selected.take (s : Selected) (remaining : ℚ) : ℚ :=
  if s.available ≤ remaining then s.available else remaining

def disposalRow (id : Uuid) (sale : Sale) (s : Selected) (remaining : ℚ) : InvestmentDisposal :=
  let take := s.take remaining
  { id := id, lotId := s.lotId, qty := take, unitProceeds := sale.unitProceeds,
    disposedAt := sale.disposedAt, sourceTxnId := sale.sourceTxnId,
    realizedGain := take * sale.unitProceeds - take * s.unitCost }

def insertDisposal (db : Db) (d : InvestmentDisposal) : Except SqlError Db := do
  let qty ← okOr (shareColumn d.qty) .numericFieldOverflow
  let unitProceeds ← okOr (shareColumn d.unitProceeds) .numericFieldOverflow
  let realizedGain ← okOr (shareColumn d.realizedGain) .numericFieldOverflow
  ensure (0 < qty) (.checkViolation "investment_disposals_qty_check")
  ensure (0 ≤ unitProceeds) (.checkViolation "investment_disposals_unit_proceeds_check")
  ensure (¬ ∃ k ∈ db.investmentDisposals, k.id = d.id)
    (.uniqueViolation "investment_disposals_pkey")
  ensure (∃ l ∈ db.investmentLots, l.id = d.lotId) (.foreignKeyViolation "lot_id")
  ensure (d.sourceTxnId ∈ db.books.txnIds) (.foreignKeyViolation "source_txn_id")
  .ok { db with
    investmentDisposals := db.investmentDisposals ++
      [{ d with qty := qty, unitProceeds := unitProceeds, realizedGain := realizedGain }] }

/-! ## What they do -/

theorem insertLot_ok {db db' : Db} {l : InvestmentLot} (h : insertLot db l = .ok db') :
    ∃ k : InvestmentLot, k.id = l.id ∧ 0 < k.qty ∧ (∀ j ∈ db.investmentLots, j.id ≠ k.id) ∧
      db' = { db with investmentLots := db.investmentLots ++ [k] } := by
  simp only [insertLot, bind_eq_ok, okOr_eq_ok, ensure_eq_ok] at h
  obtain ⟨qty, -, unitCost, -, -, hqty, -, -, -, hfresh, -, -, -, -, h⟩ := h
  cases h
  exact ⟨{ l with qty := qty, unitCost := unitCost }, rfl, hqty,
    fun j hj hid => hfresh ⟨j, hj, hid⟩,
    rfl⟩

theorem insertDisposal_ok {db db' : Db} {d : InvestmentDisposal}
    (h : insertDisposal db d = .ok db') :
    ∃ k : InvestmentDisposal, k.lotId = d.lotId ∧ k.qty = roundDp 8 d.qty ∧
      (∃ l ∈ db.investmentLots, l.id = d.lotId) ∧
      db' = { db with investmentDisposals := db.investmentDisposals ++ [k] } := by
  simp only [insertDisposal, bind_eq_ok, okOr_eq_ok, ensure_eq_ok] at h
  obtain ⟨qty, hqty, unitProceeds, -, realizedGain, -, -, -, -, -, -, -, -, hlot, -, -, h⟩ := h
  cases h
  exact ⟨{ d with qty := qty, unitProceeds := unitProceeds, realizedGain := realizedGain }, rfl,
    numeric_eq_some hqty, hlot, rfl⟩

end OpenAccounting.InvestmentLots
