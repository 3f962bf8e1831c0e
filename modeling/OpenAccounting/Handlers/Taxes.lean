import Mathlib.Data.String.Basic
import OpenAccounting.Handlers.Access
import OpenAccounting.Lib.Relational

/-!
# Budgets and tax rates

`delete` of `handlers/budgets.rs` and `toggle` of `handlers/taxes.rs`.  Each checks that
the user may write to the ledger of the path and then runs one statement on the row with
the given id.
-/

namespace OpenAccounting

open Commit Relational

namespace Budgets

def delete (db : Db) (auth : Option Uuid) (ledger budget : Uuid) : Except AppError Unit × Db :=
  commit db do
    let user ← okOr auth .unauthorized
    let _ ← db.ensureWriter user ledger
    .ok ((), { db with budgets := deleteWhere (fun b => b.id = budget) db.budgets })

theorem delete_ok {db db' : Db} {auth : Option Uuid} {ledger budget : Uuid}
    (h : delete db auth ledger budget = (.ok (), db')) :
    db' = { db with budgets := deleteWhere (fun b => b.id = budget) db.budgets } := by
  rw [delete, commit_eq_ok] at h
  simp only [bind_eq_ok] at h
  obtain ⟨_, -, _, -, h⟩ := h
  cases h
  rfl

end Budgets

namespace Taxes

def toggle (db : Db) (auth : Option Uuid) (ledger rate : Uuid) : Except AppError Unit × Db :=
  commit db do
    let user ← okOr auth .unauthorized
    let _ ← db.ensureWriter user ledger
    .ok ((), { db with
      taxRates := updateWhere (fun r => r.id = rate) (fun r => { r with isActive := !r.isActive })
        db.taxRates })

theorem toggle_ok {db db' : Db} {auth : Option Uuid} {ledger rate : Uuid}
    (h : toggle db auth ledger rate = (.ok (), db')) :
    db' = { db with
      taxRates := updateWhere (fun r => r.id = rate) (fun r => { r with isActive := !r.isActive })
        db.taxRates } := by
  rw [toggle, commit_eq_ok] at h
  simp only [bind_eq_ok] at h
  obtain ⟨_, -, _, -, h⟩ := h
  cases h
  rfl

end Taxes

end OpenAccounting

/-!
## The tax report

The query of `report` in `handlers/taxes.rs`: every tax rate of the ledger with the tax links on
it, their postings and their transactions, grouped by the rate.  The three joins are outer joins,
and the dates are compared in the `WHERE` clause after them.
-/

namespace OpenAccounting

open Calendar Relational

namespace Taxes

/-- One row of the report. -/
structure TaxSummary where
  id : Uuid
  name : String
  kind : TaxKind
  rate : ℚ
  totalBase : ℚ
  totalTax : ℚ
  txnCount : ℕ
deriving DecidableEq

/-- A row of the joined tables. -/
abbrev JoinedRow := ((TaxRate × Option PostingTax) × Option Posting) × Option Transaction

/-- `FROM tax_rates tr LEFT JOIN posting_taxes pt ON pt.tax_rate_id = tr.id
LEFT JOIN postings p ON p.id = pt.posting_id LEFT JOIN transactions t ON t.id = p.transaction_id`. -/
def joinedRows (db : Db) : List JoinedRow :=
  leftJoin (fun r (t : Transaction) => r.2.map Posting.transactionId = some t.id)
    (leftJoin (fun r (p : Posting) => r.2.map PostingTax.postingId = some p.id)
      (leftJoin (fun (r : TaxRate) (x : PostingTax) => x.taxRateId = r.id) db.taxRates
        db.postingTaxes)
      db.books.postings)
    db.books.transactions

/-- `($2::date IS NULL OR t.txn_date >= $2) AND ($3::date IS NULL OR t.txn_date <= $3)`. -/
def inRange (fromDate toDate : Option NaiveDate) (t : Option Transaction) : Bool :=
  (fromDate.all fun d => t.any fun t => d ≤ t.txnDate) &&
    toDate.all fun d => t.any fun t => t.txnDate ≤ d

/-- The rows that pass the `WHERE` clause. -/
def selectedRows (db : Db) (ledger : Uuid) (fromDate toDate : Option NaiveDate) : List JoinedRow :=
  (joinedRows db).filter fun r => r.1.1.1.ledgerId = ledger ∧ inRange fromDate toDate r.2

/-- `COALESCE(SUM(pt.base_amount), 0)`, `COALESCE(SUM(pt.tax_amount), 0)` and
`COUNT(DISTINCT pt.posting_id)` of a rate. -/
def summarize (r : TaxRate) (taxes : List PostingTax) : TaxSummary where
  id := r.id
  name := r.name
  kind := r.kind
  rate := r.rate
  totalBase := (taxes.map PostingTax.baseAmount).sum
  totalTax := (taxes.map PostingTax.taxAmount).sum
  txnCount := (taxes.map PostingTax.postingId).dedup.length

def report (db : Db) (ledger : Uuid) (fromDate toDate : Option NaiveDate) : List TaxSummary :=
  orderBy (fun s => toLex (s.kind.asStr, s.name))
    ((groupBy (fun r => r.1.1.1) (selectedRows db ledger fromDate toDate)).map fun g =>
      summarize g.1 (g.2.filterMap fun r => r.1.1.2))

end Taxes

end OpenAccounting
