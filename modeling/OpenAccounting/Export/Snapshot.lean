import OpenAccounting.Domain.Account
import OpenAccounting.Lib.Calendar
import OpenAccounting.Lib.DecimalText
import OpenAccounting.Lib.Relational

/-!
# The ledger snapshot

The rows that the plain-text exports render, from `export/mod.rs`.  Both exporters write the
transactions in the order of their dates and, within a day, of their creation.
-/

namespace OpenAccounting.Export

open Calendar

structure LedgerMeta where
  id : Uuid
  name : String
  baseCurrency : String
  createdAt : UtcTime

structure AccountRow where
  id : Uuid
  name : String
  type : String
  currency : String

structure TransactionRow where
  id : Uuid
  txnDate : NaiveDate
  description : String
  payee : Option String := none
  reference : Option String := none
  createdAt : DateTime

structure PostingRow where
  id : Uuid
  transactionId : Uuid
  accountId : Uuid
  amount : Decimal.Scaled
  currency : String
  direction : String

structure LedgerSnapshot where
  ledger : LedgerMeta
  accounts : List AccountRow
  transactions : List TransactionRow
  postings : List PostingRow
  currencies : List String

/-- The amount of a posting from the side of its account.  Another direction panics. -/
def PostingRow.signed (p : PostingRow) : Option Decimal.Scaled :=
  if p.direction = "DEBIT" then some p.amount
  else if p.direction = "CREDIT" then some (-p.amount)
  else none

namespace LedgerSnapshot

variable (s : LedgerSnapshot)

/-- The transactions by date and time of creation. -/
def inOrder : List TransactionRow :=
  Relational.orderBy (fun t => toLex (t.txnDate, t.createdAt)) s.transactions

def postingsOf (t : TransactionRow) : List PostingRow :=
  s.postings.filter fun p => p.transactionId = t.id

/-- The account in a map that has been collected from the rows: of two with one id the later
one. -/
def findAccount (id : Uuid) : Option AccountRow :=
  s.accounts.reverse.find? fun a => a.id = id

end LedgerSnapshot

/-- A posting of the right sign and direction. -/
structure PostingRow.Valid (p : PostingRow) : Prop where
  positive : 0 < p.amount.value
  direction : p.direction = "DEBIT" ∨ p.direction = "CREDIT"

/-- The direction that a valid posting names. -/
def PostingRow.side (p : PostingRow) : Direction :=
  if p.direction = "DEBIT" then .debit else .credit

theorem PostingRow.Valid.signed_cases {p : PostingRow} (h : p.Valid) :
    (p.side = .debit ∧ p.signed = some p.amount) ∨ (p.side = .credit ∧ p.signed = some (-p.amount)) := by
  rcases h.direction with hdebit | hcredit
  · left
    simp [side, signed, hdebit]
  · right
    simp [side, signed, hcredit]

end OpenAccounting.Export
