import OpenAccounting.Domain.Account
import OpenAccounting.Lib.Calendar
import OpenAccounting.Lib.Rounding

/-!
# Transactions and postings

The rows of the journal (`domain/transaction.rs`, `domain/posting.rs`, migration
`0001_init.sql`).  A transaction has a kind, which the `CHECK` of migration
`0058` restricts to nine values, and its postings carry the money.  Drafts and
pending journals are kept in the same table and excluded from reports by kind.

Amounts are rationals.  A `Decimal` of the source has 96 bits of mantissa, far
more than a stored amount of `NUMERIC(20,4)` needs, so sums of amounts that can be
stored are exact there as they are here.
-/

namespace OpenAccounting

open Calendar

inductive TxnKind where
  | standard
  | adjusting
  | closing
  | reversing
  | recurring
  | draft
  | posted
  | amortization
  | pending
deriving DecidableEq, Repr

namespace TxnKind

/-- The kind of a column value.  Anything else violates `transactions_kind_check`. -/
def fromDb (s : String) : Option TxnKind :=
  if s = "standard" then some .standard
  else if s = "adjusting" then some .adjusting
  else if s = "closing" then some .closing
  else if s = "reversing" then some .reversing
  else if s = "recurring" then some .recurring
  else if s = "draft" then some .draft
  else if s = "posted" then some .posted
  else if s = "amortization" then some .amortization
  else if s = "pending" then some .pending
  else none

/-- `kind NOT IN ('draft','pending')`, the filter of every report. -/
def reportable : TxnKind → Bool
  | .draft => false
  | .pending => false
  | _ => true

end TxnKind

structure Transaction where
  id : Uuid
  ledgerId : Uuid
  txnDate : NaiveDate
  description : String
  payee : Option String := none
  reference : Option String := none
  currency : String
  kind : TxnKind
  createdBy : Uuid
  reversesId : Option Uuid := none
  number : Option String := none
  templateId : Option Uuid := none
  contactId : Option Uuid := none
  createdAt : ℤ := 0
deriving DecidableEq

namespace Transaction

/-- The generated column `number_year`.  The database has no year zero: it counts
the astronomical years up to zero from `-1` down. -/
def numberYear (date : NaiveDate) : ℤ :=
  if date.year ≤ 0 then date.year - 1 else date.year

end Transaction

structure Posting where
  id : Uuid
  transactionId : Uuid
  accountId : Uuid
  amount : ℚ
  direction : Direction
  memo : Option String := none
  foreignAmount : Option ℚ := none
  foreignCurrency : Option String := none
  costCenterId : Option Uuid := none
  projectId : Option Uuid := none
  /-- `CHECK (amount > 0)`. -/
  amount_pos : 0 < amount := by decide +kernel
  /-- The column is `NUMERIC(20,4)`. -/
  amount_scale : Rounding.HasScale 4 amount := by decide +kernel
deriving DecidableEq

namespace Posting

/-- The amount with the sign of its side: debits count positive. -/
def signed (p : Posting) : ℚ :=
  match p.direction with
  | .debit => p.amount
  | .credit => -p.amount

/-- `SUM(CASE WHEN direction = d THEN amount ELSE 0 END)`. -/
def sumOn (d : Direction) (ps : List Posting) : ℚ :=
  (ps.map fun p => if p.direction = d then p.amount else 0).sum

/-- The sum of the signed amounts. -/
def net (ps : List Posting) : ℚ := (ps.map signed).sum

@[simp] theorem sumOn_nil (d : Direction) : sumOn d [] = 0 := rfl

@[simp] theorem sumOn_cons (d : Direction) (p : Posting) (ps : List Posting) :
    sumOn d (p :: ps) = (if p.direction = d then p.amount else 0) + sumOn d ps := by
  simp [sumOn]

@[simp] theorem sumOn_append (d : Direction) (ps qs : List Posting) :
    sumOn d (ps ++ qs) = sumOn d ps + sumOn d qs := by
  simp [sumOn]

@[simp] theorem net_nil : net [] = 0 := rfl

@[simp] theorem net_cons (p : Posting) (ps : List Posting) :
    net (p :: ps) = p.signed + net ps := by
  simp [net]

@[simp] theorem net_append (ps qs : List Posting) : net (ps ++ qs) = net ps + net qs := by
  simp [net]

theorem sumOn_sub_sumOn (ps : List Posting) :
    sumOn .debit ps - sumOn .credit ps = net ps := by
  induction ps with
  | nil => simp
  | cons p ps ih =>
    rw [sumOn_cons, sumOn_cons, net_cons, ← ih]
    cases hd : p.direction <;> simp [signed, hd] <;> ring

theorem sumOn_eq_sumOn_iff_net (ps : List Posting) :
    sumOn .debit ps = sumOn .credit ps ↔ net ps = 0 := by
  rw [← sumOn_sub_sumOn, sub_eq_zero]

end Posting

/-- A foreign-currency leg: a signed amount in `currency`. -/
structure ForeignLeg where
  signedAmount : ℚ
  currency : String
deriving DecidableEq

/-- A transaction line as a form or a caller supplies it.  A positive amount is a
debit, a negative one a credit. -/
structure TxnLineInput where
  accountId : Uuid
  signedAmount : ℚ
  memo : Option String := none
  taxRateId : Option Uuid := none
  foreign : Option ForeignLeg := none
  costCenterId : Option Uuid := none
  projectId : Option Uuid := none
deriving DecidableEq

/-- The side a signed amount is stored on: zero counts as a debit. -/
def Direction.ofSigned (amount : ℚ) : Direction :=
  if 0 ≤ amount then .debit else .credit

end OpenAccounting
