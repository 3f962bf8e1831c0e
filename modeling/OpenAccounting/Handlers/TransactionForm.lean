import OpenAccounting.Handlers.Transactions
import OpenAccounting.Lib.Decimal
import Mathlib.Data.String.Basic

/-!
# The transaction form

The start of `create` in `handlers/transactions.rs`.  The lines of the form are read one after
the other, an entry with one account on both sides is refused, and every line with a tax rate
gets a leg of its own at the end of the lines.  What then sums to zero goes to the posting
service.

Ids, amounts and dates reach the model as their parsers leave them, and amounts are calculated
by a decimal arithmetic `d`.
-/

namespace OpenAccounting

open Calendar Commit Relational Rounding

/-- `load_active_tax_rates`. -/
def activeTaxRates (db : Db) (ledger : Uuid) : List TaxRate :=
  orderBy (fun r => toLex (r.kind.asStr, r.name))
    (db.taxRates.filter fun r => r.ledgerId = ledger ∧ r.isActive)

namespace Transactions

/-! ## The form -/

/-- `ParsedLine`: the fields of one line. -/
structure ParsedLine where
  accountId : Option Uuid
  amount : Option ℚ
  direction : String
  memo : String := ""
  /-- `some none` for a blank field. -/
  taxRateId : Option (Option Uuid) := some none
  costCenterId : Option (Option Uuid) := some none
  projectId : Option (Option Uuid) := some none

/-- `NewTxnForm`, with the further fields that `create` reads. -/
structure NewTxnForm where
  date : Option NaiveDate
  description : String
  payee : Option String := none
  reference : Option String := none
  number : Option String := none
  action : Option String := none
  overrideReason : Option String := none
  lines : List ParsedLine

/-- Why nothing is posted. -/
inductive Refusal where
  /-- The form again, with this message. -/
  | page (message : String)
  /-- The form again: "This entry moves money within" an account.  The map that finds it has
  no order, and this is the account of the first line that has one. -/
  | bothSides (account : Uuid)
  /-- The form again: "Postings do not balance", with the net. -/
  | unbalanced (net : ℚ)
  | error (e : AppError)
deriving DecidableEq

/-! ## Reading the lines -/

/-- The side a direction field names. -/
def parseDirection (s : String) : Option Direction :=
  if s = "DEBIT" then some .debit else if s = "CREDIT" then some .credit else none

def signedOn (side : Direction) (amount : ℚ) : ℚ :=
  match side with
  | .debit => amount
  | .credit => -amount

/-- One turn of the loop over the parsed lines. -/
def readLine (l : ParsedLine) : Except Refusal TxnLineInput := do
  let account ← okOr l.accountId (.page "Invalid account on a posting")
  let amount ← okOr (l.amount.filter fun a => 0 < a)
    (.page "Each posting must have a positive amount")
  let direction ← okOr (parseDirection l.direction) (.page "Each posting must be DEBIT or CREDIT")
  let taxRate ← okOr l.taxRateId (.page "Invalid tax rate on a posting")
  let costCenter ← okOr l.costCenterId
    (.error (.validation "Invalid cost center on a posting"))
  let project ← okOr l.projectId (.error (.validation "Invalid project on a posting"))
  .ok
    { accountId := account
      signedAmount := signedOn direction amount
      memo := if l.memo = "" then none else some l.memo
      taxRateId := taxRate
      costCenterId := costCenter
      projectId := project }

/-- The lines, in order. -/
def readLines : List ParsedLine → Except Refusal (List TxnLineInput)
  | [] => .ok []
  | l :: ls => do
    let input ← readLine l
    let rest ← readLines ls
    .ok (input :: rest)

/-! ## An account on both sides -/

/-- One turn of the loop over the lines. -/
def markSide (sides : Uuid → Bool × Bool) (i : TxnLineInput) : Uuid → Bool × Bool :=
  Function.update sides i.accountId
    (if 0 ≤ i.signedAmount then (true, (sides i.accountId).2)
      else ((sides i.accountId).1, true))

/-- `by_account`: whether an account has a debit, and whether it has a credit. -/
def byAccount (inputs : List TxnLineInput) : Uuid → Bool × Bool :=
  inputs.foldl markSide fun _ => (false, false)

/-- The guard against an entry within one account. -/
def checkSides (inputs : List TxnLineInput) : Except Refusal Unit :=
  match inputs.find? fun i => byAccount inputs i.accountId = (true, true) with
  | some i => .error (.bothSides i.accountId)
  | none => .ok ()

/-! ## The tax legs -/

/-- `taxed`: the lines with a tax rate, by index. -/
def taxedLines (inputs : List TxnLineInput) : List (ℕ × Uuid) :=
  inputs.zipIdx.filterMap fun l => l.1.taxRateId.map fun rate => (l.2, rate)

def taxAmount (d : Decimal.Arith) (base rate : ℚ) : ℚ := roundDpHalfEven 2 (d.mul base rate)

def taxLeg (d : Decimal.Arith) (rate : TaxRate) (l : TxnLineInput) : TxnLineInput where
  accountId := rate.accountId
  signedAmount :=
    let amount := taxAmount d |l.signedAmount| rate.rate
    if 0 ≤ l.signedAmount then amount else -amount
  memo := some (rate.name ++ " tax")

/-- The link of the taxed line at the index `i`. -/
def taxLink (d : Decimal.Arith) (rate : TaxRate) (rateId : Uuid) (i : ℕ) (l : TxnLineInput) :
    TaxLink where
  postingIdx := i
  taxRateId := rateId
  baseAmount := |l.signedAmount|
  taxAmount := taxAmount d |l.signedAmount| rate.rate

/-- The loop over the taxed lines.  The legs go to the vector that the indices are about. -/
def expandTaxes (d : Decimal.Arith) (rates : List TaxRate) (inputs : List TxnLineInput)
    (links : List TaxLink) :
    List (ℕ × Uuid) → Except Refusal (List TxnLineInput × List TaxLink)
  | [] => .ok (inputs, links)
  | (i, rateId) :: taxed => do
    let rate ← okOr (rates.find? fun r => r.id = rateId)
      (.page "Unknown or inactive tax rate selected.")
    -- `inputs[i]` panics when the index is out of bounds, which it never is.
    let l ← okOr inputs[i]? (.error (.internal "index out of bounds"))
    expandTaxes d rates (inputs ++ [taxLeg d rate l]) (links ++ [taxLink d rate rateId i l]) taxed

/-! ## The request -/

/-- `inputs.iter().map(|i| i.signed_amount).sum()`. -/
def netAmount (d : Decimal.Arith) (inputs : List TxnLineInput) : ℚ :=
  (inputs.map TxnLineInput.signedAmount).foldl d.add 0

/-- What the form asks the posting service to insert. -/
def submission (d : Decimal.Arith) (db : Db) (ledger user : Uuid) (form : NewTxnForm) :
    Except Refusal Submission := do
  ensure (2 ≤ form.lines.length) (.page "A transaction needs at least two postings.")
  let date ← okOr form.date (.page "Invalid date format (YYYY-MM-DD)")
  ensure (RustStr.trim form.description ≠ "") (.page "Description is required")
  let inputs ← readLines form.lines
  checkSides inputs
  let (inputs, links) ←
    expandTaxes d (activeTaxRates db ledger) inputs [] (taxedLines inputs)
  ensure (netAmount d inputs = 0) (.unbalanced (netAmount d inputs))
  .ok
    { new :=
        { ledgerId := ledger
          txnDate := date
          description := RustStr.trim form.description
          payee := RustStr.nonEmptyTrimmed form.payee
          reference := RustStr.nonEmptyTrimmed form.reference
          kind := some "standard"
          createdBy := user
          lines := inputs
          number := form.number.filter fun s => s ≠ ""
          taxLinks := links }
      saveAsDraft := form.action = some "draft"
      overrideReason := form.overrideReason }

def createFromForm (d : Decimal.Arith) (db : Db) (req retry : Request) (auth : Option Uuid)
    (ledger : Uuid) (form : NewTxnForm) : Except Refusal (Except AppError Response) × Db :=
  match authorize db auth ledger with
  | .error e => (.error (.error e), db)
  | .ok user =>
    match submission d db ledger user form with
    | .error refusal => (.error refusal, db)
    | .ok s =>
      let (answer, db) := post db req retry user s
      (.ok answer, db)

end Transactions

end OpenAccounting
