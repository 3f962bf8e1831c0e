import Mathlib.Data.Bool.Basic
import OpenAccounting.Domain.PostingService
import OpenAccounting.Handlers.Access
import OpenAccounting.Reports.TrialBalance

/-!
# Opening balances

`compute_balances` and `opening_balances_create` of `handlers/accounts.rs`.  The form gives
targets for balance-sheet accounts.  Every target that differs from the current balance becomes a
line, and one more line on the account "Opening Balances" takes their sum back.  That account is
created if the ledger has none, by a statement of its own, before the entry is posted.

The form's amounts are taken as the parser leaves them.
-/

namespace OpenAccounting

open Calendar Commit Relational

namespace Accounts

/-! ## Balances -/

/-- `FROM accounts a LEFT JOIN postings p ON p.account_id = a.id WHERE a.ledger_id = $1`. -/
def balanceRows (b : Books) (ledger : Uuid) : List (Account × Option Posting) :=
  (leftJoin (fun (a : Account) (p : Posting) => p.accountId = a.id) b.accounts b.postings).filter
    fun r => r.1.ledgerId = ledger

/-- Debits minus credits of joined rows.  A null amount does not enter the sums. -/
def rawBalance (rows : List (Account × Option Posting)) : ℚ :=
  Posting.sumOn .debit (rows.filterMap Prod.snd) - Posting.sumOn .credit (rows.filterMap Prod.snd)

def computeBalances (b : Books) (ledger : Uuid) : Uuid → Option ℚ :=
  insertAll ((groupBy Prod.fst (balanceRows b ledger)).map fun g =>
    (g.1.id, Reports.inNormalSense g.1.type (rawBalance g.2)))

/-- `a.ledger_id = $1 AND a.type IN ('ASSET', 'LIABILITY', 'EQUITY')`. -/
def OnOpeningForm (ledger : Uuid) (a : Account) : Prop :=
  a.ledgerId = ledger ∧ (a.type = .asset ∨ a.type = .liability ∨ a.type = .equity)

instance (ledger : Uuid) : DecidablePred (OnOpeningForm ledger) := by
  unfold OnOpeningForm
  infer_instance

def balanceSheetAccounts (b : Books) (ledger : Uuid) : List (Account × ℚ) :=
  (orderBy (fun a => toLex (a.type.asStr, toLex (a.code.isNone, toLex (a.code.getD "", a.name))))
    (b.accounts.filter fun a => OnOpeningForm ledger a)).map fun a =>
      (a, (computeBalances b ledger a.id).getD 0)

/-! ## The form -/

def OpeningBalancesExist (b : Books) (ledger : Uuid) : Prop :=
  ∃ t ∈ b.transactions, t.ledgerId = ledger ∧ t.description = "Opening balances" ∧
    t.kind.reportable

instance (b : Books) (ledger : Uuid) : Decidable (OpeningBalancesExist b ledger) := by
  unfold OpeningBalancesExist
  infer_instance

structure OpeningBalancesForm where
  /-- `none` when the text is no date. -/
  date : Option NaiveDate
  /-- `amount[<account_id>]`: `none` for a blank field, `some none` for a text that is no
  amount. -/
  amount : Uuid → Option (Option ℚ)

/-- The answers: the page again with an error, or a redirect. -/
inductive OpeningResponse where
  | page (error : String)
  | redirect
deriving DecidableEq

/-- One leg, in the account's normal direction. -/
def openingLine (a : Account) (delta : ℚ) : TxnLineInput where
  accountId := a.id
  signedAmount := if a.type = .asset then delta else -delta
  memo := some ("Opening balance — " ++ a.name)

/-- The legs of the accounts whose target differs from the current balance. -/
def openingLines (form : OpeningBalancesForm) :
    List (Account × ℚ) → Except AppError (List TxnLineInput)
  | [] => .ok []
  | (a, current) :: rows =>
    match form.amount a.id with
    | none => openingLines form rows
    | some raw => do
      let target ← okOr raw (.validation ("Invalid amount for " ++ a.name))
      let lines ← openingLines form rows
      if target - current = 0 then .ok lines
      else .ok (openingLine a (target - current) :: lines)

/-- The sum of the legs. -/
def openingNet (lines : List TxnLineInput) : ℚ := (lines.map TxnLineInput.signedAmount).sum

/-! ## The entry -/

/-- The account that is created. -/
def newOpeningAccount (req : Request) (ledger : Ledger) : Account where
  id := req.rowId 0
  ledgerId := ledger.id
  name := "Opening Balances"
  code := some "3010"
  type := .equity
  subtype := .equity
  currency := ledger.baseCurrency
  subtype_valid := by decide

/-- `SELECT id FROM accounts WHERE ledger_id = $1 AND name = 'Opening Balances'`. -/
def findOpeningAccount (b : Books) (ledger : Uuid) : Option Account :=
  b.accounts.find? fun a => a.ledgerId = ledger ∧ a.name = "Opening Balances"

/-- The contra account, found or created. -/
def openingAccount (db : Db) (req : Request) (ledger : Ledger) : Except SqlError (Uuid × Db) :=
  match findOpeningAccount db.books ledger.id with
  | some a => .ok (a.id, db)
  | none => do
    let db ← db.insertAccount (newOpeningAccount req ledger)
    .ok ((newOpeningAccount req ledger).id, db)

/-- The leg of the contra account. -/
def contraLine (contra : Uuid) (net : ℚ) : TxnLineInput where
  accountId := contra
  signedAmount := -net
  memo := some "Opening balances contra"

/-- What the handler asks the posting service to insert. -/
def openingTransaction (ledger user contra : Uuid) (date : NaiveDate)
    (lines : List TxnLineInput) : NewTransaction where
  ledgerId := ledger
  txnDate := date
  description := "Opening balances"
  reference := some "opening-balances"
  kind := some "standard"
  createdBy := user
  lines := lines ++ [contraLine contra (openingNet lines)]

/-- The error for a failed call of the posting service. -/
def openingError : PostingServiceError → AppError
  | .hardClosed _ closedThrough =>
    .conflict ("Ledger is closed through " ++ closedThrough.display ++
      ". Cannot post opening balances.")
  | .unbalanced _ _ => .validation "Opening balances do not balance"
  | _ => .internal "opening balances: "

/-- What the handler does with the legs of the form. -/
def postOpening (db : Db) (req : Request) (user : Uuid) (ledger : Ledger) (date : NaiveDate)
    (lines : List TxnLineInput) : Except AppError OpeningResponse × Db :=
  match openingAccount db req ledger with
  | .error e => (.error (.db e), db)
  | .ok (contra, db) =>
    match PostingService.create db req
        (openingTransaction ledger.id user contra date lines) with
    | (.error e, db) => (.error (openingError e), db)
    | (.ok _, db) => (.ok .redirect, db)

def openingBalancesCreate (db : Db) (req : Request) (auth : Option Uuid) (ledger : Uuid)
    (form : OpeningBalancesForm) : Except AppError OpeningResponse × Db :=
  match (do
      let user ← okOr auth .unauthorized
      let l ← db.ensureWriter user ledger
      .ok (user, l) : Except AppError (Uuid × Ledger)) with
  | .error e => (.error e, db)
  | .ok (user, l) =>
    if OpeningBalancesExist db.books ledger then
      (.ok (.page ("Opening balances have already been recorded for this ledger. " ++
        "Reverse the existing \"Opening balances\" entry to change them.")), db)
    else
      match form.date with
      | none => (.ok (.page "Invalid date (YYYY-MM-DD)"), db)
      | some date =>
        match openingLines form (balanceSheetAccounts db.books ledger) with
        | .error e => (.error e, db)
        | .ok lines =>
          if lines = [] ∨ openingNet lines = 0 then
            (.ok (.page ("Enter at least one opening balance that differs from the " ++
              "account's current balance.")), db)
          else postOpening db req user l date lines

end Accounts

end OpenAccounting
