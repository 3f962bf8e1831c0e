import OpenAccounting.Handlers.TransactionsBulk
import OpenAccounting.Api.Transactions
import OpenAccounting.Jobs.TemplateRun
import OpenAccounting.Lib.Runs

/-!
# The paths that write the journal

Eleven operations write transactions and postings in the course of everyday
bookkeeping.  `JournalOp` has one constructor for each, with everything the
operation receives, and `JournalOp.run` is the state it leaves.  The results they
return to their callers play no part in what holds of the books.
-/

namespace OpenAccounting

open Calendar

/-- An operation with its inputs. -/
inductive JournalOp where
  | create (req : Request) (new : NewTransaction)
  | createDraft (req : Request) (new : NewTransaction)
  | postDraft (ledger txn : Uuid)
  | deleteDraft (ledger txn : Uuid)
  | approveJournal (ledger txn checker : Uuid)
  | rejectJournal (ledger txn checker : Uuid)
  | reverse (req : Request) (auth : Option Uuid) (ledger txn : Uuid)
  | edit (req : Request) (auth : Option Uuid) (ledger txn : Uuid)
      (form : TransactionsEdit.EditForm)
  | bulkDelete (req : Request) (auth : Option Uuid) (ledger : Uuid) (txnIds : List Uuid)
  | apiCreate (req : Request) (user ledger : Uuid)
      (body : Api.Transactions.CreateTransactionBody)
  | runOccurrence (req : Request) (o : TemplateRun.Occurrence)

namespace JournalOp

/-- The database after the operation. -/
def run (db : Db) : JournalOp → Db
  | .create req new => (PostingService.create db req new).2
  | .createDraft req new => (PostingService.createDraft db req new).2
  | .postDraft ledger txn => (PostingService.postDraft db ledger txn).2
  | .deleteDraft ledger txn => (PostingService.deleteDraft db ledger txn).2
  | .approveJournal ledger txn checker => (PostingService.approveJournal db ledger txn checker).2
  | .rejectJournal ledger txn checker => (PostingService.rejectJournal db ledger txn checker).2
  | .reverse req auth ledger txn => (TransactionsEdit.reverse db req auth ledger txn).2
  | .edit req auth ledger txn form => (TransactionsEdit.edit db req auth ledger txn form).2
  | .bulkDelete req auth ledger ids =>
    (TransactionsBulk.bulkAction db req auth ledger { txnIds := ids, action := .delete }).2
  | .apiCreate req user ledger body => (Api.Transactions.create db req user ledger body).2
  | .runOccurrence req o => (TemplateRun.runOccurrence db req o).2

/-- The amounts the operation receives have at most four decimals. -/
def FourDecimals : JournalOp → Prop
  | .create _ new => ∀ l ∈ new.lines, Rounding.HasScale 4 l.signedAmount
  | .createDraft _ new => ∀ l ∈ new.lines, Rounding.HasScale 4 l.signedAmount
  | .edit _ _ _ _ form => ∀ l ∈ form.lines, ∀ a ∈ l.amount, Rounding.HasScale 4 a
  | .apiCreate _ _ _ body => ∀ l ∈ body.lines, Rounding.HasScale 4 l.amount
  | _ => True

instance (op : JournalOp) : Decidable op.FourDecimals :=
  match op with
  | .create _ new | .createDraft _ new =>
    inferInstanceAs (Decidable (∀ l ∈ new.lines, Rounding.HasScale 4 l.signedAmount))
  | .edit _ _ _ _ form =>
    inferInstanceAs (Decidable (∀ l ∈ form.lines, ∀ a ∈ l.amount, Rounding.HasScale 4 a))
  | .apiCreate _ _ _ body =>
    inferInstanceAs (Decidable (∀ l ∈ body.lines, Rounding.HasScale 4 l.amount))
  | .postDraft .. | .deleteDraft .. | .approveJournal .. | .rejectJournal .. | .reverse ..
  | .bulkDelete .. | .runOccurrence .. => inferInstanceAs (Decidable True)

end JournalOp

/-! ## A small ledger -/

namespace Sample

def ledgerId : Uuid := 1
def owner : Uuid := 7
def accountant : Uuid := 8
def cash : Uuid := 11
def sales : Uuid := 12

def march (day : ℕ) : NaiveDate := (NaiveDate.fromYmdOpt 2026 3 day).getD default

theorem hundred_pos : (0 : ℚ) < 100 := by norm_num

/-- A request on 15 March whose drawn ids all depend on `seed`. -/
def request (seed : ℕ) : Request where
  today := march 15
  now := seed
  txnId n := Fin.ofNat _ (1000 * seed + n)
  postingId n k := Fin.ofNat _ (1000000 * seed + 1000 * n + k)
  rowId n := Fin.ofNat _ (2000 * seed + n)
  fxLookup _ _ _ := .error "no rate"

/-- One ledger with two accounts, an owner and an accountant. -/
def db : Db where
  users := [{ id := owner }, { id := accountant }]
  ledgers := [{ id := ledgerId, ownerId := owner }]
  members := [{ ledgerId := ledgerId, userId := accountant, role := .accountant }]
  books := .ofChart
    [{ id := cash, ledgerId := ledgerId, name := "Cash on Hand", type := .asset,
       subtype := .currentAsset, subtype_valid := AccountType.currentAsset_valid },
     { id := sales, ledgerId := ledgerId, name := "Sales", type := .income,
       subtype := .operatingIncome, subtype_valid := AccountType.operatingIncome_valid }] (by decide)

def sale (amount : ℚ) : NewTransaction where
  ledgerId := ledgerId
  txnDate := march 10
  description := "Sale"
  createdBy := owner
  lines := [{ accountId := cash, signedAmount := amount },
    { accountId := sales, signedAmount := -amount }]

/-- An edit to the given debit and credit, dated 12 March. -/
def editForm (debit credit : ℚ) : TransactionsEdit.EditForm where
  date := some (march 12)
  description := "Sale, corrected"
  lines :=
    [{ accountId := some cash, amount := some debit, directionText := "DEBIT",
       direction := some .debit },
     { accountId := some sales, amount := some credit, directionText := "CREDIT",
       direction := some .credit }]

end Sample

end OpenAccounting
