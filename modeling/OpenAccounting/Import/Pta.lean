import OpenAccounting.Db.Inserts
import OpenAccounting.Export.PlainText

/-!
# The plain-text import

`import/pta.rs`.  The accounts of the ledger and the fingerprints of its transactions are read once.
What is to become of an entry of the text follows from them alone: it is refused, skipped as a
duplicate or planned.  A dry run stops there, and the other run writes each planned entry in a
database transaction of its own.  An error is recorded, and the loop goes on.

A fingerprint has the date, the description, the payee and the sum of the amounts.  That of an entry
has the amounts as the text gives them, and that of a transaction the stored ones.
-/

namespace OpenAccounting.Import.Pta

open Calendar Commit

inductive PtaFormat where
  | beancount
  | hledgerCsv
deriving DecidableEq

/-- The parser of a format. -/
def parse (lib : Libraries) : PtaFormat → String → Except String (List PtaTxn)
  | .beancount => Beancount.parse lib
  | .hledgerCsv => Hledger.parse lib

/-! ## Accounts -/

/-- The names that `resolve_account` tries. -/
def candidates (name : String) : List String :=
  name :: (RustStr.afterLast ':' name).toList ++ [Export.Beancount.unmangleAccountName name]

/-- `resolve_account`.  The inner mangling is that of the exporter. -/
def resolveAccount (accounts : List (Uuid × String)) (name : String) : Option Uuid :=
  (candidates name).findSome? fun c =>
    ((accounts.find? fun a => a.2 = c) <|>
      accounts.find? fun a => a.2 = Export.Beancount.beancountAccountName c).map Prod.fst

def accountNames (db : Db) (ledger : Uuid) : List (Uuid × String) :=
  (db.books.accounts.filter fun a => a.ledgerId = ledger).map fun a => (a.id, a.name)

/-! ## Fingerprints -/

abbrev Fingerprint : Type := NaiveDate × String × String × ℚ

instance Fingerprint.lawfulBEq : LawfulBEq Fingerprint := inferInstance

def fingerprint (d : Decimal.Arith) (t : PtaTxn) : Fingerprint :=
  (t.date, t.description, t.payee.getD "", (t.postings.map PtaPosting.amount).foldl d.add 0)

/-- `existing_fingerprints`.  The join has no row for a transaction without postings. -/
def existingFingerprints (db : Db) (ledger : Uuid) : List Fingerprint :=
  (db.books.transactions.filter fun t => t.ledgerId = ledger).filterMap fun t =>
    if db.books.postingsOf t.id = [] then none
    else some (t.txnDate, t.description, t.payee.getD "",
      ((db.books.postingsOf t.id).map Posting.amount).sum)

/-! ## The plan -/

/-- What is to become of an entry. -/
inductive Plan where
  | unknownAccounts (names : List String)
  | unbalanced (net : ℚ)
  | duplicate
  | insert (resolved : List (Uuid × PtaPosting))

def signed (p : PtaPosting) : ℚ := if p.direction = .debit then p.amount else -p.amount

/-- The postings whose accounts are known. -/
def resolve (accounts : List (Uuid × String)) (t : PtaTxn) : List (Uuid × PtaPosting) :=
  t.postings.filterMap fun p => (resolveAccount accounts p.accountName).map fun id => (id, p)

/-- The names of the others. -/
def unresolved (accounts : List (Uuid × String)) (t : PtaTxn) : List String :=
  (t.postings.filter fun p => (resolveAccount accounts p.accountName).isNone).map
    PtaPosting.accountName

def signedSum (d : Decimal.Arith) (t : PtaTxn) : ℚ := (t.postings.map signed).foldl d.add 0

/-- The checks of the loop. -/
def planOf (d : Decimal.Arith) (accounts : List (Uuid × String)) (existing : List Fingerprint)
    (t : PtaTxn) : Plan :=
  if unresolved accounts t ≠ [] then .unknownAccounts (unresolved accounts t)
  else if signedSum d t ≠ 0 then .unbalanced (signedSum d t)
  else if fingerprint d t ∈ existing then .duplicate
  else .insert (resolve accounts t)

/-! ## Writing an entry -/

inductive InsertError where
  | closed (year : ℤ)
  /-- PostgreSQL refuses the text or the date. -/
  | encoding
  | db (e : SqlError)
deriving DecidableEq

/-- `SELECT EXISTS(… FROM closed_periods …)`: any row of the year. -/
def YearClosed (db : Db) (ledger : Uuid) (year : ℤ) : Prop :=
  ∃ p ∈ db.closedPeriods, p.ledgerId = ledger ∧ p.periodYear = year

instance (db : Db) (ledger : Uuid) (year : ℤ) : Decidable (YearClosed db ledger year) := by
  unfold YearClosed
  infer_instance

/-- The texts and the date fit their columns. -/
def Storable (t : PtaTxn) : Prop :=
  (∀ s ∈ t.description :: t.payee.toList, TextFits s) ∧ DateFits t.date

instance (t : PtaTxn) : Decidable (Storable t) := by
  unfold Storable
  infer_instance

/-- The transaction of the `n`-th entry. -/
def txnRow (req : Request) (n : ℕ) (ledger : Ledger) (actor : Uuid) (t : PtaTxn) : Transaction where
  id := req.txnId n
  ledgerId := ledger.id
  txnDate := t.date
  description := t.description
  payee := t.payee.filter fun payee => payee ≠ ""
  currency := ledger.baseCurrency
  kind := .standard
  createdBy := actor
  createdAt := req.now

def postingRows (req : Request) (n : ℕ) (resolved : List (Uuid × PtaPosting)) : List PostingRow :=
  resolved.zipIdx.map fun r =>
    { id := req.postingId n r.2
      transactionId := req.txnId n
      accountId := r.1.1
      amount := r.1.2.amount
      direction := r.1.2.direction }

def insertTxn (db : Db) (req : Request) (n : ℕ) (ledger : Ledger) (actor : Uuid) (t : PtaTxn)
    (resolved : List (Uuid × PtaPosting)) : Except InsertError Unit × Db :=
  commit db do
    ensure (¬ YearClosed db ledger.id t.date.year) (.closed t.date.year)
    ensure (Storable t) .encoding
    let db ← mapError .db
      (db.insertEntry (txnRow req n ledger actor t) (postingRows req n resolved))
    .ok ((), db)

/-! ## The run -/

inductive EntryError where
  | unknownAccounts (names : List String)
  | unbalanced (net : ℚ)
  | insert (e : InsertError)
deriving DecidableEq

/-- `ImportReport`.  An error comes with the number of its entry, counted from one. -/
structure ImportReport where
  inserted : ℕ := 0
  skipped : ℕ := 0
  dryRun : Bool := false
  planned : List String := []
  errors : List (ℕ × EntryError) := []
deriving DecidableEq

def describe (t : PtaTxn) : String :=
  t.date.display ++ " " ++ t.payee.getD "" ++ " " ++ t.description ++ " (" ++
    toString t.postings.length ++ " postings)"

namespace ImportReport

def error (r : ImportReport) (entry : ℕ) (e : EntryError) : ImportReport :=
  { r with errors := r.errors ++ [(entry, e)] }

def skip (r : ImportReport) (t : PtaTxn) : ImportReport :=
  { r with
    skipped := r.skipped + 1
    planned := r.planned ++ ["skip (duplicate): " ++ describe t] }

def plan (r : ImportReport) (t : PtaTxn) : ImportReport :=
  { r with planned := r.planned ++ ["insert: " ++ describe t] }

def insert (r : ImportReport) (t : PtaTxn) : ImportReport :=
  { r with inserted := r.inserted + 1, planned := r.planned ++ ["inserted: " ++ describe t] }

end ImportReport

/-- What a run has before its loop. -/
structure Context where
  d : Decimal.Arith
  ledger : Ledger
  actor : Uuid
  accounts : List (Uuid × String)
  existing : List Fingerprint

/-- One turn of the loop, for the entry with the index `n`. -/
def turn (c : Context) (req : Request) (dryRun : Bool) (n : ℕ) (s : ImportReport × Db) (t : PtaTxn) :
    ImportReport × Db :=
  match planOf c.d c.accounts c.existing t with
  | .unknownAccounts names => (s.1.error (n + 1) (.unknownAccounts names), s.2)
  | .unbalanced net => (s.1.error (n + 1) (.unbalanced net), s.2)
  | .duplicate => (s.1.skip t, s.2)
  | .insert resolved =>
    if dryRun then (s.1.plan t, s.2)
    else
      match insertTxn s.2 req n c.ledger c.actor t resolved with
      | (.ok (), db) => (s.1.insert t, db)
      | (.error e, db) => (s.1.error (n + 1) (.insert e), db)

/-- The loop over the entries from index `n` on. -/
def loop (c : Context) (req : Request) (dryRun : Bool) :
    ℕ → ImportReport × Db → List PtaTxn → ImportReport × Db
  | _, s, [] => s
  | n, s, t :: ts => loop c req dryRun (n + 1) (turn c req dryRun n s t) ts

/-- What the queries before the loop return. -/
def contextOf (d : Decimal.Arith) (db : Db) (ledgerId actor : Uuid) (ledger : Ledger) : Context where
  d := d
  ledger := ledger
  actor := actor
  accounts := accountNames db ledgerId
  existing := existingFingerprints db ledgerId

inductive ImportError where
  | parse (message : String)
  | ledgerNotFound (ledger : Uuid)
deriving DecidableEq

def importText (lib : Libraries) (d : Decimal.Arith) (db : Db) (req : Request)
    (ledgerId actor : Uuid) (format : PtaFormat) (input : String) (dryRun : Bool) :
    Except ImportError ImportReport × Db :=
  match parse lib format input with
  | .error e => (.error (.parse e), db)
  | .ok txns =>
    match db.findLedger ledgerId with
    | none => (.error (.ledgerNotFound ledgerId), db)
    | some ledger =>
      let s := loop (contextOf d db ledgerId actor ledger) req dryRun 0 ({ dryRun := dryRun }, db)
        txns
      (.ok s.1, s.2)

end OpenAccounting.Import.Pta
