import OpenAccounting.Db.Inserts
import OpenAccounting.Handlers.Inventory
import OpenAccounting.Import.Bills

/-!
# Inserting parsed rows

`insert_rows` of `handlers/import.rs`, which the imports of bank and payment files end with.  All
rows are inserted in one database transaction.  A row that cannot be read is noted and passed over,
and after the last row the transaction is rolled back if one has been noted.  A statement that fails
ends the loop, and with it the transaction.

The dates, the decimals and the ids are read by `chrono`, `rust_decimal` and `uuid`, which are
parameters here.
-/

namespace OpenAccounting.Import

open Calendar Commit

/-- What the libraries read, with the texts of their errors. -/
structure RowReaders where
  /-- `NaiveDate::parse_from_str(text, "%Y-%m-%d")`. -/
  parseDate : String → Except String NaiveDate
  parseDecimal : String → Except String ℚ
  /-- `Uuid::parse_str`. -/
  parseUuid : String → Option Uuid

/-- The arguments of `insert_rows` beside the rows. -/
structure Batch where
  ledgerId : Uuid
  userId : Uuid
  cashFallbackId : Uuid
  expenseAccountId : Uuid
  skipDuplicates : Bool

/-- What the database answers beside the checks of the schema: an error at the statements of the
`n`-th row, or at the commit. -/
structure Outages where
  row : ℕ → Option SqlError := fun _ => none
  commit : Option SqlError := none

/-! ## One row -/

/-- What a row says. -/
structure Movement where
  date : NaiveDate
  amount : ℚ
  /-- The debit column is set. -/
  cashOut : Bool

/-- The amount in the column that is set. -/
def readAmount (lib : RowReaders) (row : ParsedRow) : Except String ℚ :=
  let debit := RustStr.trim row.debit
  let credit := RustStr.trim row.credit
  if debit = "" then
    mapError (fun e => s!"row '{row.description}': bad credit '{credit}': {e}")
      (lib.parseDecimal credit)
  else
    mapError (fun e => s!"row '{row.description}': bad debit '{debit}': {e}")
      (lib.parseDecimal debit)

/-- The checks of the loop, in their order, with the text that is noted. -/
def readRow (lib : RowReaders) (row : ParsedRow) : Except String Movement := do
  ensure (RustStr.trim row.date ≠ "") ("missing date: " ++ row.description)
  let debit := RustStr.trim row.debit
  let credit := RustStr.trim row.credit
  ensure (¬ (debit = "" ∧ credit = "")) ("no amount: " ++ row.description)
  ensure (debit = "" ∨ credit = "")
    s!"row '{row.description}': exactly one of debit or credit must be set"
  let amount ← readAmount lib row
  ensure (0 < amount) s!"row '{row.description}': non-positive amount"
  let date ← mapError (fun e => s!"row '{row.description}': bad date '{row.date}': {e}")
    (lib.parseDate row.date)
  .ok { date := date, amount := amount, cashOut := decide (debit ≠ "") }

/-- The texts and the date fit their columns. -/
def Storable (row : ParsedRow) (date : NaiveDate) : Prop :=
  (∀ s ∈ [row.description, row.payee.getD "", row.reference.getD ""], TextFits s) ∧ DateFits date

instance (row : ParsedRow) (date : NaiveDate) : Decidable (Storable row date) := by
  unfold Storable
  infer_instance

section

variable (lib : RowReaders) (req : Request) (b : Batch)

/-- The transaction of the `n`-th inserted row. -/
def rowTxn (n : ℕ) (row : ParsedRow) (date : NaiveDate) : Transaction where
  id := req.txnId n
  ledgerId := b.ledgerId
  txnDate := date
  description := row.description
  payee := some (row.payee.getD "")
  reference := some (row.reference.getD "")
  currency := "USD"
  kind := .standard
  createdBy := b.userId
  createdAt := req.now

/-- The account of the row, or else the expense account. -/
def otherAccount (row : ParsedRow) : Uuid := (row.account.bind lib.parseUuid).getD b.expenseAccountId

/-- The accounts of the debit and of the credit. -/
def sides (cash : Uuid) (row : ParsedRow) (m : Movement) : Uuid × Uuid :=
  if m.cashOut then (otherAccount lib b row, cash) else (cash, otherAccount lib b row)

/-- The two postings of the row. -/
def rowLegs (cash : Uuid) (n : ℕ) (row : ParsedRow) (m : Movement) : List PostingRow :=
  [{ id := req.postingId n 0, transactionId := req.txnId n
     accountId := (sides lib b cash row m).1, amount := m.amount, direction := .debit },
    { id := req.postingId n 1, transactionId := req.txnId n
      accountId := (sides lib b cash row m).2, amount := m.amount, direction := .credit }]

/-! ## All rows -/

/-- The local variables of the loop, and the database within the transaction. -/
structure Progress where
  created : ℕ := 0
  failed : List String := []
  db : Db

/-- One turn of the loop. -/
def insertRow (out : Outages) (cash : Uuid) (p : Progress) (row : ParsedRow) :
    Except AppError Progress :=
  if b.skipDuplicates && row.isDuplicate then .ok p
  else
    match readRow lib row with
    | .error message => .ok { p with failed := p.failed ++ [message] }
    | .ok m => do
      ensure (out.row p.created = none) (.db ((out.row p.created).getD .rowNotFound))
      ensure (Storable row m.date) (.internal "invalid byte sequence or date out of range")
      let db ← mapError .db (p.db.insertEntry (rowTxn req b p.created row m.date)
        (rowLegs lib req b cash p.created row m))
      .ok { p with created := p.created + 1, db := db }

/-- The account of the ledger that has its cash. -/
def cashAccount (db : Db) : Uuid :=
  let assets := Relational.orderBy Account.codeKey
    (db.books.accounts.filter fun a => a.ledgerId = b.ledgerId ∧ a.type = .asset)
  let found := (assets.find? fun a => a.subtype.asStr = "cash").or
    (assets.find? fun a => a.nameContains "cash" || a.nameContains "bank")
  (found.map Account.id).getD b.cashFallbackId

def insertRows (out : Outages) (db : Db) (rows : List ParsedRow) : Except AppError ℕ × Db :=
  commit db do
    let p ← rows.foldlM (insertRow lib req b out (cashAccount b db)) { db := db }
    let reasons := "; ".intercalate p.failed
    ensure (p.failed = []) (.unprocessable
      s!"import rolled back: {p.created} valid, {p.failed.length} failed: {reasons}")
    ensure (out.commit = none) (.db (out.commit.getD .rowNotFound))
    .ok (p.created, p.db)

end

end OpenAccounting.Import

/-!
## The CSV import wizard

The last step of `handlers/import_wizard.rs`.  The text and the column map come with the
form.  `transform` turns every line but the first into a row and passes over lines without
a readable date, and `handleCommit` writes all rows in one database transaction.

A row becomes a transaction with one posting on the account `Bank Account`, or with none if
its amount is zero.  There is no second leg.  The dates and decimals are read by `chrono` and
`rust_decimal`, which are parameters here.
-/

namespace OpenAccounting

open Calendar Commit Rounding

namespace ImportWizard

/-- What the libraries read, and the difference of two decimals, if it does not overflow. -/
structure Readers where
  /-- `NaiveDate::parse_from_str(text, format)`. -/
  parseFromStr : String → String → Option NaiveDate
  parseDecimal : String → Option ℚ
  sub : ℚ → ℚ → Option ℚ

/-- `ColumnMap`.  A negative number is a column that is not mapped. -/
structure ColumnMap where
  date : ℤ := 0
  description : ℤ := 0
  debit : ℤ := -1
  credit : ℤ := -1
  account : ℤ := -1
  payee : ℤ := -1
  reference : ℤ := -1
  amountIn : ℤ := -1
deriving DecidableEq

def usizeFromI32 (v : ℤ) : Option ℕ := if v < 0 then none else some v.toNat

/-! ## Reading the text -/

/-- The fields of the rest of a line, with the field that is being read in reverse. -/
def fieldsFrom (inQuotes : Bool) (field : List Char) (out : List String) : List Char → List String
  | [] =>
    if field ≠ [] ∨ out ≠ [] then out ++ [String.ofList field.reverse] else out
  | '"' :: cs => fieldsFrom (!inQuotes) field out cs
  | ',' :: cs =>
    if inQuotes then fieldsFrom inQuotes (',' :: field) out cs
    else fieldsFrom inQuotes [] (out ++ [String.ofList field.reverse]) cs
  | c :: cs => fieldsFrom inQuotes (c :: field) out cs

def parseCsvLine (line : String) : List String := fieldsFrom false [] [] line.toList

/-- The formats of `parse_date`, in the order in which they are tried. -/
def dateFormats : List String :=
  ["%Y-%m-%d", "%Y/%m/%d", "%d/%m/%Y", "%m/%d/%Y", "%d.%m.%Y", "%d-%m-%Y", "%Y%m%d"]

def parseDate (lib : Readers) (s : String) : Option NaiveDate :=
  dateFormats.findSome? fun f => lib.parseFromStr (RustStr.trim s) f

structure TransformedRow where
  date : NaiveDate
  description : String
  payee : String
  reference : String
  amount : ℚ
deriving DecidableEq

/-- A cell of a mapped column, or the empty text. -/
def cell (fields : List String) (column : ℤ) : String :=
  ((usizeFromI32 column).bind fun i => fields[i]?).getD ""

/-- A cell read as an amount, or zero. -/
def amountCell (lib : Readers) (fields : List String) (column : ℤ) : ℚ :=
  (((usizeFromI32 column).bind fun i => fields[i]?).bind fun s =>
    lib.parseDecimal (RustStr.trim (RustStr.without ',' s))).getD 0

/-- The amount of a line.  A difference that overflows panics. -/
def amountOf (lib : Readers) (map : ColumnMap) (fields : List String) : Option ℚ :=
  match usizeFromI32 map.amountIn with
  | some _ => some (amountCell lib fields map.amountIn)
  | none => lib.sub (amountCell lib fields map.debit) (amountCell lib fields map.credit)

/-- One line: nothing if it is blank or has no date. -/
def transformLine (lib : Readers) (map : ColumnMap) (line : String) :
    Option (Option TransformedRow) :=
  if RustStr.trim line = "" then some none
  else
    let fields := parseCsvLine line
    match parseDate lib (fields[(max map.date 0).toNat]?.getD "") with
    | none => some none
    | some date => do
      let amount ← amountOf lib map fields
      some (some
        { date := date
          description := RustStr.trim (fields[(max map.description 0).toNat]?.getD "")
          payee := cell fields map.payee
          reference := cell fields map.reference
          amount := amount })

/-- `transform`.  The first line is the header. -/
def transform (lib : Readers) (csv : String) (map : ColumnMap) : Option (List TransformedRow) :=
  ((RustStr.lines csv).drop 1).mapM (transformLine lib map) |>.map fun rows => rows.filterMap id

/-! ## Writing the rows -/

structure CommitForm where
  csvContent : String
  map : ColumnMap

/-- The transaction of the `n`-th row. -/
def rowTxn (req : Request) (user : Uuid) (ledger : Ledger) (n : ℕ) (row : TransformedRow) :
    Transaction where
  id := req.txnId n
  ledgerId := ledger.id
  txnDate := row.date
  description := row.description
  payee := some row.payee
  reference := some row.reference
  currency := ledger.baseCurrency
  kind := .standard
  createdBy := user
  createdAt := req.now

/-- The posting of the `n`-th row, unless its amount is zero. -/
def rowLegs (req : Request) (cash : Uuid) (n : ℕ) (row : TransformedRow) : List PostingRow :=
  if row.amount = 0 then []
  else
    [{ id := req.postingId n 0, transactionId := req.txnId n, accountId := cash
       amount := if row.amount < 0 then -row.amount else row.amount
       direction := if row.amount < 0 then .credit else .debit }]

/-- The loop of `handle_commit`, from the `n`-th row on. -/
def commitRows (req : Request) (user : Uuid) (ledger : Ledger) (cash : Uuid) :
    ℕ → Db → List TransformedRow → Except SqlError Db
  | _, db, [] => .ok db
  | n, db, row :: rows => do
    let db ← db.insertEntry (rowTxn req user ledger n row) (rowLegs req cash n row)
    commitRows req user ledger cash (n + 1) db rows

/-- `SELECT id FROM accounts WHERE ledger_id = $1 AND name = 'Bank Account' LIMIT 1`. -/
def bankAccount (db : Db) (ledger : Uuid) : Option Account :=
  db.books.accounts.find? fun a => a.ledgerId = ledger ∧ a.name = "Bank Account"

/-- The checks and the database transaction of `handle_commit`.  A panic while the rows are
read ends the request before it writes. -/
def commitForm (lib : Readers) (db : Db) (req : Request) (auth : Option Uuid) (ledgerId : Uuid)
    (form : CommitForm) : Except AppError (Unit × Db) := do
  let user ← okOr auth .unauthorized
  let ledger ← db.ensureOwner user ledgerId
  let rows ← okOr (transform lib form.csvContent form.map) (.internal "Subtraction overflowed")
  ensure (rows ≠ []) (.validation "no rows to commit")
  let cash ← okOr (bankAccount db ledgerId) (.validation "Bank Account not found")
  let db ← mapError .db (commitRows req user ledger cash.id 0 db rows)
  .ok ((), db)

def handleCommit (lib : Readers) (db : Db) (req : Request) (auth : Option Uuid) (ledgerId : Uuid)
    (form : CommitForm) : Except AppError Unit × Db :=
  commit db (commitForm lib db req auth ledgerId form)

end ImportWizard

end OpenAccounting
