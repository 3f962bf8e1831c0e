import OpenAccounting.Db.Inserts
import OpenAccounting.Handlers.Access
import OpenAccounting.Import.Statement

/-!
# Uploading a statement

`upload_csv` of `handlers/reconciliation.rs`, with `upload::validate`.  A line that is there already
is passed over, a line in another currency is an error of its own, and the others are inserted, all
in one database transaction.  Errors of rows are answered after the commit.
-/

namespace OpenAccounting.StatementUpload

open Calendar Commit Import.Statement

/-! ## `upload::validate` -/

def extensionWins : List (String × String) :=
  [("xlsx", "application/vnd.openxmlformats-officedocument.spreadsheetml.sheet"),
    ("docx", "application/vnd.openxmlformats-officedocument.wordprocessingml.document"),
    ("pptx", "application/vnd.openxmlformats-officedocument.presentationml.presentation"),
    ("ods", "application/vnd.oasis.opendocument.spreadsheet"),
    ("odt", "application/vnd.oasis.opendocument.text"),
    ("odp", "application/vnd.oasis.opendocument.presentation")]

inductive UploadError where
  | empty
  | mimeMismatch (declared sniffed : String)
  | unknown
deriving DecidableEq

def extensionOf (filename : String) : Option String :=
  (RustStr.afterLast '.' filename).bind fun ext =>
    if ext = "" then none else some (RustStr.toAsciiLowercase ext)

/-- The MIME type that the extension of the file stands for. -/
def expectedMime (filename : String) : Option String :=
  (extensionOf filename).bind fun ext => (extensionWins.find? fun e => e.1 = ext).map Prod.snd

/-- A file of the multipart form. -/
structure File where
  declared : String
  filename : String
  text : String

def validate (lib : Libraries) (file : File) : Except UploadError String :=
  if file.text = "" then .error .empty
  else if file.declared = "text/csv" then .ok "text/csv"
  else
    let sniffed := lib.infer file.text
    if sniffed.isSome ∧ sniffed = expectedMime file.filename then .ok (sniffed.getD "")
    else
      match sniffed with
      | some mime =>
        if mime = file.declared then .ok mime else .error (.mimeMismatch file.declared mime)
      | none => if file.declared = "text/plain" then .ok file.declared else .error .unknown

/-! ## The lines of a file -/

inductive Refused where
  | app (e : AppError)
  | upload (e : UploadError)
  /-- PostgreSQL refuses a text or a date. -/
  | encoding
  | panicked
deriving DecidableEq

inductive Line where
  | csv (record : List String)
  | stmt (l : StatementLine)

/-- The lines, in the format that is sniffed. -/
def readLines (lib : Libraries) (file : File) : Except Refused (List Line) :=
  match sniffFormat file.text with
  | some format =>
    match parse lib format file.text .us with
    | .ok lines => .ok (lines.map Line.stmt)
    | .error (.message e) => .error (.app (.validation (file.filename ++ ": " ++ e)))
    | .error .panic => .error .panicked
  | none =>
    match lib.csvRecords file.text with
    | .ok records => .ok (records.map Line.csv)
    | .error e => .error (.app (.internal e))

/-- What the loop takes from a line: nothing, an error, or the columns.  The third column of a CSV
record is the amount and the fourth the check number. -/
def columns (lib : Libraries) : Line → Option (Except String StatementLine)
  | .stmt l => some (.ok l)
  | .csv (date :: desc :: amount :: more) =>
    match lib.parseDate date, lib.parseDecimal amount with
    | none, _ => some (.error s!"bad CSV date '{date}'")
    | some _, none => some (.error s!"bad CSV amount '{amount}'")
    | some d, some a =>
      some (.ok { date := d, amount := a, payee := desc, memo := more.head?.filter (· ≠ "") })
  | .csv _ => none

/-! ## The loop -/

/-- What the query for a duplicate compares: the external id, or without one the date, the amount
and the normalized payee. -/
def SameLine (lib : Libraries) (l : StatementLine) (b : BankStatementLine) : Prop :=
  match l.externalId with
  | some ext => b.externalId = some ext
  | none => b.statementDate = l.date ∧ b.amount = l.amount ∧
      ∃ description ∈ b.description, lib.lower description = lib.lower (normalizePayee lib l.payee)

instance (lib : Libraries) (l : StatementLine) (b : BankStatementLine) :
    Decidable (SameLine lib l b) := by
  unfold SameLine
  split <;> infer_instance

/-- The line is there already. -/
def Duplicate (lib : Libraries) (db : Db) (account : Uuid) (l : StatementLine) : Prop :=
  ∃ b ∈ db.bankStatementLines, b.accountId = account ∧ SameLine lib l b

instance (lib : Libraries) (db : Db) (account : Uuid) (l : StatementLine) :
    Decidable (Duplicate lib db account l) := by
  unfold Duplicate
  infer_instance

/-- The parameters of the query for a duplicate can be sent. -/
def Searchable (lib : Libraries) (l : StatementLine) : Prop :=
  match l.externalId with
  | some ext => TextFits ext
  | none => DateFits l.date ∧ TextFits (normalizePayee lib l.payee)

instance (lib : Libraries) (l : StatementLine) : Decidable (Searchable lib l) := by
  unfold Searchable
  split <;> infer_instance

/-- The columns of the row can be sent. -/
def Storable (l : StatementLine) : Prop :=
  DateFits l.date ∧ ∀ s ∈ l.payee :: (l.memo.toList ++ l.externalId.toList), TextFits s

instance (l : StatementLine) : Decidable (Storable l) := by
  unfold Storable
  infer_instance

def lineRow (id ledger account : Uuid) (l : StatementLine) (amount : ℚ) : BankStatementLine where
  id := id
  ledgerId := ledger
  accountId := account
  statementDate := l.date
  description := some l.payee
  amount := amount
  checkNumber := l.memo
  externalId := l.externalId

/-- `INSERT INTO bank_statement_lines`. -/
def insertLine (db : Db) (id ledger account : Uuid) (l : StatementLine) : Except Refused Db := do
  ensure (Storable l) .encoding
  let amount ← okOr (amountColumn l.amount) (.app (.db .numericFieldOverflow))
  ensure (db.HasLedger ledger) (.app (.db (.foreignKeyViolation "ledger_id")))
  ensure (account ∈ db.books.accountIds) (.app (.db (.foreignKeyViolation "account_id")))
  ensure (∀ b ∈ db.bankStatementLines, b.id ≠ id)
    (.app (.db (.uniqueViolation "bank_statement_lines_pkey")))
  ensure (∀ ext ∈ l.externalId, ∀ b ∈ db.bankStatementLines,
      b.accountId = account → b.externalId ≠ some ext)
    (.app (.db (.uniqueViolation "uq_bsl_external")))
  .ok { db with
    bankStatementLines := db.bankStatementLines ++ [lineRow id ledger account l amount] }

/-- The counters of the loop. -/
structure Tally where
  count : ℕ := 0
  duplicates : ℕ := 0
  rowErrors : List String := []
deriving DecidableEq

/-- The account that the statement is of. -/
structure Target where
  ledger : Uuid
  account : Uuid
  currency : String

/-- The line has the currency of the account, or none of its own. -/
def InCurrency (t : Target) (l : StatementLine) : Prop :=
  ∀ ccy ∈ l.currency, RustStr.eqIgnoreAsciiCase ccy t.currency = true

instance (t : Target) (l : StatementLine) : Decidable (InCurrency t l) := by
  unfold InCurrency
  infer_instance

/-- A line with its columns. -/
def store (lib : Libraries) (req : Request) (t : Target) (s : Tally × Db) (l : StatementLine) :
    Except Refused (Tally × Db) :=
  if ¬ InCurrency t l then
    .ok ({ s.1 with
      rowErrors := s.1.rowErrors ++ [l.currency.getD "" ++ " vs account " ++ t.currency] }, s.2)
  else do
    ensure (Searchable lib l) .encoding
    if Duplicate lib s.2 t.account l then
      .ok ({ s.1 with duplicates := s.1.duplicates + 1 }, s.2)
    else
      let db ← insertLine s.2 (req.rowId s.1.count) t.ledger t.account l
      .ok ({ s.1 with count := s.1.count + 1 }, db)

/-- One turn of the loop. -/
def turn (lib : Libraries) (req : Request) (t : Target) (s : Tally × Db) (line : Line) :
    Except Refused (Tally × Db) :=
  match columns lib line with
  | none => .ok s
  | some (.error e) => .ok ({ s.1 with rowErrors := s.1.rowErrors ++ [e] }, s.2)
  | some (.ok l) => store lib req t s l

/-- The lines of a file, one after another. -/
def storeAll (lib : Libraries) (req : Request) (t : Target) :
    Tally × Db → List Line → Except Refused (Tally × Db)
  | s, [] => .ok s
  | s, line :: lines => do
    let s ← turn lib req t s line
    storeAll lib req t s lines

/-! ## The handler -/

/-- What is read before the loop. -/
def readUpload (lib : Libraries) (db : Db) (auth : Option Uuid) (ledger account : Uuid)
    (file : Option File) : Except Refused (Target × List Line) := do
  let user ← okOr auth (.app .unauthorized)
  let _ ← mapError .app (db.ensureOwner user ledger)
  let file ← okOr file (.app (.validation "No file uploaded"))
  let _ ← mapError .upload (validate lib file)
  let a ← okOr (db.books.accounts.find? fun a => a.id = account) (.app .notFound)
  let lines ← readLines lib file
  .ok ({ ledger := ledger, account := account, currency := a.currency }, lines)

/-- The answer after the commit: the number of imported lines, unless there are errors of rows. -/
def answer (tally : Tally) : Except Refused ℕ :=
  if tally.rowErrors = [] then .ok tally.count
  else .error (.app (.validation ("imported " ++ toString tally.count ++ " lines; " ++
    toString tally.rowErrors.length ++ " row(s) rejected: " ++
    "; ".intercalate (tally.rowErrors.take 5))))

def uploadCsv (lib : Libraries) (db : Db) (req : Request) (auth : Option Uuid)
    (ledger account : Uuid) (file : Option File) : Except Refused ℕ × Db :=
  match readUpload lib db auth ledger account file with
  | .error e => (.error e, db)
  | .ok (t, lines) =>
    andThen (commit db (storeAll lib req t ({}, db) lines)) fun tally db => (answer tally, db)

end OpenAccounting.StatementUpload
