import OpenAccounting.Handlers.Invoices

/-!
# Estimates

`create` and `convert` of `handlers/estimates.rs`.  An estimate is a row of `invoices` with the
`doc_kind` `estimate`, and it stays there when it is converted.

`convert` claims the estimate with a statement of its own, by its status, and then copies it to an
invoice in a transaction.  Whatever becomes of the transaction, the claim is committed.
-/

namespace OpenAccounting.Estimates

open Calendar Commit Relational Rounding
open Api.Invoices (InvoiceLineBody lineAmount insertLines)

/-! ## Create -/

/-- `EstimateBody`, with its fields as the parsers leave them.  The fields of a line repeat per
row. -/
structure EstimateBody where
  contactId : Option Uuid
  invoiceDate : Option NaiveDate
  dueDate : Option NaiveDate
  description : List String
  quantity : List (Option ℚ)
  unitPrice : List (Option ℚ)

/-- What `create` has read when its database transaction begins. -/
structure CreateRead where
  contactId : Uuid
  invoiceDate : NaiveDate
  dueDate : NaiveDate
  lines : List InvoiceLineBody
deriving DecidableEq

def CreateRead.total (read : CreateRead) : ℚ := (read.lines.map lineAmount).sum

/-- One row of the form.  A row without a description is skipped. -/
def parseLine : (String × Option ℚ) × Option ℚ → Except AppError (Option InvoiceLineBody)
  | ((description, quantity), unitPrice) =>
    let description := RustStr.trim description
    if description = "" then .ok none
    else do
      let quantity ← okOr quantity (.validation "Invalid quantity")
      let unitPrice ← okOr unitPrice (.validation "Invalid unit price")
      .ok (some ⟨description, quantity, unitPrice⟩)

/-- `create` up to its database transaction. -/
def readCreate (db : Db) (auth : Option Uuid) (ledger : Uuid) (form : EstimateBody) :
    Except AppError CreateRead := do
  let user ← okOr auth .unauthorized
  let _ ← db.ensureWriter user ledger
  let contactId ← okOr form.contactId (.validation "Invalid contact")
  let invoiceDate ← okOr form.invoiceDate (.validation "Invalid date")
  let dueDate ← okOr form.dueDate (.validation "Invalid due date")
  let lines ← ((form.description.zip form.quantity).zip form.unitPrice).mapM parseLine
  ensure (lines.reduceOption ≠ []) (.validation "An estimate needs at least one line")
  .ok ⟨contactId, invoiceDate, dueDate, lines.reduceOption⟩

def estimateRow (req : Request) (ledger : Uuid) (read : CreateRead) : Invoice where
  id := req.rowId 0
  ledgerId := ledger
  contactId := read.contactId
  kind := .receivable
  docKind := .estimate
  invoiceDate := read.invoiceDate
  dueDate := read.dueDate
  total := read.total
  status := .draft

def insertEstimate (db : Db) (req : Request) (ledger : Uuid) (read : CreateRead) :
    Except SqlError Db := do
  let db ← db.insertInvoice (estimateRow req ledger read)
  insertLines req 0 db read.lines

def create (db : Db) (req : Request) (auth : Option Uuid) (ledger : Uuid) (form : EstimateBody) :
    Except AppError Uuid × Db :=
  commit db do
    let read ← readCreate db auth ledger form
    let db ← mapError .db (insertEstimate db req ledger read)
    .ok (req.rowId 0, db)

/-! ## Convert -/

/-- The estimate can be claimed. -/
def Convertible (ledger estimate : Uuid) (i : Invoice) : Prop :=
  i.id = estimate ∧ i.ledgerId = ledger ∧ i.docKind = .estimate ∧ i.status ≠ .converted ∧
    i.status ≠ .declined

instance (ledger estimate : Uuid) : DecidablePred (Convertible ledger estimate) := fun _ => by
  unfold Convertible
  infer_instance

/-- The columns of the estimate that are copied. -/
structure Claimed where
  contactId : Uuid
  invoiceNumber : Option String
  invoiceDate : NaiveDate
  dueDate : NaiveDate
  total : ℚ
deriving DecidableEq

/-- The columns of a row. -/
def claimedOf (i : Invoice) : Claimed :=
  ⟨i.contactId, i.invoiceNumber, i.invoiceDate, i.dueDate, i.total⟩

/-- `UPDATE invoices SET status = 'converted' … WHERE … status NOT IN ('converted', 'declined')`. -/
def markConverted (db : Db) (ledger estimate : Uuid) : Db :=
  { db with
    invoices := updateWhere (Convertible ledger estimate)
      (fun i => { i with status := .converted }) db.invoices }

/-- The claim of the estimate, with the checks before it. -/
def claim (db : Db) (auth : Option Uuid) (ledger estimate : Uuid) :
    Except AppError (Claimed × Db) := do
  let user ← okOr auth .unauthorized
  let _ ← db.ensureWriter user ledger
  let found ← okOr (db.invoices.find? fun i => Convertible ledger estimate i)
    (.conflict "estimate already converted or declined")
  .ok (claimedOf found, markConverted db ledger estimate)

def convertedRow (req : Request) (ledger : Uuid) (c : Claimed) : Invoice where
  id := req.rowId 0
  ledgerId := ledger
  contactId := c.contactId
  kind := .receivable
  invoiceNumber := c.invoiceNumber
  invoiceDate := c.invoiceDate
  dueDate := c.dueDate
  total := c.total

/-- The lines of a document, `ORDER BY sort_order`. -/
def linesOf (db : Db) (document : Uuid) : List InvoiceLine :=
  orderBy InvoiceLine.sortOrder (db.invoiceLines.filter fun l => l.invoiceId = document)

/-- `INSERT INTO invoice_lines … SELECT`, a row at a time. -/
def copyLines (req : Request) : ℕ → Db → List InvoiceLine → Except SqlError Db
  | _, db, [] => .ok db
  | k, db, l :: ls => do
    let db ← db.insertInvoiceLine { l with id := req.rowId (k + 1), invoiceId := req.rowId 0 }
    copyLines req (k + 1) db ls

/-- The transaction of `convert`. -/
def insertConverted (db : Db) (req : Request) (ledger estimate : Uuid) (c : Claimed) :
    Except AppError (Uuid × Db) := do
  let db ← mapError .db (db.insertInvoice (convertedRow req ledger c))
  let db ← mapError .db (copyLines req 0 db (linesOf db estimate))
  .ok (req.rowId 0, db)

/-- How a call ends without its invoice. -/
inductive ConvertError where
  | app (e : AppError)
  /-- A statement was not answered. -/
  | unanswered
deriving DecidableEq

/-- The claim as a statement that may fail. -/
def claimAs (o : Outcome) (db : Db) (auth : Option Uuid) (ledger estimate : Uuid) :
    Except ConvertError Claimed × Db :=
  commitAs o .unanswered db (mapError .app (claim db auth ledger estimate))

/-- The transaction, which may fail. -/
def insertAs (o : Outcome) (db : Db) (req : Request) (ledger estimate : Uuid) (c : Claimed) :
    Except ConvertError Uuid × Db :=
  commitAs o .unanswered db (mapError .app (insertConverted db req ledger estimate c))

/-- `convert`.  The claim and the transaction have the outcomes `claimed` and `inserted`. -/
def convert (claimed inserted : Outcome) (db : Db) (req : Request) (auth : Option Uuid)
    (ledger estimate : Uuid) : Except ConvertError Uuid × Db :=
  andThen (claimAs claimed db auth ledger estimate) fun c db =>
    insertAs inserted db req ledger estimate c

/-! ## What they write -/

theorem CreateRead.hasScale_total (read : CreateRead) : HasScale 2 read.total := by
  refine HasScale.list_sum fun x hx => ?_
  obtain ⟨line, -, rfl⟩ := List.mem_map.mp hx
  exact ⟨_, rfl⟩

theorem insertEstimate_ok {db db' : Db} {req : Request} {ledger : Uuid} {read : CreateRead}
    (h : insertEstimate db req ledger read = .ok db') :
    (∃ total lines, amountColumn read.total = some total ∧ db' = { db with
      invoices := db.invoices ++ [{ estimateRow req ledger read with total := total }]
      invoiceLines := lines }) ∧ ∀ j ∈ db.invoices, j.id ≠ req.rowId 0 := by
  rw [insertEstimate, bind_eq_ok] at h
  obtain ⟨db₁, hinvoice, h⟩ := h
  obtain ⟨lines, rfl⟩ := Api.Invoices.insertLines_ok h
  simp only [Db.insertInvoice, bind_eq_ok, ensure_eq_ok, okOr_eq_ok] at hinvoice
  obtain ⟨-, -, -, -, total, htotal, -, hfresh, -, -, hinvoice⟩ := hinvoice
  cases hinvoice
  exact ⟨⟨total, lines, htotal, rfl⟩, fun j hj hid => hfresh ⟨j, hj, hid⟩⟩

theorem create_cases (db : Db) (req : Request) (auth : Option Uuid) (ledger : Uuid)
    (form : EstimateBody) :
    (create db req auth ledger form).2 = db ∧
        (∀ read, readCreate db auth ledger form = .ok read →
          (insertEstimate db req ledger read).isOk = false) ∨
      ∃ read, readCreate db auth ledger form = .ok read ∧
        insertEstimate db req ledger read = .ok (create db req auth ledger form).2 := by
  cases hread : readCreate db auth ledger form with
  | error e =>
    refine Or.inl ⟨by rw [create, hread]; rfl, fun read h => ?_⟩
    cases h
  | ok read =>
    cases hinsert : insertEstimate db req ledger read with
    | error e =>
      refine Or.inl ⟨by rw [create, hread, ok_bind, hinsert]; rfl, fun r h => ?_⟩
      cases h
      rw [hinsert]
      rfl
    | ok db' =>
      refine Or.inr ⟨read, rfl, ?_⟩
      rw [create, hread, ok_bind, hinsert]
      rfl

end OpenAccounting.Estimates
