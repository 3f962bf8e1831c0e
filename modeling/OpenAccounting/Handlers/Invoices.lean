import OpenAccounting.Api.Invoices
import OpenAccounting.Domain.InvoiceNumbers
import OpenAccounting.Handlers.Access

/-!
# Invoices

`create` and `void` of `handlers/invoices.rs`.  An invoice keeps the number it is supplied with, or
draws the next one of its year.  A voided invoice keeps its row and its number.
-/

namespace OpenAccounting

open Calendar Commit Relational

/-- The status of a column value.  Anything else violates `invoices_status_check`. -/
def InvoiceStatus.fromDb (s : String) : Option InvoiceStatus :=
  if s = "open" then some .opened
  else if s = "paid" then some .paid
  else if s = "overdue" then some .overdue
  else if s = "void" then some .void
  else if s = "draft" then some .draft
  else if s = "sent" then some .sent
  else if s = "accepted" then some .accepted
  else if s = "declined" then some .declined
  else if s = "expired" then some .expired
  else if s = "converted" then some .converted
  else none

namespace Invoices

open Api.Invoices (InvoiceLineBody lineAmount insertLines)

/-! ## Create -/

/-- A line of the form, as `parse_lines` collects it, with its numbers as the parser leaves them. -/
structure InvoiceLineInput where
  description : String
  quantity : Option ℚ
  unitPrice : Option ℚ

/-- `NewInvoiceForm`, with its fields as the parsers leave them. -/
structure NewInvoiceForm where
  contactId : Option Uuid
  kind : String
  invoiceNumber : Option String := none
  invoiceDate : Option NaiveDate
  dueDate : Option NaiveDate
  lines : List InvoiceLineInput

/-- What `create` has read when its database transaction begins. -/
structure CreateRead where
  user : Uuid
  kind : InvoiceKind
  contactId : Uuid
  invoiceDate : NaiveDate
  dueDate : NaiveDate
  lines : List InvoiceLineBody
deriving DecidableEq

/-- One line.  A line without a description is skipped. -/
def parseLine (l : InvoiceLineInput) : Except AppError (Option InvoiceLineBody) :=
  let description := RustStr.trim l.description
  if description = "" then .ok none
  else do
    let quantity ← okOr l.quantity (.validation "Invalid line quantity")
    let unitPrice ← okOr l.unitPrice (.validation "Invalid line unit price")
    let line : InvoiceLineBody := ⟨description, quantity, unitPrice⟩
    ensure (0 < lineAmount line)
      (.validation ("Line \"" ++ description ++ "\" needs a positive quantity and unit price"))
    .ok (some line)

/-- `create` up to its database transaction. -/
def readCreate (db : Db) (auth : Option Uuid) (ledger : Uuid) (form : NewInvoiceForm) :
    Except AppError CreateRead := do
  let user ← okOr auth .unauthorized
  let _ ← db.ensureWriter user ledger
  let kind ← okOr (InvoiceKind.fromDb form.kind) (.validation "Invalid invoice kind")
  let contactId ← okOr form.contactId (.validation "Invalid contact")
  let invoiceDate ← okOr form.invoiceDate (.validation "Invalid invoice date")
  let dueDate ← okOr form.dueDate (.validation "Invalid due date")
  let lines ← form.lines.mapM parseLine
  .ok ⟨user, kind, contactId, invoiceDate, dueDate, lines.reduceOption⟩

/-- The hard-close gate. -/
def checkOpen (db : Db) (ledger : Uuid) (date : NaiveDate) : Except AppError Unit :=
  ensure (¬ db.Closed ledger date)
    (.conflict ("Ledger is closed through " ++ ((db.closedThrough ledger).getD date).display ++
      ". Cannot post invoice " ++ date.display ++ " to a closed period."))

/-- The supplied number, if no invoice has it.  The counter of the invoice's year is advanced past
it. -/
def supplyNumber (db : Db) (ledger : Uuid) (year : ℤ) (number : String) : Except AppError Db := do
  ensure (¬ ∃ i ∈ db.invoices, i.ledgerId = ledger ∧ i.invoiceNumber = some number)
    (.conflict ("Invoice number already used: " ++ number))
  match CloseControls.suffixOf year number with
  | some n =>
    mapError .db (CloseControls.upsertSequence db ledger year n fun lastNo => max lastNo n)
  | none => .ok db

/-- The number of the invoice: the supplied one, or the next one. -/
def chooseNumber (db : Db) (ledger : Uuid) (year : ℤ) (supplied : Option String) :
    Except AppError (String × Db) :=
  match RustStr.nonEmptyTrimmed supplied with
  | some number => do
    let db ← supplyNumber db ledger year number
    .ok (number, db)
  | none => mapError .db (CloseControls.nextInvoiceNumber db ledger year)

def invoiceRow (req : Request) (ledger : Uuid) (read : CreateRead) (number : String) : Invoice where
  id := req.rowId 0
  ledgerId := ledger
  contactId := read.contactId
  kind := read.kind
  invoiceNumber := some number
  invoiceDate := read.invoiceDate
  dueDate := read.dueDate
  total := (read.lines.map lineAmount).sum

def insertNumbered (db : Db) (req : Request) (ledger : Uuid) (read : CreateRead) (number : String) :
    Except SqlError Db := do
  let db ← db.insertInvoice (invoiceRow req ledger read number)
  insertLines req 0 db read.lines

/-- The database transaction of `create`. -/
def writeCreate (db : Db) (req : Request) (ledger : Uuid) (supplied : Option String)
    (read : CreateRead) : Except AppError Db := do
  checkOpen db ledger read.invoiceDate
  let (number, db) ← chooseNumber db ledger read.invoiceDate.year supplied
  mapError .db (insertNumbered db req ledger read number)

/-- How `create` answers: with the new invoice, or with the form and an error. -/
inductive CreateAnswer where
  | created (invoice : Uuid)
  | page (error : String)
deriving DecidableEq

def create (db : Db) (req : Request) (auth : Option Uuid) (ledger : Uuid) (form : NewInvoiceForm) :
    Except AppError CreateAnswer × Db :=
  commit db do
    let read ← readCreate db auth ledger form
    if read.lines = [] then
      .ok (.page "Add at least one line item with a description, quantity, and unit price.", db)
    else
      let db ← writeCreate db req ledger form.invoiceNumber read
      .ok (.created (req.rowId 0), db)

theorem insertNumbered_ok {db db' : Db} {req : Request} {ledger : Uuid} {read : CreateRead}
    {number : String} (h : insertNumbered db req ledger read number = .ok db') :
    (∃ total lines, db' = { db with
      invoices := db.invoices ++ [{ invoiceRow req ledger read number with total := total }]
      invoiceLines := lines }) ∧
      (∀ j ∈ db.invoices, j.id ≠ req.rowId 0) ∧
      (number ≠ "" → ∀ j ∈ db.invoices, j.ledgerId = ledger → j.invoiceNumber ≠ some number) := by
  rw [insertNumbered, bind_eq_ok] at h
  obtain ⟨db₁, hinvoice, h⟩ := h
  obtain ⟨⟨total, rfl⟩, hfresh, hunused⟩ := Api.Invoices.insertInvoice_ok hinvoice
  obtain ⟨lines, rfl⟩ := Api.Invoices.insertLines_ok h
  exact ⟨⟨total, lines, rfl⟩, hfresh, fun hne => hunused number hne rfl⟩

/-- What can be inserted under one number can be inserted under another one, whatever the counters.
-/
theorem insertNumbered_renumber {db db' : Db} {req : Request} {ledger : Uuid} {read : CreateRead}
    {number number' : String} (h : insertNumbered db req ledger read number = .ok db')
    (hunused : ∀ j ∈ db.invoices, j.ledgerId = ledger → j.invoiceNumber ≠ some number')
    (counters : List InvoiceSequence) :
    ∃ db₂, insertNumbered { db with invoiceSequences := counters } req ledger read number' =
      .ok db₂ := by
  rw [insertNumbered, bind_eq_ok] at h
  obtain ⟨db₁, hinvoice, hlines⟩ := h
  obtain ⟨total, rfl, hrenumbered⟩ := Api.Invoices.insertInvoice_renumber hinvoice hunused counters
  have hsame : Api.Invoices.SameLines
      { db with
        invoices := db.invoices ++ [{ invoiceRow req ledger read number with total := total }] }
      { db with
        invoiceSequences := counters
        invoices := db.invoices ++
          [{ invoiceRow req ledger read number' with total := total }] } := by
    refine ⟨fun id hid => ?_, rfl⟩
    simp only [List.mem_append, List.mem_singleton] at hid ⊢
    obtain ⟨i, hi | rfl, rfl⟩ := hid
    · exact ⟨i, .inl hi, rfl⟩
    · exact ⟨_, .inr rfl, rfl⟩
  obtain ⟨db₂, hlines⟩ := Api.Invoices.insertLines_congr hsame hlines
  refine ⟨db₂, ?_⟩
  rw [insertNumbered, bind_eq_ok]
  exact ⟨_, hrenumbered, hlines⟩

theorem readCreate_ok {db : Db} {auth : Option Uuid} {ledger : Uuid} {form : NewInvoiceForm}
    {read : CreateRead} (h : readCreate db auth ledger form = .ok read) :
    db.HasLedger ledger ∧ form.invoiceDate = some read.invoiceDate := by
  simp only [readCreate, bind_eq_ok, okOr_eq_ok] at h
  obtain ⟨user, -, l, hl, kind, -, contactId, -, invoiceDate, hdate, dueDate, -, lines, -, h⟩ := h
  cases h
  exact ⟨⟨l, mem_of_find?_key (Db.ensureWriter_related hl).1⟩, hdate⟩

section Create

variable {db db₁ db' : Db} {req : Request} {auth : Option Uuid} {ledger : Uuid}
  {form : NewInvoiceForm}
  {read : CreateRead} {number : String}

theorem chooseNumber_rows {year : ℤ} {supplied : Option String}
    (h : chooseNumber db ledger year supplied = .ok (number, db₁)) :
    ∃ rows, db₁ = { db with invoiceSequences := rows } := by
  rw [chooseNumber] at h
  cases hsupplied : RustStr.nonEmptyTrimmed supplied with
  | none =>
    simp only [hsupplied, mapError_eq_ok] at h
    obtain ⟨-, -, -, -, hrows, -⟩ := CloseControls.nextInvoiceNumber_ok h
    exact hrows
  | some text =>
    simp only [hsupplied, bind_eq_ok, supplyNumber] at h
    obtain ⟨db₂, ⟨-, -, hwrite⟩, hpair⟩ := h
    cases hpair
    split at hwrite
    · rw [mapError_eq_ok] at hwrite
      exact (CloseControls.upsertSequence_ok hwrite).2.2.1
    · cases hwrite
      exact ⟨db.invoiceSequences, rfl⟩

theorem create_eq (hread : readCreate db auth ledger form = .ok read) (hlines : read.lines ≠ [])
    (hopen : ¬ db.Closed ledger read.invoiceDate)
    (hnumber : chooseNumber db ledger read.invoiceDate.year form.invoiceNumber = .ok (number, db₁))
    (hinsert : insertNumbered db₁ req ledger read number = .ok db') :
    create db req auth ledger form = (.ok (.created (req.rowId 0)), db') := by
  have hcheck : checkOpen db ledger read.invoiceDate = .ok () := by
    rw [checkOpen, ensure_eq_ok]
    exact hopen
  simp [create, hread, hlines, writeCreate, hcheck, hnumber, hinsert, bind, Except.bind, mapError,
    commit]

theorem create_cases (db : Db) (req : Request) (auth : Option Uuid) (ledger : Uuid)
    (form : NewInvoiceForm) :
    (create db req auth ledger form).2 = db ∨
      ∃ read number db₁ db', readCreate db auth ledger form = .ok read ∧
        chooseNumber db ledger read.invoiceDate.year form.invoiceNumber = .ok (number, db₁) ∧
        insertNumbered db₁ req ledger read number = .ok db' ∧
        create db req auth ledger form = (.ok (.created (req.rowId 0)), db') := by
  rcases commit_cases db _ with h | ⟨answer, db', hbody, h⟩
  · exact .inl h
  · simp only [bind_eq_ok] at hbody
    obtain ⟨read, hread, hbody⟩ := hbody
    split at hbody
    · cases hbody
      exact .inl h
    · next hlines =>
        simp only [writeCreate, bind_eq_ok, mapError_eq_ok] at hbody
        obtain ⟨db₂, ⟨u, hopen, ⟨number, db₁⟩, hnumber, hinsert⟩, hbody⟩ := hbody
        cases hbody
        rw [checkOpen, ensure_eq_ok] at hopen
        exact .inr ⟨read, number, db₁, db', hread, hnumber, hinsert,
          create_eq hread hlines hopen hnumber hinsert⟩

end Create

/-! ## Void -/

structure VoidInvoiceForm where
  reason : String

/-- `UPDATE invoices SET status = 'void', void_reason = $3 … WHERE id = $1 AND ledger_id = $2`. -/
def markVoid (db : Db) (ledger invoice : Uuid) (reason : String) : Db :=
  { db with
    invoices := updateWhere (fun i => i.id = invoice ∧ i.ledgerId = ledger)
      (fun i => { i with status := .void, voidReason := some reason }) db.invoices }

def void (db : Db) (auth : Option Uuid) (ledger invoice : Uuid) (form : VoidInvoiceForm) :
    Except AppError Unit × Db :=
  commit db do
    let user ← okOr auth .unauthorized
    let _ ← db.ensureWriter user ledger
    let reason ← mapError .validation (CloseControls.validateReason form.reason)
    ensure (∃ i ∈ db.invoices, i.id = invoice ∧ i.ledgerId = ledger) .notFound
    .ok ((), markVoid db ledger invoice reason)

theorem void_cases (db : Db) (auth : Option Uuid) (ledger invoice : Uuid)
    (form : VoidInvoiceForm) :
    (void db auth ledger invoice form).2 = db ∨
      ∃ reason, (void db auth ledger invoice form).2 = markVoid db ledger invoice reason := by
  rcases commit_cases db _ with h | ⟨_, db', hbody, h⟩
  · exact Or.inl h
  · right
    simp only [bind_eq_ok, okOr_eq_ok, ensure_eq_ok, mapError_eq_ok] at hbody
    obtain ⟨_, -, _, -, reason, -, _, -, hbody⟩ := hbody
    cases hbody
    exact ⟨reason, h⟩

end Invoices

end OpenAccounting
