import OpenAccounting.Api.Problem
import OpenAccounting.Lib.Relational

/-!
# Invoices over the API

`create` of `api/invoices.rs`, from the body to the commit.  The number is the caller's
own.  The `contact_id` is checked by the foreign key alone.
-/

namespace OpenAccounting

open Calendar Commit Rounding

/-- The kind of a column value. -/
def InvoiceKind.fromDb (s : String) : Option InvoiceKind :=
  if s = "receivable" then some .receivable
  else if s = "payable" then some .payable
  else none

namespace Db

/-- `INSERT INTO invoices`. -/
def insertInvoice (db : Db) (i : Invoice) : Except SqlError Db := do
  ensure (db.HasLedger i.ledgerId) (.foreignKeyViolation "ledger_id")
  ensure (∃ c ∈ db.contacts, c.id = i.contactId) (.foreignKeyViolation "contact_id")
  let total ← okOr (amountColumn i.total) .numericFieldOverflow
  ensure (¬ ∃ j ∈ db.invoices, j.id = i.id) (.uniqueViolation "invoices_pkey")
  ensure (¬ ∃ j ∈ db.invoices, i.invoiceNumber.any (· ≠ "") ∧ j.ledgerId = i.ledgerId ∧
    j.invoiceNumber = i.invoiceNumber) (.uniqueViolation "uq_invoices_number")
  .ok { db with invoices := db.invoices ++ [{ i with total := total }] }

/-- `INSERT INTO invoice_lines`. -/
def insertInvoiceLine (db : Db) (l : InvoiceLine) : Except SqlError Db := do
  ensure (∃ i ∈ db.invoices, i.id = l.invoiceId) (.foreignKeyViolation "invoice_id")
  ensure (¬ ∃ m ∈ db.invoiceLines, m.id = l.id) (.uniqueViolation "invoice_lines_pkey")
  let quantity ← okOr (numeric 12 4 l.quantity) .numericFieldOverflow
  let unitPrice ← okOr (amountColumn l.unitPrice) .numericFieldOverflow
  let amount ← okOr (amountColumn l.amount) .numericFieldOverflow
  .ok { db with
    invoiceLines := db.invoiceLines ++
      [{ l with quantity := quantity, unitPrice := unitPrice, amount := amount }] }

end Db

namespace Api.Invoices

structure InvoiceLineBody where
  description : String
  quantity : ℚ
  unitPrice : ℚ
deriving DecidableEq

structure CreateInvoiceBody where
  contactId : Uuid
  kind : String
  invoiceNumber : Option String := none
  invoiceDate : NaiveDate
  dueDate : NaiveDate
  lines : List InvoiceLineBody
deriving DecidableEq

structure CreateInvoiceResponse where
  id : Uuid
  total : ℚ
deriving DecidableEq

def lineAmount (l : InvoiceLineBody) : ℚ := roundDpHalfEven 2 (l.quantity * l.unitPrice)

/-- The lines, with their positions. -/
def insertLines (req : Request) : ℕ → Db → List InvoiceLineBody → Except SqlError Db
  | _, db, [] => .ok db
  | k, db, l :: ls => do
    let db ← db.insertInvoiceLine
      { id := req.rowId (k + 1), invoiceId := req.rowId 0, description := l.description,
        quantity := l.quantity, unitPrice := l.unitPrice, amount := lineAmount l, sortOrder := k }
    insertLines req (k + 1) db ls

/-- The handler between the lookup and the store of the idempotency key.  The body is what
the parser makes of it, or the text of its error. -/
def execute (db : Db) (req : Request) (user ledger : Uuid)
    (parsed : Except String CreateInvoiceBody) : Except Problem (CreateInvoiceResponse × Db) := do
  let _ ← requireAccess db user ledger true
  let body ← mapError badRequest parsed
  let kind ← okOr (InvoiceKind.fromDb body.kind)
    (badRequest "kind must be 'receivable' or 'payable'")
  ensure (body.lines ≠ []) (badRequest "at least one line is required")
  let total := (body.lines.map lineAmount).sum
  let db ← mapError dbProblem (db.insertInvoice
    { id := req.rowId 0, ledgerId := ledger, contactId := body.contactId, kind := kind,
      invoiceNumber := body.invoiceNumber.filter (· ≠ ""), invoiceDate := body.invoiceDate,
      dueDate := body.dueDate, total := total })
  let db ← mapError dbProblem (insertLines req 0 db body.lines)
  .ok ({ id := req.rowId 0, total := total }, db)

/-- `create` without an idempotency key. -/
def create (db : Db) (req : Request) (user ledger : Uuid)
    (parsed : Except String CreateInvoiceBody) : Except Problem CreateInvoiceResponse × Db :=
  commit db (execute db req user ledger parsed)

/-! ## What the statements write -/

section Rows

variable {db db' : Db} {i : Invoice} {req : Request} {ls : List InvoiceLineBody} {k : ℕ}

theorem insertInvoice_ok (h : db.insertInvoice i = .ok db') :
    (∃ total, db' = { db with invoices := db.invoices ++ [{ i with total := total }] }) ∧
      (∀ j ∈ db.invoices, j.id ≠ i.id) ∧
      ∀ number ≠ "", i.invoiceNumber = some number →
        ∀ j ∈ db.invoices, j.ledgerId = i.ledgerId → j.invoiceNumber ≠ some number := by
  simp only [Db.insertInvoice, bind_eq_ok, ensure_eq_ok, okOr_eq_ok] at h
  obtain ⟨-, -, -, -, total, -, -, hfresh, -, hunused, h⟩ := h
  cases h
  refine ⟨⟨total, rfl⟩, fun j hj hid => hfresh ⟨j, hj, hid⟩,
    fun number hne hnumber j hj hledger heq => ?_⟩
  exact hunused ⟨j, hj, by simp [hnumber, hne], hledger, by rw [heq, hnumber]⟩

/-- Under another number that is not used the invoice is inserted just as well, whatever the
counters. -/
theorem insertInvoice_renumber {number : String} (h : db.insertInvoice i = .ok db')
    (hunused : ∀ j ∈ db.invoices, j.ledgerId = i.ledgerId → j.invoiceNumber ≠ some number)
    (counters : List InvoiceSequence) :
    ∃ total, db' = { db with invoices := db.invoices ++ [{ i with total := total }] } ∧
      { db with invoiceSequences := counters }.insertInvoice
        { i with invoiceNumber := some number } =
        .ok { db with
          invoiceSequences := counters
          invoices := db.invoices ++
            [{ i with invoiceNumber := some number, total := total }] } := by
  simp only [Db.insertInvoice, bind_eq_ok, ensure_eq_ok, okOr_eq_ok] at h
  obtain ⟨-, hledger, -, hcontact, total, htotal, -, hfresh, -, -, h⟩ := h
  cases h
  refine ⟨total, rfl, ?_⟩
  have hnone : ¬ ∃ j ∈ db.invoices, (some number).any (· ≠ "") = true ∧ j.ledgerId = i.ledgerId ∧
      j.invoiceNumber = some number := by
    rintro ⟨j, hj, -, hl, hn⟩
    exact hunused j hj hl hn
  have hledger' : { db with invoiceSequences := counters }.HasLedger i.ledgerId := hledger
  simp only [Db.insertInvoice, ensure, okOr, if_pos hledger', if_pos hcontact, htotal,
    if_pos hfresh, if_pos hnone]
  rfl

theorem insertInvoiceLine_ok {l : InvoiceLine} (h : db.insertInvoiceLine l = .ok db') :
    ∃ row, db' = { db with invoiceLines := db.invoiceLines ++ [row] } := by
  simp only [Db.insertInvoiceLine, bind_eq_ok, ensure_eq_ok, okOr_eq_ok] at h
  obtain ⟨-, -, -, -, quantity, -, unitPrice, -, amount, -, h⟩ := h
  cases h
  exact ⟨_, rfl⟩

theorem insertLines_ok (h : insertLines req k db ls = .ok db') :
    ∃ rows, db' = { db with invoiceLines := rows } := by
  induction ls generalizing k db with
  | nil =>
    cases h
    exact ⟨_, rfl⟩
  | cons l ls ih =>
    simp only [insertLines, bind_eq_ok] at h
    obtain ⟨db₁, hline, h⟩ := h
    obtain ⟨row, rfl⟩ := insertInvoiceLine_ok hline
    obtain ⟨rows, hrows⟩ := ih h
    exact ⟨rows, hrows⟩

/-- The databases have the same invoice ids and the same lines. -/
structure SameLines (db db₂ : Db) : Prop where
  invoice_ids : ∀ id, (∃ i ∈ db.invoices, i.id = id) → ∃ i ∈ db₂.invoices, i.id = id
  lines_eq : db₂.invoiceLines = db.invoiceLines

theorem insertInvoiceLine_congr {db₂ : Db} (hsame : SameLines db db₂) {l : InvoiceLine}
    (h : db.insertInvoiceLine l = .ok db') :
    ∃ db₂', db₂.insertInvoiceLine l = .ok db₂' ∧ SameLines db' db₂' := by
  simp only [Db.insertInvoiceLine, bind_eq_ok, ensure_eq_ok, okOr_eq_ok] at h
  obtain ⟨-, hinvoice, -, hfresh, quantity, hquantity, unitPrice, hprice, amount, hamount, h⟩ := h
  cases h
  have hfresh₂ : ¬ ∃ m ∈ db₂.invoiceLines, m.id = l.id := by rwa [hsame.lines_eq]
  have hinvoice₂ := hsame.invoice_ids _ hinvoice
  simp only [Db.insertInvoiceLine, ensure, okOr, if_pos hinvoice₂, if_pos hfresh₂, hquantity,
    hprice, hamount]
  exact ⟨_, rfl, hsame.invoice_ids, by simp only [hsame.lines_eq]⟩

theorem insertLines_congr {db₂ : Db} (hsame : SameLines db db₂)
    (h : insertLines req k db ls = .ok db') :
    ∃ db₂', insertLines req k db₂ ls = .ok db₂' := by
  induction ls generalizing k db db₂ with
  | nil => exact ⟨db₂, rfl⟩
  | cons l ls ih =>
    simp only [insertLines, bind_eq_ok] at h
    obtain ⟨db₁, hline, h⟩ := h
    obtain ⟨db₃, hline₂, hsame₂⟩ := insertInvoiceLine_congr hsame hline
    obtain ⟨db₂', hrest⟩ := ih hsame₂ h
    exact ⟨db₂', by rw [insertLines, hline₂]; exact hrest⟩

end Rows

def invoiceRow (req : Request) (ledger : Uuid) (body : CreateInvoiceBody) (kind : InvoiceKind)
    (total : ℚ) :
    Invoice where
  id := req.rowId 0
  ledgerId := ledger
  contactId := body.contactId
  kind := kind
  invoiceNumber := body.invoiceNumber.filter (· ≠ "")
  invoiceDate := body.invoiceDate
  dueDate := body.dueDate
  total := total

theorem create_cases (db : Db) (req : Request) (user ledger : Uuid)
    (parsed : Except String CreateInvoiceBody) :
    (create db req user ledger parsed).2 = db ∨
      ∃ body kind total lines, parsed = .ok body ∧ (create db req user ledger parsed).1.isOk ∧
        (create db req user ledger parsed).2 = { db with
          invoices := db.invoices ++ [invoiceRow req ledger body kind total]
          invoiceLines := lines } ∧ ∀ j ∈ db.invoices, j.id ≠ req.rowId 0 := by
  rcases commit_cases db _ with h | ⟨answer, db', hbody, h⟩
  · exact .inl h
  · have hok : (create db req user ledger parsed).1.isOk := by
      rw [create, hbody]
      rfl
    simp only [execute, bind_eq_ok, mapError_eq_ok] at hbody
    obtain ⟨-, -, body, rfl, kind, -, -, -, db₁, hinvoice, db₂, hlines, hbody⟩ := hbody
    cases hbody
    obtain ⟨⟨total, rfl⟩, hfresh, -⟩ := insertInvoice_ok hinvoice
    obtain ⟨lines, rfl⟩ := insertLines_ok hlines
    exact .inr ⟨body, kind, total, lines, rfl, hok, h, hfresh⟩

end Api.Invoices

end OpenAccounting

/-!
## Payments over the API

`create` of `api/payments.rs`, from the body to the commit.  A payment that names an
invoice is added to what the invoice has been paid, if the invoice is open or overdue.
-/

namespace OpenAccounting

open Calendar Commit Relational

/-- The method of a column value. -/
def PaymentMethod.fromDb (s : String) : Option PaymentMethod :=
  if s = "cash" then some .cash
  else if s = "check" then some .check
  else if s = "bank_transfer" then some .bankTransfer
  else if s = "credit_card" then some .creditCard
  else if s = "other" then some .other
  else none

/-- The kind of a column value. -/
def PaymentKind.fromDb (s : String) : Option PaymentKind :=
  if s = "received" then some .received
  else if s = "made" then some .made
  else none

namespace Db

def insertPayment (db : Db) (p : Payment) : Except SqlError Db := do
  ensure (db.HasLedger p.ledgerId) (.foreignKeyViolation "ledger_id")
  ensure (p.contactId.all fun c => ∃ x ∈ db.contacts, x.id = c) (.foreignKeyViolation "contact_id")
  ensure (p.invoiceId.all fun i => ∃ x ∈ db.invoices, x.id = i) (.foreignKeyViolation "invoice_id")
  ensure (¬ ∃ q ∈ db.payments, q.id = p.id) (.uniqueViolation "payments_pkey")
  let amount ← okOr (amountColumn p.amount) .numericFieldOverflow
  .ok { db with payments := db.payments ++ [{ p with amount := amount }] }

end Db

namespace Api.Payments

structure CreatePaymentBody where
  contactId : Option Uuid := none
  invoiceId : Option Uuid := none
  amount : ℚ
  paymentDate : NaiveDate
  paymentMethod : String
  reference : Option String := none
  kind : String
deriving DecidableEq

/-- `UPDATE invoices SET amount_paid = amount_paid + $2 … WHERE id = $1 AND ledger_id = $3 AND
status IN ('open', 'overdue')`. -/
def addPaid (db : Db) (ledger invoice : Uuid) (amount : ℚ) : Except SqlError Db := do
  let touched := fun i : Invoice =>
    i.id = invoice ∧ i.ledgerId = ledger ∧ (i.status = .opened ∨ i.status = .overdue)
  ensure (∀ i ∈ db.invoices, touched i → (amountColumn (i.amountPaid + amount)).isSome)
    .numericFieldOverflow
  .ok { db with
    invoices := updateWhere touched (fun i => { i with
      amountPaid := (amountColumn (i.amountPaid + amount)).getD 0 }) db.invoices }

/-- `UPDATE invoices SET status = 'paid' WHERE id = $1 AND ledger_id = $2 AND
amount_paid >= total`. -/
def settle (db : Db) (ledger invoice : Uuid) : Db :=
  { db with
    invoices := updateWhere
      (fun i => i.id = invoice ∧ i.ledgerId = ledger ∧ i.total ≤ i.amountPaid)
      (fun i => { i with status := .paid }) db.invoices }

/-- A linked payment is applied to its invoice. -/
def applyToInvoice (db : Db) (ledger : Uuid) (amount : ℚ) : Option Uuid → Except SqlError Db
  | none => .ok db
  | some invoice => do
    let db ← addPaid db ledger invoice amount
    .ok (settle db ledger invoice)

/-- The handler between the lookup and the store of the idempotency key.  It returns the id
of the payment. -/
def execute (db : Db) (req : Request) (user ledger : Uuid)
    (parsed : Except String CreatePaymentBody) : Except Problem (Uuid × Db) := do
  let _ ← requireAccess db user ledger true
  let body ← mapError badRequest parsed
  let kind ← okOr (PaymentKind.fromDb body.kind) (badRequest "kind must be 'received' or 'made'")
  let method ← okOr (PaymentMethod.fromDb body.paymentMethod) (badRequest "invalid payment_method")
  ensure (0 < body.amount) (badRequest "amount must be positive")
  let db ← mapError dbProblem (db.insertPayment
    { id := req.rowId 0, ledgerId := ledger, contactId := body.contactId,
      invoiceId := body.invoiceId, amount := body.amount, paymentDate := body.paymentDate,
      paymentMethod := method, reference := body.reference, kind := kind })
  let db ← mapError dbProblem (applyToInvoice db ledger body.amount body.invoiceId)
  .ok (req.rowId 0, db)

/-- `create` without an idempotency key. -/
def create (db : Db) (req : Request) (user ledger : Uuid)
    (parsed : Except String CreatePaymentBody) : Except Problem Uuid × Db :=
  commit db (execute db req user ledger parsed)

end Api.Payments

end OpenAccounting
