import OpenAccounting.Handlers.Invoices

/-!
# Payments

`create` and `apply` of `handlers/payments.rs`.  Both add a payment to what an invoice has been
paid and set its status from the sum: `paid`, or else `partial`, which
`invoices_status_check` does not admit.

`create` books the payment against the account with the subtype `cash`, which
`chk_account_subtype` does not admit either, so it never gets past that query.
-/

namespace OpenAccounting.Payments

open Calendar Commit Relational

/-! ## Invoices -/

/-- `SELECT … FROM invoices WHERE id = $1` with `fetch_one`. -/
def fetchInvoice (db : Db) (invoice : Uuid) : Except SqlError Invoice :=
  okOr (db.invoices.find? fun i => i.id = invoice) .rowNotFound

/-- The new `amount_paid`, and the new status. -/
def newPaid (found : Invoice) (amount : ℚ) : ℚ × String :=
  let paid := found.amountPaid + amount
  (paid, if found.total ≤ paid then "paid" else "partial")

/-- `UPDATE invoices SET amount_paid = $1, status = $2 … WHERE id = $3`. -/
def setPaid (db : Db) (invoice : Uuid) (paid : ℚ × String) : Except SqlError Db := do
  let amount ← okOr (amountColumn paid.1) .numericFieldOverflow
  let status ← okOr (InvoiceStatus.fromDb paid.2) (.checkViolation "invoices_status_check")
  .ok { db with
    invoices := updateWhere (fun i => i.id = invoice)
      (fun i => { i with amountPaid := amount, status := status }) db.invoices }

/-! ## `create` -/

/-- `NewPaymentForm`, with its texts as the parsers leave them.  An empty id is `some none`. -/
structure NewPaymentForm where
  contactId : Option (Option Uuid)
  invoiceId : Option (Option Uuid)
  amount : Option ℚ
  paymentDate : Option NaiveDate
  paymentMethod : String
  reference : Option String := none
  kind : String

def accountOfSubtype (b : Books) (ledger : Uuid) (type subtype : String) : Option Uuid :=
  (b.accounts.find? fun a =>
    a.ledgerId = ledger ∧ a.type.asStr = type ∧ a.subtype.asStr = subtype).map Account.id

def accountOfName (b : Books) (ledger : Uuid) (type name : String) : Option Uuid :=
  (b.accounts.find? fun a =>
    a.ledgerId = ledger ∧ a.type.asStr = type ∧ a.name = name).map Account.id

def accountOfType (b : Books) (ledger : Uuid) (type : String) : Option Uuid :=
  (b.accounts.find? fun a => a.ledgerId = ledger ∧ a.type.asStr = type).map Account.id

/-- `cash_account` and `contra_account`. -/
def accountsFor (db : Db) (ledger : Uuid) : Option Uuid → Except AppError (Uuid × Uuid)
  | some invoice => do
    let found ← mapError .db (fetchInvoice db invoice)
    let cash ← okOr (if found.kind = .receivable
      then accountOfSubtype db.books ledger "ASSET" "cash"
      else accountOfName db.books ledger "LIABILITY" "Accounts Payable") .notFound
    let contra ← okOr (if found.kind = .receivable
      then accountOfName db.books ledger "ASSET" "Accounts Receivable"
      else accountOfSubtype db.books ledger "ASSET" "cash") .notFound
    .ok (cash, contra)
  | none => do
    let cash ← okOr (accountOfSubtype db.books ledger "ASSET" "cash") .notFound
    let contra ← okOr (accountOfType db.books ledger "REVENUE") .notFound
    .ok (cash, contra)

/-- The reference, unless it is empty. -/
def NewPaymentForm.ref (form : NewPaymentForm) : Option String := form.reference.filter (· ≠ "")

def txnRow (req : Request) (user : Uuid) (ledger : Ledger) (date : NaiveDate)
    (contact : Option Uuid) (form : NewPaymentForm) : Transaction where
  id := req.txnId 0
  ledgerId := ledger.id
  txnDate := date
  description := "Payment " ++ form.kind ++ " - " ++ form.paymentMethod
  payee := form.ref
  reference := form.ref
  currency := ledger.baseCurrency
  kind := .standard
  createdBy := user
  contactId := contact
  createdAt := req.now

/-- The two postings of the payment. -/
def postingRows (req : Request) (debit credit : Uuid) (amount : ℚ) (memo : Option String) :
    List PostingRow :=
  [{ id := req.postingId 0 0, transactionId := req.txnId 0, accountId := debit, amount := amount,
     direction := .debit, memo := memo },
    { id := req.postingId 0 1, transactionId := req.txnId 0, accountId := credit, amount := amount,
      direction := .credit, memo := memo }]

/-- A payment with an invoice is applied to it. -/
def applyToInvoice (db : Db) (amount : ℚ) : Option Uuid → Except SqlError Db
  | none => .ok db
  | some invoice => do
    let found ← fetchInvoice db invoice
    setPaid db invoice (newPaid found amount)

def create (db : Db) (req : Request) (auth : Option Uuid) (ledger : Uuid)
    (form : NewPaymentForm) : Except AppError Uuid × Db :=
  commit db do
    let user ← okOr auth .unauthorized
    let l ← db.ensureWriter user ledger
    let amount ← okOr form.amount (.validation "Invalid amount")
    ensure (0 < amount) (.validation "Amount must be positive")
    let date ← okOr form.paymentDate (.validation "Invalid date")
    let contact ← okOr form.contactId (.validation "Invalid contact")
    let invoice ← okOr form.invoiceId (.validation "Invalid invoice")
    let kind ← okOr (PaymentKind.fromDb form.kind) (.validation "Invalid kind")
    let method ← okOr (PaymentMethod.fromDb form.paymentMethod)
      (.validation "Invalid payment method")
    ensure (contact.all fun c => ∃ x ∈ db.contacts, x.id = c)
      (.db (.foreignKeyViolation "contact_id"))
    ensure (invoice.all fun i => ∃ x ∈ db.invoices, x.id = i)
      (.db (.foreignKeyViolation "invoice_id"))
    let db ← mapError .db (db.insertTransaction (txnRow req user l date contact form))
    let (cash, contra) ← accountsFor db ledger invoice
    let (debit, credit) := if kind = .received then (cash, contra) else (contra, cash)
    let db ← mapError .db (db.insertPostingsEach (postingRows req debit credit amount form.ref))
    let db ← mapError .db (db.insertPayment
      { id := req.rowId 0, ledgerId := ledger, contactId := contact, invoiceId := invoice,
        transactionId := some (req.txnId 0), amount := amount, paymentDate := date,
        paymentMethod := method, reference := form.ref, kind := kind })
    let db ← mapError .db (applyToInvoice db amount invoice)
    .ok (req.rowId 0, db)

/-! ## `apply` -/

/-- `UPDATE payments SET invoice_id = $1 WHERE id = $2`. -/
def linkPayment (db : Db) (payment invoice : Uuid) : Db :=
  { db with
    payments := updateWhere (fun p => p.id = payment)
      (fun p => { p with invoiceId := some invoice })
      db.payments }

/-- `apply`.  The query parameter may be missing, and its text may not parse. -/
def apply (db : Db) (auth : Option Uuid) (ledger payment : Uuid)
    (invoice : Option (Option Uuid)) : Except AppError Unit × Db :=
  commit db do
    let user ← okOr auth .unauthorized
    let _ ← db.ensureWriter user ledger
    let invoice ← okOr invoice (.validation "Missing invoice_id")
    let invoice ← okOr invoice (.validation "Invalid invoice_id")
    let found ← okOr (db.payments.find? fun p => p.id = payment) (.db .rowNotFound)
    let target ← mapError .db (fetchInvoice db invoice)
    let db ← mapError .db
      (setPaid (linkPayment db payment invoice) invoice (newPaid target found.amount))
    .ok ((), db)

/-! ## What they do -/

theorem accountOfSubtype_cash (b : Books) (ledger : Uuid) (type : String) :
    accountOfSubtype b ledger type "cash" = none := by
  have hcash : ∀ s : AccountSubtype, s.asStr ≠ "cash" := by
    intro s
    cases s <;> decide
  simp [accountOfSubtype, hcash]

theorem accountsFor_ne_ok (db : Db) (ledger : Uuid) (invoice : Option Uuid)
    (accounts : Uuid × Uuid) : accountsFor db ledger invoice ≠ .ok accounts := by
  intro h
  cases invoice with
  | none =>
    simp only [accountsFor, bind_eq_ok, okOr_eq_ok, accountOfSubtype_cash] at h
    obtain ⟨_, h, -⟩ := h
    cases h
  | some invoice =>
    simp only [accountsFor, bind_eq_ok, okOr_eq_ok, accountOfSubtype_cash] at h
    obtain ⟨found, -, cash, hcash, contra, hcontra, -⟩ := h
    cases hkind : found.kind with
    | receivable => simp [hkind] at hcash
    | payable => simp [hkind] at hcontra

theorem create_unchanged (db : Db) (req : Request) (auth : Option Uuid) (ledger : Uuid)
    (form : NewPaymentForm) : (create db req auth ledger form).2 = db := by
  rcases commit_cases db _ with h | ⟨_, db', hbody, -⟩
  · exact h
  · simp only [bind_eq_ok] at hbody
    obtain ⟨_, -, _, -, _, -, _, -, _, -, _, -, _, -, _, -, _, -, _, -, _, -, _, -, accounts,
      h, -⟩ :=
      hbody
    exact absurd h (accountsFor_ne_ok _ _ _ accounts)

end OpenAccounting.Payments
