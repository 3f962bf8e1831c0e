import OpenAccounting.Api.Invoices
import OpenAccounting.Jobs.TemplateRun

/-!
# Recurring invoices

`jobs/recurring_invoices.rs`.  `issue_occurrence` writes the invoice of one occurrence with its
lines, unless there is one.  `scan_and_run` goes through the due templates and issues the
occurrences of each from its `next_date` on, until it meets one that is not due or was issued
before.  Nothing moves `next_date`.
-/

namespace OpenAccounting.RecurringInvoices

open Calendar Commit Rounding TemplateRun

/-- `SELECT … FROM recurring_invoice_lines WHERE template_id = $1 ORDER BY sort_order`. -/
def linesOf (db : Db) (template : Uuid) : List RecurringInvoiceLine :=
  Relational.orderBy RecurringInvoiceLine.sortOrder
    (db.recurringInvoiceLines.filter fun l => l.templateId = template)

def lineAmount (l : RecurringInvoiceLine) : ℚ := roundDpHalfEven 2 (l.quantity * l.unitPrice)

/-- The occurrence has an invoice: `ON CONFLICT (recurring_template_id, invoice_date)`. -/
def AlreadyIssued (db : Db) (template : Uuid) (d : NaiveDate) : Prop :=
  ∃ i ∈ db.invoices, i.recurringTemplateId = some template ∧ i.invoiceDate = d

instance (db : Db) (template : Uuid) (d : NaiveDate) : Decidable (AlreadyIssued db template d) := by
  unfold AlreadyIssued
  infer_instance

/-- The invoice row of the occurrence. -/
def invoiceRow (req : Request) (t : RecurringInvoiceTemplate) (lines : List RecurringInvoiceLine)
    (d : NaiveDate) : Invoice where
  id := req.rowId 0
  ledgerId := t.ledgerId
  contactId := t.contactId
  kind := t.kind
  invoiceDate := d
  dueDate := d
  total := (lines.map lineAmount).sum
  recurringTemplateId := some t.id

/-- The lines, with their positions. -/
def insertLines (req : Request) : ℕ → Db → List RecurringInvoiceLine → Except SqlError Db
  | _, db, [] => .ok db
  | k, db, l :: ls => do
    let db ← db.insertInvoiceLine
      { id := req.rowId (k + 1), invoiceId := req.rowId 0, description := l.description,
        quantity := l.quantity, unitPrice := l.unitPrice, amount := lineAmount l, sortOrder := k }
    insertLines req (k + 1) db ls

/-- The database transaction of `issue_occurrence`. -/
def writeInvoice (db : Db) (req : Request) (t : RecurringInvoiceTemplate)
    (lines : List RecurringInvoiceLine) (d : NaiveDate) : Except JobError (Bool × Db) := do
  let db ← mapError .db (db.insertInvoice (invoiceRow req t lines d))
  let db ← mapError .db (insertLines req 0 db lines)
  .ok (true, db)

/-- `issue_occurrence`: `false` when the occurrence was issued before. -/
def issueOccurrence (db : Db) (req : Request) (t : RecurringInvoiceTemplate) (d : NaiveDate) :
    Except JobError Bool × Db :=
  if linesOf db t.id = [] then
    (.error (.failed ("recurring invoice template " ++ Uuid.hyphenated t.id ++ " has no lines")), db)
  else if AlreadyIssued db t.id d then (.ok false, db)
  else commit db (writeInvoice db req t (linesOf db t.id) d)

/-- A run of `scan_and_run`: its day, and what it meets when it issues an occurrence. -/
structure Scan where
  today : NaiveDate
  draw : Uuid → NaiveDate → Request

/-- The loop over the occurrences of a template, with the turns that the guard still allows. -/
def catchUp (scan : Scan) (t : RecurringInvoiceTemplate) :
    ℕ → Db → NaiveDate → Except JobError Unit × Db
  | 0, db, _ => (.ok (), db)
  | turns + 1, db, cursor =>
    if scan.today < cursor then (.ok (), db)
    else
      match issueOccurrence db (scan.draw t.id cursor) t cursor with
      | (.ok true, db) =>
        match advanceFrequency cursor t.frequency with
        | some next => catchUp scan t turns db next
        | none => (.error .panicked, db)
      -- An occurrence that was issued before ends the catch-up.
      | (.ok false, db) => (.ok (), db)
      | (.error e, db) => (.error e, db)

/-- The loop over the templates. -/
def issueAll (scan : Scan) : Db → List RecurringInvoiceTemplate → Except JobError Unit × Db
  | db, [] => (.ok (), db)
  | db, t :: ts =>
    match catchUp scan t 120 db t.nextDate with
    | (.ok (), db) => issueAll scan db ts
    | (.error e, db) => (.error e, db)

def scanAndRun (db : Db) (scan : Scan) : Except JobError Unit × Db :=
  issueAll scan db
    (db.recurringInvoiceTemplates.filter fun t => t.isActive && t.nextDate ≤ scan.today)

/-! ## What an issued occurrence wrote -/

/-- The days on which invoices of a template are dated. -/
def issuedOn (db : Db) (template : Uuid) : List NaiveDate :=
  (db.invoices.filter fun i => i.recurringTemplateId = some template).map Invoice.invoiceDate

theorem alreadyIssued_iff {db : Db} {template : Uuid} {d : NaiveDate} :
    AlreadyIssued db template d ↔ d ∈ issuedOn db template := by
  simp [AlreadyIssued, issuedOn, and_assoc]

def invoiceLinesOf (db : Db) (invoice : Uuid) : List InvoiceLine :=
  db.invoiceLines.filter fun l => l.invoiceId = invoice

/-- What a new invoice changes. -/
structure Issued (db db' : Db) (template : Uuid) (d : NaiveDate) (i : Invoice)
    (lines : List InvoiceLine) : Prop where
  marked : i.recurringTemplateId = some template ∧ i.invoiceDate = d
  fresh : ∀ j ∈ db.invoices, j.id ≠ i.id
  total : i.total = (lines.map InvoiceLine.amount).sum
  own : ∀ l ∈ lines, l.invoiceId = i.id
  writes : db' =
    { db with invoices := db.invoices ++ [i], invoiceLines := db.invoiceLines ++ lines }

theorem hasScale_lineAmount (l : RecurringInvoiceLine) : HasScale 4 (lineAmount l) :=
  HasScale.mono ⟨_, rfl⟩ (by decide)

theorem insertInvoiceLine_spec {db db' : Db} {l : InvoiceLine}
    (h : db.insertInvoiceLine l = .ok db') :
    ∃ stored : InvoiceLine, db' = { db with invoiceLines := db.invoiceLines ++ [stored] } ∧
      stored.invoiceId = l.invoiceId ∧ amountColumn l.amount = some stored.amount := by
  simp only [Db.insertInvoiceLine, bind_eq_ok, ensure_eq_ok, okOr_eq_ok, Except.ok.injEq] at h
  obtain ⟨_, -, _, -, quantity, -, unitPrice, -, amount, hamount, rfl⟩ := h
  exact ⟨_, rfl, rfl, hamount⟩

theorem insertLines_spec {req : Request} :
    ∀ {k : ℕ} {db db' : Db} {ls : List RecurringInvoiceLine}, insertLines req k db ls = .ok db' →
      ∃ lines, db' = { db with invoiceLines := db.invoiceLines ++ lines } ∧
        lines.map InvoiceLine.amount = ls.map lineAmount ∧ ∀ l ∈ lines, l.invoiceId = req.rowId 0
  | _, db, _, [], h => by
    cases h
    exact ⟨[], by simp, rfl, List.forall_mem_nil _⟩
  | k, db, db', l :: ls, h => by
    simp only [insertLines, bind_eq_ok] at h
    obtain ⟨db₁, hfirst, hrest⟩ := h
    obtain ⟨stored, rfl, hid, hamount⟩ := insertInvoiceLine_spec hfirst
    obtain ⟨lines, rfl, hamounts, hown⟩ := insertLines_spec hrest
    refine ⟨stored :: lines, by simp, ?_, List.forall_mem_cons.mpr ⟨hid, hown⟩⟩
    rw [List.map_cons, List.map_cons, hamounts,
      numeric_of_hasScale (hasScale_lineAmount l) hamount]

theorem writeInvoice_spec {db db' : Db} {req : Request} {t : RecurringInvoiceTemplate}
    {ls : List RecurringInvoiceLine} {d : NaiveDate} {r : Bool}
    (h : writeInvoice db req t ls d = .ok (r, db')) :
    r = true ∧ ∃ i lines, Issued db db' t.id d i lines := by
  simp only [writeInvoice, Db.insertInvoice, bind_eq_ok, mapError_eq_ok, ensure_eq_ok,
    okOr_eq_ok, Except.ok.injEq] at h
  obtain ⟨_, ⟨_, -, _, -, total, htotal, _, hfresh, _, -, rfl⟩, db₁, hlines, h⟩ := h
  cases h
  obtain ⟨lines, rfl, hamounts, hown⟩ := insertLines_spec hlines
  have hsum : total = (ls.map lineAmount).sum := by
    refine numeric_of_hasScale (HasScale.list_sum fun x hx => ?_) htotal
    obtain ⟨l, -, rfl⟩ := List.mem_map.mp hx
    exact hasScale_lineAmount l
  refine ⟨rfl, { invoiceRow req t ls d with total := total }, lines, ⟨rfl, rfl⟩, ?_, ?_, hown, rfl⟩
  · exact fun j hj heq => hfresh ⟨j, hj, heq⟩
  · rw [hamounts]
    exact hsum

theorem issueOccurrence_spec {db db' : Db} {req : Request} {t : RecurringInvoiceTemplate}
    {d : NaiveDate} {r : Except JobError Bool} (h : issueOccurrence db req t d = (r, db')) :
    r = .ok true ∧ d ∉ issuedOn db t.id ∧ (∃ i lines, Issued db db' t.id d i lines) ∨
      r = .ok false ∧ d ∈ issuedOn db t.id ∧ db' = db ∨ (∃ e, r = .error e) ∧ db' = db := by
  unfold issueOccurrence at h
  split at h
  · cases h
    exact Or.inr (Or.inr ⟨⟨_, rfl⟩, rfl⟩)
  · split at h
    · rename_i hissued
      cases h
      exact Or.inr (Or.inl ⟨rfl, alreadyIssued_iff.mp hissued, rfl⟩)
    · rename_i hnew
      rcases commit_eq h with herror | ⟨posted, rfl, hbody⟩
      · exact Or.inr (Or.inr herror)
      · obtain ⟨rfl, hwrites⟩ := writeInvoice_spec hbody
        exact Or.inl ⟨rfl, fun hmem => hnew (alreadyIssued_iff.mpr hmem), hwrites⟩

end OpenAccounting.RecurringInvoices
