import OpenAccounting.Handlers.Access

/-!
# Recurring templates

`jobs/template_run.rs`.  `run_occurrence` posts one occurrence of a template as a
`recurring` entry in the name of the ledger's owner.  An occurrence that exists
already is skipped.  `scan_and_run` reads the templates that are due and catches up on
the occurrences of one after the other.
-/

namespace OpenAccounting

open Calendar Commit

/-- How a job fails. -/
inductive JobError where
  | failed (message : String)
  | db (e : SqlError)
  /-- Date arithmetic that leaves the range of dates panics. -/
  | panicked
deriving DecidableEq

namespace TemplateRun

/-! ## Dates -/

def daysInMonth (year : ℤ) (month : ℕ) : ℕ :=
  if month ∈ [1, 3, 5, 7, 8, 10, 12] then 31
  else if month ∈ [4, 6, 9, 11] then 30
  else if month = 2 then
    if year % 4 = 0 ∧ (year % 100 ≠ 0 ∨ year % 400 = 0) then 29 else 28
  else 30

/-- `add_months`.  Lean's division of integers by twelve is the Euclidean one. -/
def addMonths (date : NaiveDate) (months : ℤ) : NaiveDate :=
  let total := date.year * 12 + (date.month - 1 : ℕ) + months
  let year := total / 12
  let month := (total % 12).toNat + 1
  let day := min date.day (daysInMonth year month)
  (NaiveDate.fromYmdOpt year month day).getD date

/-- `advance_frequency`, or `none` where it panics. -/
def advanceFrequency (date : NaiveDate) (frequency : String) : Option NaiveDate :=
  if frequency = "weekly" then date.addDays 7
  else if frequency = "biweekly" then date.addDays 14
  else if frequency = "monthly" then some (addMonths date 1)
  else if frequency = "quarterly" then some (addMonths date 3)
  else if frequency = "yearly" then some (addMonths date 12)
  else date.addDays 7

theorem le_addMonths (date : NaiveDate) {months : ℤ} (h : 0 < months) :
    date ≤ addMonths date months := by
  unfold addMonths
  dsimp only
  cases hymd : NaiveDate.fromYmdOpt _ _ _ with
  | none => exact le_rfl
  | some next =>
    obtain ⟨hyear, hmonth, -⟩ := NaiveDate.fromYmdOpt_eq_some.mp hymd
    have hrange := date.month_range
    refine (NaiveDate.lt_iff.mpr ?_).le
    simp only [Option.getD_some]
    omega

variable {frequency : String} {first : NaiveDate}

theorem le_advanceFrequency {date next : NaiveDate}
    (h : advanceFrequency date frequency = some next) : date ≤ next := by
  unfold advanceFrequency at h
  split_ifs at h
  · exact NaiveDate.le_of_addDays h
  · exact NaiveDate.le_of_addDays h
  · cases h
    exact le_addMonths date (by decide)
  · cases h
    exact le_addMonths date (by decide)
  · cases h
    exact le_addMonths date (by decide)
  · exact NaiveDate.le_of_addDays h

/-- The occurrences of a template whose next one is due at `first`. -/
def occurrence (frequency : String) (first : NaiveDate) : ℕ → Option NaiveDate
  | 0 => some first
  | n + 1 => (occurrence frequency first n).bind fun date => advanceFrequency date frequency

theorem occurrence_le {m n : ℕ} (hmn : m ≤ n) {a b : NaiveDate}
    (ha : occurrence frequency first m = some a) (hb : occurrence frequency first n = some b) :
    a ≤ b := by
  induction n, hmn using Nat.le_induction generalizing b with
  | base =>
    rw [ha] at hb
    cases hb
    exact le_rfl
  | succ n hmn ih =>
    rw [occurrence, Option.bind_eq_some_iff] at hb
    obtain ⟨prev, hprev, hnext⟩ := hb
    exact (ih hprev).trans (le_advanceFrequency hnext)

theorem exists_occurrence_of_le {b : NaiveDate} {m n : ℕ} (hmn : m ≤ n)
    (hb : occurrence frequency first n = some b) : ∃ a, occurrence frequency first m = some a := by
  induction n, hmn using Nat.le_induction generalizing b with
  | base => exact ⟨b, hb⟩
  | succ n hmn ih =>
    rw [occurrence, Option.bind_eq_some_iff] at hb
    obtain ⟨prev, hprev, -⟩ := hb
    exact ih hprev

theorem occurrence_of_repeated {date : NaiveDate} {m k : ℕ} (hmk : m < k)
    (hm : occurrence frequency first m = some date)
    (hk : occurrence frequency first k = some date) (n : ℕ) :
    ∃ x, occurrence frequency first n = some x ∧ x ≤ date := by
  induction n with
  | zero => exact ⟨first, rfl, occurrence_le (Nat.zero_le m) rfl hm⟩
  | succ n ih =>
    rcases Nat.lt_or_ge n k with hlt | hge
    · obtain ⟨y, hy⟩ := exists_occurrence_of_le hlt hk
      exact ⟨y, hy, occurrence_le hlt hy hk⟩
    · obtain ⟨x, hx, hle⟩ := ih
      have hxdate : x = date := le_antisymm hle (occurrence_le (hmk.le.trans hge) hm hx)
      subst hxdate
      -- The date after the first of the two is between them.
      obtain ⟨y, hy⟩ := exists_occurrence_of_le (Nat.succ_le_of_lt hmk) hk
      have hyx : y = x := le_antisymm (occurrence_le (Nat.succ_le_of_lt hmk) hy hk)
        (occurrence_le (Nat.le_succ m) hm hy)
      subst hyx
      rw [Nat.succ_eq_add_one, occurrence, hm] at hy
      refine ⟨y, ?_, le_rfl⟩
      rw [occurrence, hx]
      exact hy

/-! ## One occurrence -/

/-- What the caller passes for a template. -/
structure Occurrence where
  templateId : Uuid
  ledgerId : Uuid
  description : String
  payee : Option String := none
  reference : Option String := none
  dueDate : NaiveDate
deriving DecidableEq

/-- `SELECT … FROM template_postings WHERE template_id = $1`. -/
def templatePostingsOf (db : Db) (template : Uuid) : List TemplatePosting :=
  db.templatePostings.filter fun p => p.templateId = template

def txnRow (req : Request) (ledger : Ledger) (o : Occurrence) : Transaction where
  id := req.txnId 0
  ledgerId := o.ledgerId
  txnDate := o.dueDate
  description := o.description
  payee := o.payee
  reference := o.reference
  currency := ledger.baseCurrency
  kind := .recurring
  createdBy := ledger.ownerId
  templateId := some o.templateId
  createdAt := req.now

/-- The `k`-th posting. -/
def postingRow (req : Request) (k : ℕ) (p : TemplatePosting) : PostingRow where
  id := req.postingId 0 k
  transactionId := req.txnId 0
  accountId := p.accountId
  amount := p.amount
  direction := p.direction
  memo := p.memo

/-- The postings, numbered from `k` on. -/
def postingRows (req : Request) : ℕ → List TemplatePosting → List PostingRow
  | _, [] => []
  | k, p :: ps => postingRow req k p :: postingRows req (k + 1) ps

/-- The occurrence is in the journal: `ON CONFLICT (template_id, txn_date)`. -/
def AlreadyPosted (b : Books) (o : Occurrence) : Prop :=
  ∃ t ∈ b.transactions, t.templateId = some o.templateId ∧ t.txnDate = o.dueDate

instance (b : Books) (o : Occurrence) : Decidable (AlreadyPosted b o) := by
  unfold AlreadyPosted
  infer_instance

/-- `UPDATE transaction_templates SET next_date = $1 WHERE id = $2`. -/
def setNextDate (db : Db) (template : Uuid) (next : NaiveDate) : Db :=
  { db with
    templates := db.templates.map fun t =>
      if t.id = template then { t with nextDate := next } else t }

/-- The database transaction of `run_occurrence`. -/
def postOccurrence (db : Db) (req : Request) (ledger : Ledger) (o : Occurrence) :
    Except JobError (Bool × Db) := do
  let db ← mapError .db (db.insertEntry (txnRow req ledger o)
    (postingRows req 0 (templatePostingsOf db o.templateId)))
  let template ← okOr (db.templates.find? fun t => t.id = o.templateId) (.db .rowNotFound)
  let next ← okOr (advanceFrequency o.dueDate template.frequency) .panicked
  .ok (true, setNextDate db o.templateId next)

/-- What `run_occurrence` reads before it begins its transaction. -/
def actorLedger (db : Db) (o : Occurrence) : Except JobError Ledger := do
  ensure (2 ≤ (templatePostingsOf db o.templateId).length)
    (.failed ("template " ++ Uuid.hyphenated o.templateId ++ " has fewer than two postings"))
  okOr (db.findLedger o.ledgerId) (.db .rowNotFound)

/-- `run_occurrence`: `false` when the occurrence was posted before. -/
def runOccurrence (db : Db) (req : Request) (o : Occurrence) : Except JobError Bool × Db :=
  match actorLedger db o with
  | .error e => (.error e, db)
  | .ok ledger =>
    if AlreadyPosted db.books o then (.ok false, db)
    else commit db (postOccurrence db req ledger o)

/-! ## The scan -/

/-- The templates `scan_and_run` reads. -/
def dueTemplates (db : Db) (today : NaiveDate) : List TransactionTemplate :=
  db.templates.filter fun t => t.isActive && t.nextDate ≤ today

/-- A template that the scan has read, with the loop variables of its catch-up. -/
structure CatchUp where
  template : TransactionTemplate
  cursor : NaiveDate
  guard : ℕ := 0
deriving DecidableEq

namespace CatchUp

/-- Before the first turn of the loop. -/
def start (t : TransactionTemplate) : CatchUp where
  template := t
  cursor := t.nextDate

/-- The occurrence at the cursor. -/
def current (c : CatchUp) : Occurrence where
  templateId := c.template.id
  ledgerId := c.template.ledgerId
  description := c.template.description
  payee := c.template.payee
  reference := c.template.reference
  dueDate := c.cursor

/-- What is left of the scan after a turn: the loop goes on while the new cursor is due, for at
most `120` turns. -/
def proceed (c : CatchUp) (today next : NaiveDate) (rest : List CatchUp) : List CatchUp :=
  if next ≤ today ∧ c.guard + 1 < 120 then { c with cursor := next, guard := c.guard + 1 } :: rest
  else rest

end CatchUp

/-! ## What it does -/

theorem postingRows_transactionId {req : Request} :
    ∀ {k : ℕ} {ps : List TemplatePosting}, ∀ r ∈ postingRows req k ps, r.transactionId = req.txnId 0
  | _, [], r, hr => by simp [postingRows] at hr
  | k, p :: ps, r, hr => by
    simp only [postingRows, List.mem_cons] at hr
    rcases hr with rfl | hr
    · rfl
    · exact postingRows_transactionId r hr

theorem postingRows_length {req : Request} :
    ∀ {k : ℕ} {ps : List TemplatePosting}, (postingRows req k ps).length = ps.length
  | _, [] => rfl
  | k, p :: ps => by simp [postingRows, postingRows_length]

/-- What a posted occurrence wrote. -/
structure Posted (db db' : Db) (req : Request) (o : Occurrence) (t : Transaction)
    (ps : List Posting) : Prop where
  enough : 2 ≤ (templatePostingsOf db o.templateId).length
  header : t.header = { ledgerId := o.ledgerId, txnDate := o.dueDate, kind := .recurring }
  stored : List.Forall₂ PostingRow.Stored
    (postingRows req 0 (templatePostingsOf db o.templateId)) ps
  writes : ∃ b' templates, db' = { db with books := b', templates := templates } ∧
    Books.Posts db.books b' t ps ∧ (db.balanceTrigger = true → b'.Balanced t.id)

theorem runOccurrence_cases (db : Db) (req : Request) (o : Occurrence) :
    (runOccurrence db req o).2 = db ∨ ∃ t ps, Posted db (runOccurrence db req o).2 req o t ps := by
  unfold runOccurrence
  cases hactor : actorLedger db o with
  | error e => exact Or.inl rfl
  | ok ledger =>
    dsimp only
    split
    · exact Or.inl rfl
    · rcases commit_cases db (postOccurrence db req ledger o) with h | ⟨a, db', hbody, h⟩
      · exact Or.inl h
      · right
        rw [h]
        simp only [actorLedger, bind_eq_ok, ensure_eq_ok] at hactor
        obtain ⟨-, henough, -⟩ := hactor
        simp only [postOccurrence, bind_eq_ok, okOr_eq_ok, mapError_eq_ok] at hbody
        obtain ⟨db₁, hentry, template, -, next, -, hbody⟩ := hbody
        obtain ⟨-, b', ps, rfl, hposts, hstored, htrigger⟩ :=
          Db.insertEntry_spec (fun r hr => postingRows_transactionId r hr) hentry
        cases hbody
        exact ⟨_, ps, henough, rfl, hstored, b', _, rfl, hposts,
          fun hon => htrigger hon (by rw [postingRows_length]; exact henough)⟩

/-- A posted occurrence, with its mark in the journal and the next date of the template. -/
structure Advanced (db db' : Db) (o : Occurrence) (t : Transaction) (template : TransactionTemplate)
    (next : NaiveDate) : Prop where
  marked : t.templateId = some o.templateId ∧ t.txnDate = o.dueDate
  found : db.templates.find? (fun t => t.id = o.templateId) = some template
  advanced : advanceFrequency o.dueDate template.frequency = some next
  writes : ∃ b' ps, Books.Posts db.books b' t ps ∧
    db' = setNextDate { db with books := b' } o.templateId next

theorem runOccurrence_spec {db db' : Db} {req : Request} {o : Occurrence}
    {r : Except JobError Bool} (h : runOccurrence db req o = (r, db')) :
    r = .ok true ∧ ¬ AlreadyPosted db.books o ∧
        (∃ t template next, Advanced db db' o t template next) ∨
      r = .ok false ∧ AlreadyPosted db.books o ∧ db' = db ∨ (∃ e, r = .error e) ∧ db' = db := by
  unfold runOccurrence at h
  split at h
  · cases h
    exact Or.inr (Or.inr ⟨⟨_, rfl⟩, rfl⟩)
  · rename_i ledger hactor
    split at h
    · rename_i hposted
      cases h
      exact Or.inr (Or.inl ⟨rfl, hposted, rfl⟩)
    · rename_i hnew
      rcases commit_eq h with herror | ⟨posted, rfl, hbody⟩
      · exact Or.inr (Or.inr herror)
      · simp only [postOccurrence, bind_eq_ok, okOr_eq_ok, mapError_eq_ok] at hbody
        obtain ⟨db₁, hentry, template, hfind, next, hnext, hbody⟩ := hbody
        obtain ⟨-, b', ps, rfl, hposts, -, -⟩ :=
          Db.insertEntry_spec (fun r hr => postingRows_transactionId r hr) hentry
        cases hbody
        exact Or.inl ⟨rfl, hnew, txnRow req ledger o, template, next, ⟨rfl, rfl⟩, hfind, hnext,
          b', ps, hposts, rfl⟩

end TemplateRun

end OpenAccounting

/-!
## Running templates by hand

The routes `run` and `process_due` of `handlers/templates.rs`.  Both post the next occurrence of
a template through `run_template`, in the name of the user who asks for it.  Neither marks the
entry with the template, and the statement that moves the template's next date names the new
transaction instead.
-/

namespace OpenAccounting.Templates

open Calendar Commit

/-- `advance_frequency` of the handler, or `none` where it panics.  A month that lacks the day
leaves the date where it is. -/
def advanceFrequency (date : NaiveDate) (frequency : String) : Option NaiveDate :=
  let inMonths (months : ℕ) : NaiveDate :=
    let month := date.month + months
    (if 12 < month then NaiveDate.fromYmdOpt (date.year + 1) (month - 12) date.day
      else NaiveDate.fromYmdOpt date.year month date.day).getD date
  if frequency = "weekly" then date.addDays 7
  else if frequency = "biweekly" then date.addDays 14
  else if frequency = "monthly" then some (inMonths 1)
  else if frequency = "quarterly" then some (inMonths 3)
  else if frequency = "yearly" then
    some ((NaiveDate.fromYmdOpt (date.year + 1) date.month date.day).getD date)
  else some date

/-- The transaction row of `run_template`. -/
def txnRow (req : Request) (ledger : Ledger) (template : TransactionTemplate) (due : NaiveDate)
    (user : Uuid) : Transaction where
  id := req.txnId 0
  ledgerId := ledger.id
  txnDate := due
  description := template.description
  payee := template.payee
  reference := template.reference
  currency := ledger.baseCurrency
  kind := .recurring
  createdBy := user
  createdAt := req.now

/-- The database transaction of `run_template`. -/
def postTemplate (db : Db) (req : Request) (ledger : Uuid) (template : TransactionTemplate)
    (postings : List TemplatePosting) (due : NaiveDate) (user : Uuid) :
    Except AppError (Uuid × Db) := do
  let l ← okOr (db.findLedger ledger) (.db (.notNullViolation "currency"))
  let db ← mapError .db (db.insertEntry (txnRow req l template due user)
    (TemplateRun.postingRows req 0 postings))
  let next ← okOr (advanceFrequency due template.frequency) (.internal "overflow of a date")
  -- `UPDATE transaction_templates … WHERE id = $2` is bound to the id of the transaction.
  .ok (req.txnId 0, TemplateRun.setNextDate db (req.txnId 0) next)

def runTemplate (db : Db) (req : Request) (ledger : Uuid) (template : TransactionTemplate)
    (postings : List TemplatePosting) (due : NaiveDate) (user : Uuid) :
    Except AppError Uuid × Db :=
  commit db (postTemplate db req ledger template postings due user)

/-- What `run` reads: the user and the template.  The template is looked up by its id alone. -/
def readForRun (db : Db) (auth : Option Uuid) (ledger template : Uuid) :
    Except AppError (Uuid × TransactionTemplate) := do
  let user ← okOr auth .unauthorized
  let _ ← db.ensureWriter user ledger
  let t ← okOr (db.templates.find? fun t => t.id = template) .notFound
  ensure (t.isActive = true) (.validation "Template is inactive")
  .ok (user, t)

/-- What `process_due` reads: the user and the due templates with their ledgers. -/
def readForProcessDue (db : Db) (auth : Option Uuid) (today : NaiveDate) :
    Except AppError (Uuid × List (Uuid × TransactionTemplate)) := do
  let user ← okOr auth .unauthorized
  .ok (user, (TemplateRun.dueTemplates db today).map fun t => (t.ledgerId, t))

/-- A run by hand leaves no mark of the template, and moves the next date of a template only if
that has the id of the transaction. -/
theorem runTemplate_spec {db db' : Db} {req : Request} {ledger : Uuid}
    {template : TransactionTemplate} {postings : List TemplatePosting} {due : NaiveDate}
    {user : Uuid} {r : Except AppError Uuid}
    (h : runTemplate db req ledger template postings due user = (r, db')) :
    (∃ e, r = .error e) ∧ db' = db ∨
      ∃ t b' ps next, r = .ok t.id ∧ t.id = req.txnId 0 ∧ t.templateId = none ∧ t.txnDate = due ∧
        Books.Posts db.books b' t ps ∧
        db' = TemplateRun.setNextDate { db with books := b' } (req.txnId 0) next := by
  rcases commit_eq h with herror | ⟨txn, rfl, hbody⟩
  · exact Or.inl herror
  · simp only [postTemplate, bind_eq_ok, okOr_eq_ok, mapError_eq_ok] at hbody
    obtain ⟨l, hl, db₁, hentry, next, -, hbody⟩ := hbody
    obtain ⟨-, b', ps, rfl, hposts, -, -⟩ :=
      Db.insertEntry_spec (fun r hr => TemplateRun.postingRows_transactionId r hr) hentry
    cases hbody
    exact Or.inr ⟨txnRow req l template due user, b', ps, next, rfl, rfl, rfl, rfl, hposts, rfl⟩

end OpenAccounting.Templates
