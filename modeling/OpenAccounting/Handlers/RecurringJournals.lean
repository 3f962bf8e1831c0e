import OpenAccounting.Domain.PostingService
import OpenAccounting.Handlers.Access
import OpenAccounting.Lib.Relational

/-!
# Recurring journals

`handlers/recurring_journals.rs`.  A template has the period that comes next, and a run for every
period that was previewed, posted or skipped.  `preview_for_period` writes the draft of a period
with its run, `skip` writes a run without a draft, and `run_due` catches up on the due periods of
every template of a ledger.
-/

namespace OpenAccounting.RecurringJournals

open Calendar Commit Relational

/-- How a route fails. -/
inductive RouteError where
  | app (e : AppError)
  /-- Date arithmetic that leaves the range of dates panics. -/
  | panicked
deriving DecidableEq

/-! ## Periods -/

/-- `last_day_of_month`, or `none` where it panics. -/
def lastDayOfMonth (year : ℤ) (month : ℕ) : Option ℕ :=
  let (y, m) := if month = 12 then (year + 1, 1) else (year, month + 1)
  (NaiveDate.fromYmdOpt y m 1).map fun d => (d.predOpt.map NaiveDate.day).getD 28

def addMonths (d : NaiveDate) (n : ℕ) : Option NaiveDate := do
  let total := d.month - 1 + n
  let year := d.year + (total / 12 : ℕ)
  let month := total % 12 + 1
  let last ← lastDayOfMonth year month
  some ((NaiveDate.fromYmdOpt year month (min d.day last)).getD d)

def advancePeriod (d : NaiveDate) (frequency : String) : Option NaiveDate :=
  if frequency = "weekly" then d.addDays 7
  else if frequency = "quarterly" then addMonths d 3
  else if frequency = "yearly" then addMonths d 12
  else addMonths d 1

def periodKey (d : NaiveDate) : String := d.display

/-! ## Rows -/

/-- `SELECT … FROM recurring_journal_templates WHERE id = $1 AND ledger_id = $2`. -/
def findTemplateIn (db : Db) (template ledger : Uuid) : Option RecurringJournalTemplate :=
  db.recurringJournalTemplates.find? fun t => t.id = template ∧ t.ledgerId = ledger

/-- `SELECT … FROM recurring_journal_runs WHERE template_id = $1 AND period_key = $2`. -/
def findRun (db : Db) (template : Uuid) (key : String) : Option RecurringJournalRun :=
  db.recurringJournalRuns.find? fun r => r.templateId = template ∧ r.periodKey = key

/-- `SELECT … FROM recurring_journal_lines WHERE template_id = $1 ORDER BY amount DESC`. -/
def linesOf (db : Db) (template : Uuid) : List RecurringJournalLine :=
  orderByDesc RecurringJournalLine.amount
    (db.recurringJournalLines.filter fun l => l.templateId = template)

/-- `SELECT COUNT(*) … WHERE template_id = $1 AND status != 'skipped'`. -/
def nonSkipped (db : Db) (template : Uuid) : ℕ :=
  (db.recurringJournalRuns.filter fun r => r.templateId = template ∧ r.status ≠ .skipped).length

def insertRun (db : Db) (r : RecurringJournalRun) : Except SqlError Db := do
  ensure (∃ t ∈ db.recurringJournalTemplates, t.id = r.templateId)
    (.foreignKeyViolation "template_id")
  ensure (r.draftTxnId.all fun draft => ∃ t ∈ db.books.transactions, t.id = draft)
    (.foreignKeyViolation "draft_txn_id")
  ensure (findRun db r.templateId r.periodKey = none) (.uniqueViolation "recurring_journal_runs")
  .ok { db with recurringJournalRuns := db.recurringJournalRuns ++ [r] }

/-- `UPDATE recurring_journal_templates SET next_period = $1 WHERE id = $2`. -/
def setNextPeriod (db : Db) (template : Uuid) (next : NaiveDate) : Db :=
  { db with
    recurringJournalTemplates := updateWhere (fun t => t.id = template)
      (fun t => { t with nextPeriod := next }) db.recurringJournalTemplates }

/-! ## Preview -/

/-- A template line, as the posting service takes it. -/
def lineInput (l : RecurringJournalLine) : TxnLineInput where
  accountId := l.accountId
  signedAmount := if l.direction = .debit then l.amount else -l.amount
  memo := l.memo
  costCenterId := l.costCenterId
  projectId := l.projectId

def draftOf (db : Db) (ledger template actor : Uuid) (period : NaiveDate) (description : String) :
    NewTransaction where
  ledgerId := ledger
  txnDate := period
  description := description ++ " (" ++ periodKey period ++ ")"
  reference := some ("recurring:" ++ Uuid.hyphenated template ++ ":" ++ periodKey period)
  createdBy := actor
  lines := (linesOf db template).map lineInput

/-- The error for a draft that was refused.  The first text goes on with the totals, and the last
one with the error's own text. -/
def draftError : PostingServiceError → AppError
  | .unbalanced _ _ => .validation "template does not balance ("
  | .unknownCostCenter id => .validation ("unknown cost center " ++ Uuid.hyphenated id)
  | .unknownProject id => .validation ("unknown project " ++ Uuid.hyphenated id)
  | .db e => .db e
  | _ => .validation ""

/-- `preview_for_period`: the run of the period, and whether it was created. -/
def previewForPeriod (db : Db) (req : Request) (ledger template actor : Uuid) (period : NaiveDate)
    (description : String) : Except AppError (Uuid × Bool) × Db :=
  match findRun db template (periodKey period) with
  | some run => (.ok (run.id, false), db)
  | none =>
    match PostingService.createDraft db req
      (draftOf db ledger template actor period description) with
    | (.error e, db) => (.error (draftError e), db)
    | (.ok created, db) =>
      match findRun db template (periodKey period) with
      -- A concurrent fire has won: the draft is deleted, and its error ignored.
      | some winner =>
        (.ok (winner.id, false), (PostingService.deleteDraft db ledger created.id).2)
      | none =>
        match insertRun db
          { id := req.rowId 0, templateId := template, periodKey := periodKey period,
            draftTxnId := some created.id, status := .preview } with
        | .error e => (.error (.db e), db)
        | .ok db => (.ok (req.rowId 0, true), db)

/-- The session's user, if it may write to the ledger. -/
def authorize (db : Db) (auth : Option Uuid) (ledger : Uuid) : Except AppError Uuid := do
  let user ← okOr auth .unauthorized
  let _ ← db.ensureWriter user ledger
  .ok user

section

-- `NaiveDate::parse_from_str(text, "%Y-%m-%d")`.
variable (parseDate : String → Option NaiveDate)

/-- What `preview` reads first: the user, the template and the period. -/
def readPreview (db : Db) (auth : Option Uuid) (ledger template : Uuid) (period : Option String) :
    Except AppError (Uuid × RecurringJournalTemplate × NaiveDate) := do
  let user ← authorize db auth ledger
  let t ← okOr (findTemplateIn db template ledger) .notFound
  let date ← match RustStr.nonEmptyTrimmed period with
    | none => .ok t.nextPeriod
    | some s => okOr (parseDate s) (.validation "invalid period")
  .ok (user, t, date)

def preview (db : Db) (req : Request) (auth : Option Uuid) (ledger template : Uuid)
    (period : Option String) : Except AppError Unit × Db :=
  match readPreview parseDate db auth ledger template period with
  | .error e => (.error e, db)
  | .ok (user, t, date) =>
    andThen (previewForPeriod db req ledger template user date t.name) fun _ db => (.ok (), db)

/-! ## Skip -/

/-- What `skip` checks first. -/
def checkSkip (db : Db) (auth : Option Uuid) (ledger template : Uuid) (key : String) :
    Except AppError Unit := do
  let _ ← authorize db auth ledger
  ensure (key ≠ "") (.validation "period is required")
  ensure (findTemplateIn db template ledger).isSome .notFound

/-- The error for a run that was refused. -/
def skipError (key : String) : SqlError → AppError
  | .uniqueViolation _ => .conflict ("period " ++ key ++ " already has a run")
  | e => .db e

/-- Skipping the period that comes next moves the template on to the one after it. -/
def moveOn (db : Db) (template : Uuid) (key : String) : Except RouteError Unit × Db :=
  match parseDate key, db.recurringJournalTemplates.find? fun t => t.id = template with
  | some date, some t =>
    if t.nextPeriod = date then
      match advancePeriod date t.frequency with
      | some next => (.ok (), setNextPeriod db template next)
      | none => (.error .panicked, db)
    else (.ok (), db)
  | _, _ => (.ok (), db)

def skip (db : Db) (req : Request) (auth : Option Uuid) (ledger template : Uuid)
    (period : String) : Except RouteError Unit × Db :=
  let key := RustStr.trim period
  match checkSkip db auth ledger template key with
  | .error e => (.error (.app e), db)
  | .ok () =>
    match insertRun db
      { id := req.rowId 0, templateId := template, periodKey := key, status := .skipped } with
    | .error e => (.error (.app (skipError key e)), db)
    | .ok db => moveOn parseDate db template key

end

/-! ## Run due -/

/-- A call of `run_due`: its day, and what it meets when it previews a period. -/
structure Fire where
  today : NaiveDate
  draw : Uuid → NaiveDate → Request

def dueTemplates (db : Db) (ledger : Uuid) (today : NaiveDate) : List RecurringJournalTemplate :=
  db.recurringJournalTemplates.filter fun t =>
    t.ledgerId = ledger ∧ t.isPaused = false ∧ t.nextPeriod ≤ today

/-- As many runs as the template may have. -/
def CapReached (db : Db) (t : RecurringJournalTemplate) : Prop :=
  ∃ cap ∈ t.maxOccurrences, cap ≤ (nonSkipped db t.id : ℤ)

instance (db : Db) (t : RecurringJournalTemplate) : Decidable (CapReached db t) :=
  decidable_of_iff (t.maxOccurrences.any fun cap => cap ≤ (nonSkipped db t.id : ℤ)) (by
    simp [CapReached, Option.any_eq_true])

/-- The period is in the future, or after the end of the template. -/
def Beyond (today : NaiveDate) (t : RecurringJournalTemplate) (period : NaiveDate) : Prop :=
  today < period ∨ ∃ e ∈ t.endDate, e < period

instance (today : NaiveDate) (t : RecurringJournalTemplate) (period : NaiveDate) :
    Decidable (Beyond today t period) :=
  decidable_of_iff (today < period ∨ t.endDate.any fun e => e < period) (by
    simp [Beyond, Option.any_eq_true])

/-- A turn of the catch-up: whether the period was created. -/
def handlePeriod (fire : Fire) (ledger actor : Uuid) (t : RecurringJournalTemplate) (db : Db)
    (period : NaiveDate) : Except AppError Bool × Db :=
  match findRun db t.id (periodKey period) with
  | some _ => (.ok false, db)
  | none =>
    andThen (previewForPeriod db (fire.draw t.id period) ledger t.id actor period t.name)
      fun run db => (.ok run.2, db)

/-- The catch-up of a template, with the turns that are left. -/
def catchUp (fire : Fire) (ledger actor : Uuid) (t : RecurringJournalTemplate) :
    ℕ → NaiveDate → ℕ → Db → Except RouteError (NaiveDate × ℕ) × Db
  | 0, period, generated, db => (.ok (period, generated), db)
  | turns + 1, period, generated, db =>
    if Beyond fire.today t period then (.ok (period, generated), db)
    else
      match handlePeriod fire ledger actor t db period with
      | (.error e, db) => (.error (.app e), db)
      | (.ok created, db) =>
        match advancePeriod period t.frequency with
        | some next =>
          catchUp fire ledger actor t turns next
            (if created then generated + 1 else generated) db
        | none => (.error .panicked, db)

/-- The loop over the due templates, with the number of runs created so far. -/
def runAll (fire : Fire) (ledger actor : Uuid) :
    List RecurringJournalTemplate → ℕ → Db → Except RouteError ℕ × Db
  | [], generated, db => (.ok generated, db)
  | t :: ts, generated, db =>
    -- The cap is read here, and not again before the next template.
    if CapReached db t then runAll fire ledger actor ts generated db
    else
      match catchUp fire ledger actor t 12 t.nextPeriod generated db with
      | (.error e, db) => (.error e, db)
      | (.ok (period, generated), db) =>
        runAll fire ledger actor ts generated (setNextPeriod db t.id period)

def runDue (db : Db) (fire : Fire) (auth : Option Uuid) (ledger : Uuid) :
    Except RouteError ℕ × Db :=
  match authorize db auth ledger with
  | .error e => (.error (.app e), db)
  | .ok user => runAll fire ledger user (dueTemplates db ledger fire.today) 0 db

/-! ## What the calls insert -/

def HasRun (db : Db) (template : Uuid) (key : String) : Prop :=
  ∃ r ∈ db.recurringJournalRuns, r.templateId = template ∧ r.periodKey = key

instance (db : Db) (template : Uuid) (key : String) : Decidable (HasRun db template key) := by
  unfold HasRun
  infer_instance

/-- What no call changes of a template. -/
def limits (t : RecurringJournalTemplate) : Uuid × Option NaiveDate × Option ℤ :=
  (t.id, t.endDate, t.maxOccurrences)

/-- `UNIQUE (template_id, period_key)`. -/
def runKey (r : RecurringJournalRun) : Uuid × String := (r.templateId, r.periodKey)

/-- The runs are new, and nothing else has changed but drafts and the periods that come next. -/
structure Inserted (db db' : Db) (rows : List RecurringJournalRun) : Prop where
  runs : db'.recurringJournalRuns = db.recurringJournalRuns ++ rows
  limits : db'.recurringJournalTemplates.map limits = db.recurringJournalTemplates.map limits
  fresh : ∀ r ∈ rows, ¬ HasRun db r.templateId r.periodKey
  distinct : (rows.map runKey).Nodup

section

variable {db db₁ db' : Db} {rows later : List RecurringJournalRun} {template : Uuid} {key : String}

theorem findRun_eq_none : findRun db template key = none ↔ ¬ HasRun db template key := by
  simp [findRun, HasRun]

theorem hasRun_of_findRun {r : RecurringJournalRun} (h : findRun db template key = some r) :
    HasRun db template key :=
  ⟨r, List.mem_of_find?_eq_some h, by simpa using List.find?_some h⟩

theorem Inserted.refl : Inserted db db [] where
  runs := (List.append_nil _).symm
  limits := rfl
  fresh := List.forall_mem_nil _
  distinct := List.nodup_nil

theorem Inserted.hasRun_iff (h : Inserted db db' rows) : HasRun db' template key ↔
    HasRun db template key ∨ (template, key) ∈ rows.map runKey := by
  rw [HasRun, h.runs]
  simp only [List.mem_append, or_and_right, exists_or, HasRun, List.mem_map, runKey,
    Prod.mk.injEq]

theorem Inserted.trans (h : Inserted db db₁ rows) (hlater : Inserted db₁ db' later) :
    Inserted db db' (rows ++ later) where
  runs := by rw [hlater.runs, h.runs, List.append_assoc]
  limits := hlater.limits.trans h.limits
  fresh := List.forall_mem_append.mpr
    ⟨h.fresh, fun r hr hold => hlater.fresh r hr (h.hasRun_iff.mpr (Or.inl hold))⟩
  distinct := by
    rw [List.map_append, List.nodup_append]
    refine ⟨h.distinct, hlater.distinct, ?_⟩
    rintro key hkey _ hlaterKey rfl
    -- A later run does not have the key of an earlier one.
    obtain ⟨r, hr, rfl⟩ := List.mem_map.mp hlaterKey
    exact hlater.fresh r hr (h.hasRun_iff.mpr (Or.inr hkey))

theorem inserted_of_runs (hruns : db'.recurringJournalRuns = db.recurringJournalRuns)
    (hlimits : db'.recurringJournalTemplates.map RecurringJournals.limits =
      db.recurringJournalTemplates.map RecurringJournals.limits) : Inserted db db' [] where
  runs := by rw [hruns, List.append_nil]
  limits := hlimits
  fresh := List.forall_mem_nil _
  distinct := List.nodup_nil

theorem insertRun_spec {r : RecurringJournalRun} (h : insertRun db r = .ok db') :
    Inserted db db' [r] := by
  simp only [insertRun, bind_eq_ok, ensure_eq_ok, findRun_eq_none] at h
  obtain ⟨_, -, _, -, _, hfresh, h⟩ := h
  cases h
  exact ⟨rfl, rfl, List.forall_mem_singleton.mpr hfresh, List.nodup_singleton _⟩

theorem inserted_setNextPeriod (next : NaiveDate) :
    Inserted db (setNextPeriod db template next) [] := by
  refine inserted_of_runs rfl ?_
  rw [setNextPeriod, updateWhere, List.map_map]
  refine List.map_congr_left fun t _ => ?_
  rw [Function.comp_apply]
  split <;> rfl

/-- At most one run is created, for the period, and the answer says that there is one. -/
structure Previewed (db db' : Db) (template : Uuid) (period : NaiveDate) (answered : Prop)
    (rows : List RecurringJournalRun) : Prop where
  inserted : Inserted db db' rows
  preview : ∀ r ∈ rows,
    r.templateId = template ∧ r.periodKey = periodKey period ∧ r.status = .preview
  done : answered → HasRun db' template (periodKey period)

theorem previewed_of_hasRun {period : NaiveDate} {answered : Prop}
    (h : answered → HasRun db template (periodKey period)) :
    Previewed db db template period answered [] where
  inserted := Inserted.refl
  preview := List.forall_mem_nil _
  done := h

theorem previewForPeriod_spec (db : Db) (req : Request) (ledger template actor : Uuid)
    (period : NaiveDate) (description : String) :
    ∃ rows, Previewed db
      (previewForPeriod db req ledger template actor period description).2 template period
      ((previewForPeriod db req ledger template actor period description).1.isOk = true) rows := by
  unfold previewForPeriod
  cases hrun : findRun db template (periodKey period) with
  | some run => exact ⟨[], previewed_of_hasRun fun _ => hasRun_of_findRun hrun⟩
  | none =>
    obtain ⟨books, trigger, taxes, approvals, hframe⟩ := PostingService.createWithKind_frame db
      req { draftOf db ledger template actor period description with kind := some "draft" } true
    cases hdraft : PostingService.createDraft db req
      (draftOf db ledger template actor period description) with
    | mk answer db₁ =>
      rw [PostingService.createDraft] at hdraft
      rw [hdraft] at hframe
      have hdrafted : Inserted db db₁ [] := by
        rw [show db₁ = _ from hframe]
        exact inserted_of_runs rfl rfl
      -- Nothing that the draft writes is a run, so no one has won a race.
      have hstill : findRun db₁ template (periodKey period) = none := by
        rw [findRun_eq_none, hdrafted.hasRun_iff]
        rintro (h | h)
        · exact findRun_eq_none.mp hrun h
        · cases h
      cases answer with
      | error e =>
        exact ⟨[], hdrafted, List.forall_mem_nil _, fun h => by cases h⟩
      | ok created =>
        dsimp only
        rw [hstill]
        dsimp only
        cases hinsert : insertRun db₁
          { id := req.rowId 0, templateId := template, periodKey := periodKey period,
            draftTxnId := some created.id, status := .preview } with
        | error e => exact ⟨[], hdrafted, List.forall_mem_nil _, fun h => by cases h⟩
        | ok db₂ =>
          have hrow := insertRun_spec hinsert
          exact ⟨_, hdrafted.trans hrow, List.forall_mem_singleton.mpr ⟨rfl, rfl, rfl⟩,
            fun _ => hrow.hasRun_iff.mpr (Or.inr (List.mem_singleton_self _))⟩

theorem handlePeriod_spec (fire : Fire) (ledger actor : Uuid) (t : RecurringJournalTemplate)
    (db : Db) (period : NaiveDate) :
    ∃ rows, Previewed db (handlePeriod fire ledger actor t db period).2 t.id period
      ((handlePeriod fire ledger actor t db period).1.isOk = true) rows := by
  unfold handlePeriod
  cases hrun : findRun db t.id (periodKey period) with
  | some run => exact ⟨[], previewed_of_hasRun fun _ => hasRun_of_findRun hrun⟩
  | none =>
    obtain ⟨rows, hrows⟩ := previewForPeriod_spec db (fire.draw t.id period) ledger t.id actor
      period t.name
    refine ⟨rows, ?_⟩
    revert hrows
    cases previewForPeriod db (fire.draw t.id period) ledger t.id actor period t.name with
    | mk answer db₁ => cases answer <;> exact id

theorem preview_spec (parseDate : String → Option NaiveDate) (db : Db) (req : Request)
    (auth : Option Uuid) (ledger template : Uuid) (period : Option String) :
    ∃ rows, Inserted db (preview parseDate db req auth ledger template period).2 rows := by
  unfold preview
  cases readPreview parseDate db auth ledger template period with
  | error e => exact ⟨[], Inserted.refl⟩
  | ok read =>
    obtain ⟨user, t, date⟩ := read
    obtain ⟨rows, hrows⟩ := previewForPeriod_spec db req ledger template user date t.name
    refine ⟨rows, ?_⟩
    have hinserted := hrows.inserted
    dsimp only
    revert hinserted
    cases previewForPeriod db req ledger template user date t.name with
    | mk answer db₁ => cases answer <;> exact id

theorem moveOn_spec (parseDate : String → Option NaiveDate) (db : Db) (template : Uuid)
    (key : String) : Inserted db (moveOn parseDate db template key).2 [] := by
  unfold moveOn
  split
  · split
    · split
      · exact inserted_setNextPeriod _
      · exact Inserted.refl
    · exact Inserted.refl
  · exact Inserted.refl

theorem skip_spec (parseDate : String → Option NaiveDate) (db : Db) (req : Request)
    (auth : Option Uuid) (ledger template : Uuid) (period : String) :
    ∃ rows, Inserted db (skip parseDate db req auth ledger template period).2 rows := by
  unfold skip
  dsimp only
  cases checkSkip db auth ledger template (RustStr.trim period) with
  | error e => exact ⟨[], Inserted.refl⟩
  | ok _ =>
    dsimp only
    cases hinsert : insertRun db
      { id := req.rowId 0, templateId := template, periodKey := RustStr.trim period,
        status := .skipped } with
    | error e => exact ⟨[], Inserted.refl⟩
    | ok db₁ => exact ⟨_, (insertRun_spec hinsert).trans (moveOn_spec parseDate db₁ template _)⟩

end

end OpenAccounting.RecurringJournals
