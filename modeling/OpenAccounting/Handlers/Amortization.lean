import OpenAccounting.Domain.PostingService
import OpenAccounting.Handlers.Access
import OpenAccounting.Lib.Decimal
import OpenAccounting.Lib.Relational

/-!
# Amortization

The worker that posts what is due, and the route that creates a schedule.
-/

/-!
## The amortization worker

`workers/amortization.rs`.  A sweep reads the due schedules and posts the next period of each.
`post_one` does so in three steps, each with a database transaction of its own: it reads the
period unless that is recorded as posted, creates the entry through the posting service, and
records the period and moves the schedule on.

The amounts are computed by the decimal library, which is a parameter.
-/

namespace OpenAccounting.Amortization

open Calendar Commit Rounding

/-! ## Dates -/

/-- The same day so many months later, if that month has it.  The loops of `advance` that bring the
month into range are one division, and the casts to 32 bits lose nothing. -/
def sameDay (date : NaiveDate) (months : ℤ) : Option NaiveDate :=
  let m : ℤ := date.month + months
  NaiveDate.fromYmdOpt (date.year + (m - 1) / 12) ((m - 1) % 12 + 1).toNat date.day

/-- The same day so many months later, or the same date. -/
def inMonths (date : NaiveDate) (months : ℤ) : NaiveDate := (sameDay date months).getD date

/-- `advance`, which the worker and the handler have in a copy each. -/
def advance (date : NaiveDate) (unit : String) (n : ℤ) : NaiveDate :=
  if unit = "monthly" then inMonths date n
  else if unit = "quarterly" then inMonths date (3 * n)
  else if unit = "yearly" then
    (NaiveDate.fromYmdOpt (wrapI32 (date.year + n)) date.month date.day).getD date
  else date

/-- `compute_period_unit`: whatever the schedule says. -/
def computePeriodUnit (_description : String) : String := "monthly"

/-! ## Posting one period -/

/-- What a sweep has read of a period that it is about to post. -/
structure Period where
  schedule : AmortizationSchedule
  number : ℤ
  amount : ℚ
  txnDate : NaiveDate
  description : String
deriving DecidableEq

/-- How a step fails.  `map_posting_err` wraps the error of the posting service. -/
inductive StepError where
  | db (e : SqlError)
  | posting (e : PostingServiceError)
deriving DecidableEq

/-- The amount of a period: equal parts, and the remainder in the last one. -/
def periodAmount (d : Decimal.Arith) (total : ℚ) (periods number : ℤ) : ℚ :=
  let base := d.div total periods
  let remainder := d.sub total (d.mul base periods)
  if number = periods then d.add base remainder else base

/-- The first transaction: nothing to do for a recorded period. -/
def readPeriod (d : Decimal.Arith) (db : Db) (s : AmortizationSchedule) :
    Except StepError (Option Period) :=
  let number := s.postedPeriods + 1
  if ⟨s.id, number⟩ ∈ db.amortizationPostedPeriods then .ok none
  else do
    let row ← okOr (db.amortizationSchedules.find? fun r => r.id = s.id) (.db .rowNotFound)
    .ok (some
      { schedule := s
        number := number
        amount := periodAmount d s.totalAmount s.periods number
        txnDate := row.nextPostDate
        description := row.description })

/-- The entry of a period. -/
def newTransaction (actor : Uuid) (p : Period) : NewTransaction :=
  let mark := toString p.number ++ "/" ++ toString p.schedule.periods
  let line (account : Uuid) (amount : ℚ) : TxnLineInput :=
    { accountId := account, signedAmount := amount, memo := some ("amortize period " ++ mark) }
  { ledgerId := p.schedule.ledgerId
    txnDate := p.txnDate
    description := p.description ++ " (" ++ mark ++ ")"
    kind := some "amortization"
    createdBy := actor
    lines := [line p.schedule.sourceAccountId p.amount, line p.schedule.targetAccountId (-p.amount)] }

/-- The second transaction. -/
def createPeriod (db : Db) (req : Request) (actor : Uuid) (p : Period) :
    Except PostingServiceError CreatedTransaction × Db :=
  PostingService.create db req (newTransaction actor p)

/-- `UPDATE amortization_schedules SET posted_periods = …, next_post_date = … WHERE id = …`. -/
def moveOn (p : Period) (s : AmortizationSchedule) : AmortizationSchedule :=
  if s.id = p.schedule.id then
    { s with
      postedPeriods := p.number
      nextPostDate := advance p.txnDate (computePeriodUnit p.description) 1 }
  else s

/-- The third transaction.  `ON CONFLICT DO NOTHING` accepts a period that is recorded. -/
def recordPeriod (db : Db) (p : Period) : Except StepError Db := do
  ensure (0 < p.number) (.db (.checkViolation "amortization_posted_periods_period_number_check"))
  ensure (∃ s ∈ db.amortizationSchedules, s.id = p.schedule.id)
    (.db (.foreignKeyViolation "schedule_id"))
  .ok { db with
    amortizationPostedPeriods :=
      if ⟨p.schedule.id, p.number⟩ ∈ db.amortizationPostedPeriods then db.amortizationPostedPeriods
      else db.amortizationPostedPeriods ++ [⟨p.schedule.id, p.number⟩]
    amortizationSchedules := db.amortizationSchedules.map (moveOn p) }

/-! ## The sweep -/

/-- An entry that was created for a period. -/
structure Entry where
  schedule : Uuid
  number : ℤ
  txn : Uuid
deriving DecidableEq

/-- The database, and the entries that sweeps have created so far. -/
structure Shared where
  db : Db
  posted : List Entry := []

/-- The entry of the period is in the journal. -/
def Shared.enter (sh : Shared) (db : Db) (p : Period) (txn : Uuid) : Shared where
  db := db
  posted := sh.posted ++ [⟨p.schedule.id, p.number, txn⟩]

def postOne (d : Decimal.Arith) (sh : Shared) (req : Request) (actor : Uuid)
    (s : AmortizationSchedule) : Except StepError Unit × Shared :=
  match readPeriod d sh.db s with
  | .error e => (.error e, sh)
  | .ok none => (.ok (), sh)
  | .ok (some p) =>
    match createPeriod sh.db req actor p with
    | (.error e, db) => (.error (.posting e), { sh with db := db })
    | (.ok created, db) =>
      match recordPeriod db p with
      | .error e => (.error e, sh.enter db p created.id)
      | .ok db' => (.ok (), sh.enter db' p created.id)

/-- The schedules a sweep reads. -/
def dueSchedules (db : Db) (today : NaiveDate) : List AmortizationSchedule :=
  (Relational.orderBy AmortizationSchedule.nextPostDate
    (db.amortizationSchedules.filter fun s => s.isActive && s.nextPostDate ≤ today &&
      s.postedPeriods + s.skippedPeriods < s.periods)).take 1000

/-- A call of `run_sweep`, with what it meets when it posts a period of a schedule. -/
structure Sweep where
  today : NaiveDate
  actor : Uuid
  draw : Uuid → Request

/-- The loop of a sweep, with the number of schedules that met no error.  An error of one schedule
is logged, and the next one follows. -/
def postAll (d : Decimal.Arith) (sweep : Sweep) :
    Shared → List AmortizationSchedule → ℕ × Shared
  | sh, [] => (0, sh)
  | sh, s :: rest =>
    let (answer, sh) := postOne d sh (sweep.draw s.id) sweep.actor s
    let (posted, sh) := postAll d sweep sh rest
    (if answer.isOk then posted + 1 else posted, sh)

def runSweep (d : Decimal.Arith) (sh : Shared) (sweep : Sweep) : ℕ × Shared :=
  postAll d sweep sh (dueSchedules sh.db sweep.today)

/-! ## What the steps do -/

/-- The new entry in the journal, with its date and the amount of its debit. -/
structure Entered (db db' : Db) (p : Period) (t : Transaction) : Prop where
  txnDate : t.txnDate = p.txnDate
  writes : ∃ b' ps, Books.Posts db.books b' t ps ∧
    Posting.sumOn .debit ps = roundDp 4 |p.amount| ∧
    db' = { db with books := b', balanceTrigger := false }

theorem storedDebitTotal_pair (a : ℚ) :
    PostingService.storedDebitTotal [a, -a] = roundDp 4 |a| := by
  have hzero : roundDp 4 0 = 0 := roundDp_of_hasScale (hasScale_zero 4)
  rcases lt_trichotomy a 0 with ha | rfl | ha
  · simp [PostingService.storedDebitTotal, not_le.mpr ha, ha.le, abs_of_neg ha]
  · simp [PostingService.storedDebitTotal, hzero]
  · simp [PostingService.storedDebitTotal, ha.le, not_le.mpr ha, abs_of_pos ha]

theorem createPeriod_spec {db db' : Db} {req : Request} {actor : Uuid} {p : Period}
    {r : Except PostingServiceError CreatedTransaction}
    (h : createPeriod db req actor p = (r, db')) :
    (∃ e, r = .error e) ∧ db' = db ∨
      ∃ created t, r = .ok created ∧ created.id = t.id ∧ Entered db db' p t := by
  unfold createPeriod PostingService.create PostingService.createWithKind at h
  split at h
  · cases h
    exact Or.inl ⟨⟨_, rfl⟩, rfl⟩
  · rename_i effective hvalid
    obtain ⟨-, hamounts, -⟩ := PostingService.validate_spec hvalid
    have heffective : effective = [p.amount, -p.amount] := by
      simpa [PostingService.resolveAmounts, newTransaction, eq_comm] using hamounts
    subst heffective
    cases hwrite : PostingService.writeTransaction db req (newTransaction actor p) false
        [p.amount, -p.amount] with
    | error e =>
      rw [hwrite] at h
      cases h
      exact Or.inl ⟨⟨_, rfl⟩, rfl⟩
    | ok written =>
      obtain ⟨⟨created, isPending⟩, db₁⟩ := written
      rw [hwrite] at h
      simp only [PostingService.writeTransaction, bind_eq_ok, okOr_eq_ok, ensure_eq_ok,
        mapError_eq_ok] at hwrite
      obtain ⟨ledger, -, -, -, -, -, -, -, number, -, kind, -, db₂, hentry, db₃, hlinks,
        hwrite⟩ := hwrite
      obtain ⟨-, b', ps, rfl, hposts, hstored, -⟩ :=
        Db.insertEntry_spec (fun r hr => PostingService.lineRows_transactionId r hr) hentry
      cases hlinks
      cases hwrite
      -- An amortization entry does not wait for approval.
      simp only [commit, PostingService.makerChecker, newTransaction, Option.getD_some] at h
      cases h
      refine Or.inr ⟨_, _, rfl, rfl, rfl, b', ps, hposts, ?_, rfl⟩
      rw [PostingRow.Stored.sumOn_eq hstored, PostingService.lineRows_debits req 0 rfl]
      exact storedDebitTotal_pair p.amount

theorem readPeriod_eq_some {d : Decimal.Arith} {db : Db} {s : AmortizationSchedule} {p : Period}
    (h : readPeriod d db s = .ok (some p)) :
    ⟨s.id, s.postedPeriods + 1⟩ ∉ db.amortizationPostedPeriods ∧
      ∃ row, db.amortizationSchedules.find? (fun r => r.id = s.id) = some row ∧
        p = { schedule := s, number := s.postedPeriods + 1,
              amount := periodAmount d s.totalAmount s.periods (s.postedPeriods + 1),
              txnDate := row.nextPostDate, description := row.description } := by
  unfold readPeriod at h
  dsimp only at h
  split at h
  · cases h
  · rename_i hnew
    simp only [bind_eq_ok, okOr_eq_ok] at h
    obtain ⟨row, hrow, h⟩ := h
    cases h
    exact ⟨hnew, row, hrow, rfl⟩

theorem recordPeriod_eq_ok {db db' : Db} {p : Period} (h : recordPeriod db p = .ok db') :
    (∀ q, q ∈ db'.amortizationPostedPeriods ↔
      q ∈ db.amortizationPostedPeriods ∨ q = ⟨p.schedule.id, p.number⟩) ∧
    ∃ rows, db' = { db with
      amortizationPostedPeriods := rows
      amortizationSchedules := db.amortizationSchedules.map (moveOn p) } := by
  simp only [recordPeriod, bind_eq_ok, ensure_eq_ok, Except.ok.injEq] at h
  obtain ⟨-, -, -, -, rfl⟩ := h
  refine ⟨fun q => ?_, _, rfl⟩
  dsimp only
  split
  · rename_i hmem
    exact ⟨Or.inl, fun hq => hq.elim id fun heq => heq ▸ hmem⟩
  · simp

theorem exists_recordPeriod {db : Db} {p : Period} (hnumber : 0 < p.number)
    (hrow : ∃ s ∈ db.amortizationSchedules, s.id = p.schedule.id) :
    ∃ db', recordPeriod db p = .ok db' := by
  rw [recordPeriod, ensure, if_pos hnumber, ensure, if_pos hrow]
  exact ⟨_, rfl⟩

theorem postOne_cases (d : Decimal.Arith) (sh : Shared) (req : Request) (actor : Uuid)
    (s : AmortizationSchedule) :
    (postOne d sh req actor s).2 = sh ∨
      ∃ p t db₁, readPeriod d sh.db s = .ok (some p) ∧ Entered sh.db db₁ p t ∧
        ((∃ db₂, recordPeriod db₁ p = .ok db₂ ∧
            (postOne d sh req actor s).2 = sh.enter db₂ p t.id) ∨
          (∃ e, recordPeriod db₁ p = .error e) ∧
            (postOne d sh req actor s).2 = sh.enter db₁ p t.id) := by
  unfold postOne
  cases hread : readPeriod d sh.db s with
  | error e => exact Or.inl rfl
  | ok read =>
    cases read with
    | none => exact Or.inl rfl
    | some p =>
      obtain ⟨r, db₁, hcreate⟩ : ∃ r db₁, createPeriod sh.db req actor p = (r, db₁) :=
        ⟨_, _, rfl⟩
      dsimp only
      rw [hcreate]
      rcases createPeriod_spec hcreate with
        ⟨⟨e, rfl⟩, rfl⟩ | ⟨created, t, rfl, hid, hentered⟩
      · exact Or.inl rfl
      · refine Or.inr ⟨p, t, db₁, rfl, hentered, ?_⟩
        dsimp only
        rw [hid]
        cases hrecord : recordPeriod db₁ p with
        | error e => exact Or.inr ⟨⟨e, rfl⟩, rfl⟩
        | ok db₂ => exact Or.inl ⟨db₂, rfl, rfl⟩

end OpenAccounting.Amortization

/-!
## Amortization schedules

`create` of `handlers/amortization.rs`.  The end date is computed once, by one jump over all the
periods.
-/

namespace OpenAccounting

open Calendar Commit Rounding

/-- `INSERT INTO amortization_schedules`. -/
def Db.insertSchedule (db : Db) (s : AmortizationSchedule) : Except SqlError Db := do
  let total ← okOr (amountColumn s.totalAmount) .numericFieldOverflow
  ensure (0 ≤ total) (.checkViolation "amortization_schedules_total_amount_check")
  ensure (0 < s.periods) (.checkViolation "amortization_schedules_periods_check")
  ensure (db.HasLedger s.ledgerId) (.foreignKeyViolation "ledger_id")
  ensure (s.sourceAccountId ∈ db.books.accountIds) (.foreignKeyViolation "source_account_id")
  ensure (s.targetAccountId ∈ db.books.accountIds) (.foreignKeyViolation "target_account_id")
  ensure (∀ r ∈ db.amortizationSchedules, r.id ≠ s.id)
    (.uniqueViolation "amortization_schedules_pkey")
  .ok { db with
    amortizationSchedules := db.amortizationSchedules ++ [{ s with totalAmount := total }] }

namespace Amortization

structure NewAmortizationForm where
  description : String
  sourceAccountId : Uuid
  targetAccountId : Uuid
  totalAmount : ℚ
  periodUnit : String
  periods : ℤ
  startDate : NaiveDate
  /-- The field is an `i32`. -/
  periods_fits : FitsI32 periods

/-- The row that `create` inserts. -/
def scheduleRow (id ledger : Uuid) (form : NewAmortizationForm) : AmortizationSchedule where
  id := id
  ledgerId := ledger
  description := RustStr.trim form.description
  sourceAccountId := form.sourceAccountId
  targetAccountId := form.targetAccountId
  totalAmount := form.totalAmount
  periodUnit := form.periodUnit
  periods := form.periods
  startDate := form.startDate
  endDate := advance form.startDate form.periodUnit (form.periods - 1)
  nextPostDate := form.startDate

def create (db : Db) (req : Request) (auth : Option Uuid) (ledger : Uuid)
    (form : NewAmortizationForm) : Except AppError Uuid × Db :=
  commit db do
    let user ← okOr auth .unauthorized
    let _ ← db.ensureWriter user ledger
    ensure (form.periodUnit = "monthly" ∨ form.periodUnit = "quarterly" ∨ form.periodUnit = "yearly")
      (.validation ("invalid period_unit: " ++ form.periodUnit))
    ensure (0 < form.periods) (.validation "periods must be > 0")
    ensure (0 ≤ form.totalAmount) (.validation "total_amount must be >= 0")
    ensure (form.sourceAccountId ≠ form.targetAccountId)
      (.validation "source and target must differ")
    let db ← mapError .db (db.insertSchedule (scheduleRow (req.rowId 0) ledger form))
    .ok (req.rowId 0, db)

/-- What an accepted form has been checked for, and the row it leaves. -/
structure Accepted (db db' : Db) (id : Uuid) (form : NewAmortizationForm)
    (s : AmortizationSchedule) : Prop where
  unit : form.periodUnit = "monthly" ∨ form.periodUnit = "quarterly" ∨ form.periodUnit = "yearly"
  periods : 0 < form.periods
  total : 0 ≤ form.totalAmount
  stored : amountColumn form.totalAmount = some s.totalAmount
  row : ∃ ledger, s = { scheduleRow id ledger form with totalAmount := s.totalAmount }
  fresh : ∀ r ∈ db.amortizationSchedules, r.id ≠ id
  writes : db' = { db with amortizationSchedules := db.amortizationSchedules ++ [s] }

theorem create_spec {db db' : Db} {req : Request} {auth : Option Uuid} {ledger id : Uuid}
    {form : NewAmortizationForm} (h : create db req auth ledger form = (.ok id, db')) :
    ∃ s, Accepted db db' id form s := by
  simp only [create, commit_eq_ok, bind_eq_ok, okOr_eq_ok, ensure_eq_ok, mapError_eq_ok,
    Db.insertSchedule, Except.ok.injEq] at h
  obtain ⟨user, -, l, -, -, hunit, -, hperiods, -, htotal, -, -, db₁,
    ⟨total, hstored, -, -, -, -, -, -, -, -, -, -, -, hfresh, rfl⟩, h⟩ := h
  cases h
  exact ⟨{ scheduleRow (req.rowId 0) ledger form with totalAmount := total }, hunit, hperiods, htotal,
    hstored, ⟨ledger, rfl⟩, hfresh, rfl⟩

end Amortization

end OpenAccounting
