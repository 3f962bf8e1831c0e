import OpenAccounting.Domain.CloseControls
import OpenAccounting.Handlers.Access
import OpenAccounting.Reports.AccountNets

/-!
# Closing and reopening a period

`close_period` and `reopen_period` of `handlers/closing.rs`.  They write
`closed_periods` and `reopen_events` and nothing else; the books stay as they are.
The statements of `reopen_period` run outside a transaction, and none of them can
fail once the checks have passed.
-/

namespace OpenAccounting

open Calendar Commit

namespace Closing

def insertClosedPeriod (db : Db) (r : ClosedPeriod) : Except SqlError Db := do
  ensure (∀ c ∈ db.closedPeriods, ¬ (c.ledgerId = r.ledgerId ∧ c.periodYear = r.periodYear))
    (.uniqueViolation "closed_periods_ledger_id_period_year_key")
  .ok { db with closedPeriods := db.closedPeriods ++ [r] }

/-- `close_period`, with the date as the parser leaves it. -/
def closePeriod (db : Db) (auth : Option Uuid) (ledger : Uuid) (through : Option NaiveDate) :
    Except AppError Unit × Db :=
  commit db do
    let user ← okOr auth .unauthorized
    let _ ← db.ensureOwnerOrAdmin user ledger
    let date ← okOr through (.validation "Invalid closed_through date (YYYY-MM-DD)")
    ensure (¬ db.Closed ledger date) (.validation
      ("Ledger is already closed through " ++ ((db.closedThrough ledger).getD date).display ++ "."))
    let db ← mapError .db (insertClosedPeriod db
      { ledgerId := ledger, periodYear := date.year, closedThrough := some date })
    .ok ((), db)

/-- `DELETE FROM closed_periods WHERE ledger_id = $1 AND closed_through >= $2`. -/
def deleteWatermarks (db : Db) (ledger : Uuid) (date : NaiveDate) : Db :=
  { db with
    closedPeriods := db.closedPeriods.filter fun c =>
      ¬ (c.ledgerId = ledger ∧ ∃ d ∈ c.closedThrough, date ≤ d) }

/-- `DELETE … WHERE ledger_id = $1 AND period_year >= $2 AND closed_through IS NULL`. -/
def deleteLegacyYears (db : Db) (ledger : Uuid) (year : ℤ) : Db :=
  { db with
    closedPeriods := db.closedPeriods.filter fun c =>
      ¬ (c.ledgerId = ledger ∧ year ≤ c.periodYear ∧ c.closedThrough = none) }

/-- `DELETE FROM closed_periods WHERE ledger_id = $1`. -/
def deleteAllPeriods (db : Db) (ledger : Uuid) : Db :=
  { db with closedPeriods := db.closedPeriods.filter fun c => c.ledgerId ≠ ledger }

/-- `ReopenForm`: no date, or the date as the parser leaves it. -/
structure ReopenForm where
  reason : String
  closedThrough : Option (Option NaiveDate) := none

def reopenPeriod (db : Db) (auth : Option Uuid) (ledger : Uuid) (form : ReopenForm) :
    Except AppError Unit × Db :=
  commit db do
    let user ← okOr auth .unauthorized
    let _ ← db.ensureOwnerOrAdmin user ledger
    let reason ← mapError .validation (CloseControls.validateReason form.reason)
    ensure (form.closedThrough ≠ some none) (.validation "Invalid closed_through date")
    let through := form.closedThrough.join
    let db :=
      match through with
      | some d => deleteLegacyYears (deleteWatermarks db ledger d) ledger d.year
      | none => deleteAllPeriods db ledger
    .ok ((), { db with reopenEvents := db.reopenEvents ++
      [{ ledgerId := ledger, closedThrough := through, reopenedBy := user, reason := reason }] })

/-! ## The books stay as they are -/

theorem closePeriod_books (db : Db) (auth : Option Uuid) (ledger : Uuid)
    (through : Option NaiveDate) : (closePeriod db auth ledger through).2.books = db.books := by
  refine commit_invariant (P := fun db' : Db => db'.books = db.books) rfl ?_
  intro _ db' hbody
  simp only [bind_eq_ok, mapError_eq_ok, insertClosedPeriod] at hbody
  obtain ⟨_, -, _, -, date, -, _, -, db₁, ⟨_, -, hdb₁⟩, hbody⟩ := hbody
  cases hdb₁
  cases hbody
  rfl

theorem reopenPeriod_books (db : Db) (auth : Option Uuid) (ledger : Uuid) (form : ReopenForm) :
    (reopenPeriod db auth ledger form).2.books = db.books := by
  refine commit_invariant (P := fun db' : Db => db'.books = db.books) rfl ?_
  intro _ db' hbody
  simp only [bind_eq_ok] at hbody
  obtain ⟨_, -, _, -, _, -, _, -, hbody⟩ := hbody
  cases hbody
  cases form.closedThrough.join <;> rfl

end Closing

end OpenAccounting

/-!
## The year-end close

`close_year` of `handlers/closing.rs`.  It reads the net of every income and expense account,
creates the account for retained earnings if there is none, and writes one entry of the kind
`closing` that takes the nets back and brings their sum to retained earnings.  The year is marked
as closed in the same database transaction.
-/

namespace OpenAccounting

open Calendar Commit Relational

namespace Closing

open Reports (JoinedRow OnAccount)

/-! ## The balances -/

/-- `t.id = p.transaction_id AND t.txn_date BETWEEN $2 AND $3`. -/
def OnYear (first last : NaiveDate) (r : Account × Option Posting) (t : Transaction) : Prop :=
  (r.2.any fun p => t.id = p.transactionId) ∧ first ≤ t.txnDate ∧ t.txnDate ≤ last

instance (first last : NaiveDate) (r : Account × Option Posting) :
    DecidablePred (OnYear first last r) :=
  fun _ => inferInstanceAs (Decidable (_ ∧ _ ∧ _))

/-- `a.ledger_id = $1 AND a.type IN ('INCOME','EXPENSE')`. -/
def InResult (ledger : Uuid) (a : Account) : Prop :=
  a.ledgerId = ledger ∧ (a.type = .income ∨ a.type = .expense)

instance (ledger : Uuid) : DecidablePred (InResult ledger) :=
  fun _ => inferInstanceAs (Decidable (_ ∧ (_ ∨ _)))

/-- The accounts to close, with debits minus credits. -/
def accountBalances (b : Books) (ledger : Uuid) (first last : NaiveDate) : List (Account × ℚ) :=
  (Reports.accountNetsOn b (InResult ledger) .empty (OnYear first last) Reports.netBySides).filter
    fun r => r.2 ≠ 0

/-- The loop over the balances. -/
def netIncome (balances : List (Account × ℚ)) : ℚ :=
  balances.foldl (fun total r =>
    match r.1.type with
    | .income => total - r.2
    | .expense => total + r.2
    | _ => total) 0

/-! ## The entry -/

/-- A line of the closing entry. -/
structure ClosingLine where
  accountId : Uuid
  amount : ℚ
  direction : Direction
  memo : String

def closingSide : AccountType → Option Direction
  | .income => some .debit
  | .expense => some .credit
  | _ => none

def closingLine (r : Account × ℚ) : Option ClosingLine :=
  if |r.2| = 0 then none
  else (closingSide r.1.type).map fun d => ⟨r.1.id, |r.2|, d, "Close to retained earnings"⟩

/-- The line of retained earnings. -/
def retainedLine (retained : Uuid) (net : ℚ) : Option ClosingLine :=
  if 0 < net then some ⟨retained, net, .credit, "Net income for year"⟩
  else if net < 0 then some ⟨retained, |net|, .debit, "Net loss for year"⟩
  else none

/-- All lines, in order. -/
def closingLines (balances : List (Account × ℚ)) (retained : Uuid) : List ClosingLine :=
  balances.filterMap closingLine ++ (retainedLine retained (netIncome balances)).toList

/-- The rows of the lines, numbered from `k` on. -/
def closingRows (req : Request) : ℕ → List ClosingLine → List PostingRow
  | _, [] => []
  | k, l :: ls =>
    { id := req.postingId 0 k
      transactionId := req.txnId 0
      accountId := l.accountId
      amount := l.amount
      direction := l.direction
      memo := some l.memo } :: closingRows req (k + 1) ls

/-- The account that is created. -/
def newRetainedEarnings (req : Request) (ledger : Ledger) : Account where
  id := req.rowId 0
  ledgerId := ledger.id
  name := "Retained Earnings"
  code := some "3050"
  type := .equity
  subtype := .retainedEarnings
  currency := ledger.baseCurrency
  subtype_valid := by decide

/-- The account for retained earnings, found or created. -/
def retainedEarnings (db : Db) (req : Request) (ledger : Ledger) : Except SqlError (Uuid × Db) :=
  match db.books.accounts.find? fun a =>
      a.ledgerId = ledger.id ∧ a.subtype = .retainedEarnings with
  | some a => .ok (a.id, db)
  | none => do
    let db ← db.insertAccount (newRetainedEarnings req ledger)
    .ok ((newRetainedEarnings req ledger).id, db)

def closingRow (req : Request) (user : Uuid) (ledger : Ledger) (year : ℤ) (last : NaiveDate) :
    Transaction where
  id := req.txnId 0
  ledgerId := ledger.id
  txnDate := last
  description := "Year-end close " ++ toString year
  currency := ledger.baseCurrency
  kind := .closing
  createdBy := user
  createdAt := req.now

def closeYear (db : Db) (req : Request) (auth : Option Uuid) (ledger : Uuid) (year : ℤ) :
    Except AppError Unit × Db :=
  commit db do
    let user ← okOr auth .unauthorized
    let l ← db.ensureOwner user ledger
    ensure (¬ ∃ c ∈ db.closedPeriods, c.ledgerId = ledger ∧ c.periodYear = year)
      (.validation ("Period " ++ toString year ++ " is already closed."))
    let first ← okOr (NaiveDate.fromYmdOpt year 1 1) (.internal "Invalid year")
    let last ← okOr (NaiveDate.fromYmdOpt year 12 31) (.internal "Invalid year")
    let balances := accountBalances db.books ledger first last
    let (retained, db) ← mapError .db (retainedEarnings db req l)
    let db ← mapError .db (db.insertEntry (closingRow req user l year last)
      (closingRows req 0 (closingLines balances retained)))
    let db ← mapError .db (insertClosedPeriod db
      { ledgerId := ledger, periodYear := year, closedThrough := some last })
    .ok ((), db)

/-! ## What it does -/

theorem closingRows_transactionId {req : Request} {k : ℕ} {ls : List ClosingLine} :
    ∀ r ∈ closingRows req k ls, r.transactionId = req.txnId 0 := by
  induction ls generalizing k with
  | nil => exact fun r hr => absurd hr List.not_mem_nil
  | cons l ls ih =>
    intro r hr
    rcases List.mem_cons.mp hr with rfl | hr
    · rfl
    · exact ih r hr

/-- The ledger's account for retained earnings. -/
def findRetainedEarnings (b : Books) (ledger : Uuid) : Option Account :=
  b.accounts.find? fun a => a.ledgerId = ledger ∧ a.subtype = .retainedEarnings

/-- What a committed close has written: the entry `t`, for which the account `retained` may have
been created before. -/
structure Committed (db db' : Db) (req : Request) (ledger : Uuid) (year : ℤ) (first last : NaiveDate)
    (retained : Account) (t : Transaction) (ps : List Posting) : Prop where
  first_eq : NaiveDate.fromYmdOpt year 1 1 = some first
  last_eq : NaiveDate.fromYmdOpt year 12 31 = some last
  found : findRetainedEarnings db'.books ledger = some retained
  accounts : db'.books.accounts = db.books.accounts ∨
    db'.books.accounts = db.books.accounts ++ [retained]
  id : t.id = req.txnId 0
  header : t.header = { ledgerId := ledger, txnDate := last, kind := .closing }
  posts : ∃ b, b.transactions = db.books.transactions ∧ b.postings = db.books.postings ∧
    Books.Posts b db'.books t ps
  stored : List.Forall₂ PostingRow.Stored (closingRows req 0
    (closingLines (accountBalances db.books ledger first last) retained.id)) ps
  unclosed : ∀ c ∈ db.closedPeriods, ¬ (c.ledgerId = ledger ∧ c.periodYear = year)
  closedPeriods : db'.closedPeriods = db.closedPeriods ++
    [{ ledgerId := ledger, periodYear := year, closedThrough := some last }]

theorem retainedEarnings_spec {db db' : Db} {req : Request} {l : Ledger} {retained : Uuid}
    (h : retainedEarnings db req l = .ok (retained, db')) :
    ∃ a, a.id = retained ∧ findRetainedEarnings db'.books l.id = some a ∧
      db'.closedPeriods = db.closedPeriods ∧ db'.books.transactions = db.books.transactions ∧
      db'.books.postings = db.books.postings ∧
      (db'.books.accounts = db.books.accounts ∨
        db'.books.accounts = db.books.accounts ++ [a]) := by
  rw [retainedEarnings] at h
  split at h
  · next a hfound =>
      cases h
      exact ⟨a, rfl, hfound, rfl, rfl, rfl, Or.inl rfl⟩
  · next hnone =>
      simp only [bind_eq_ok] at h
      obtain ⟨db₁, hinsert, h⟩ := h
      cases h
      obtain ⟨hfresh, rfl⟩ := Db.insertAccount_spec hinsert
      refine ⟨newRetainedEarnings req l, rfl, ?_, rfl, rfl, rfl, Or.inr rfl⟩
      show (db.books.accounts ++ [newRetainedEarnings req l]).find? _ = _
      rw [List.find?_append, hnone, Option.none_or, List.find?_singleton]
      exact if_pos (decide_eq_true ⟨rfl, rfl⟩)

theorem closeYear_spec {db : Db} {req : Request} {auth : Option Uuid} {ledger : Uuid} {year : ℤ}
    (h : (closeYear db req auth ledger year).1 = .ok ()) :
    ∃ first last retained t ps, Committed db (closeYear db req auth ledger year).2 req ledger year
      first last retained t ps := by
  obtain ⟨db', hrun⟩ : ∃ db', closeYear db req auth ledger year = (.ok (), db') :=
    ⟨_, Prod.ext h rfl⟩
  rw [hrun]
  have hbody := commit_eq_ok.mp hrun
  simp only [bind_eq_ok, okOr_eq_ok, mapError_eq_ok, ensure_eq_ok, Db.ensureOwner,
    insertClosedPeriod] at hbody
  obtain ⟨user, -, l, hl, -, -, first, hfirst, last, hlast, ⟨retained, db₁⟩, hretained, db₂, hentry,
    db₃, ⟨-, hnone, hdb₃⟩, hbody⟩ := hbody
  cases hdb₃
  cases hbody
  have hown : l.id = ledger ∧ l.ownerId = user := by simpa using List.find?_some hl
  obtain ⟨rfl, -⟩ := hown
  obtain ⟨a, rfl, hfound, hperiods, htransactions, hpostings, haccounts⟩ :=
    retainedEarnings_spec hretained
  obtain ⟨-, b', ps, rfl, hposts, hstored, -⟩ :=
    Db.insertEntry_spec closingRows_transactionId hentry
  refine ⟨first, last, a, closingRow req user l year last, ps, hfirst, hlast, ?_, ?_, rfl, rfl,
    ⟨db₁.books, htransactions, hpostings, hposts⟩, hstored, ?_, ?_⟩
  · rw [findRetainedEarnings, hposts.accounts]
    exact hfound
  · rw [hposts.accounts]
    exact haccounts
  · rw [← hperiods]
    exact hnone
  · rw [← hperiods]

end Closing

end OpenAccounting
