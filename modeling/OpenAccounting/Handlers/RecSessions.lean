import OpenAccounting.Handlers.Access
import OpenAccounting.Lib.Relational

/-!
# Statement reconciliation sessions

`handlers/rec_sessions.rs` with the arithmetic of `domain/statement_reconciliation.rs`.
`create_session` opens a session at the balance that the latest closed one ends with.  `clear` and
`unclear` mark a bank line, `finish` closes a session whose difference is zero, and `unreconcile`
opens it again with all lines uncleared.  Each of these four is given as what it reads and what it
writes, and as the two in one.
-/

namespace OpenAccounting.RecSessions

open Commit Relational

/-! ## `domain` -/

def carryOpening (priorClose : Option ℚ) : ℚ := priorClose.getD 0

def computeDifference (opening clearedSum stmtClose : ℚ) : ℚ := stmtClose - (opening + clearedSum)

def validateFinish (difference : ℚ) : Except ℚ Unit := ensure (difference = 0) difference

def validateUnreconcileReason (reason : String) : Except String Unit :=
  ensure (10 ≤ (RustStr.trim reason).length) "unreconcile reason must be at least 10 characters"

/-! ## Reads -/

/-- `Path((ledger_id, account_id, session_id))`. -/
structure Path where
  ledger : Uuid
  account : Uuid
  session : Uuid

structure ClearForm where
  bankLineId : Uuid
  confirm : Option String

structure UnclearForm where
  bankLineId : Uuid

structure UnreconcileForm where
  reason : Option String

def confirmGiven (confirm : Option String) : Bool :=
  confirm.any fun v => RustStr.trim v ∈ ["1", "true", "yes", "on"]

def loadSession (db : Db) (path : Path) : Except AppError RecSession :=
  okOr (db.recSessions.find? fun s =>
    s.id = path.session ∧ s.ledgerId = path.ledger ∧ s.accountId = path.account) .notFound

def clearedSum (db : Db) (session : Uuid) : ℚ :=
  (((innerJoin (fun (r : RecLine) (b : BankStatementLine) => b.id = r.bankLineId) db.recLines
      db.bankStatementLines).filter fun x => x.1.sessionId = session ∧ x.1.cleared = true).map
    fun x => x.2.amount).sum

/-- The session of a request that its ledger's owner makes. -/
def ownSession (db : Db) (auth : Option Uuid) (path : Path) : Except AppError RecSession := do
  let user ← okOr auth .unauthorized
  let _ ← db.ensureOwner user path.ledger
  loadSession db path

/-- The answer of `clear` and `unclear` for a closed session. -/
def locked : AppError :=
  .conflict "session is closed and locked; unreconcile with a reason to change lines"

def readClear (db : Db) (auth : Option Uuid) (path : Path) (form : ClearForm) :
    Except AppError Unit := do
  let session ← ownSession db auth path
  ensure (session.status ≠ .closed) locked
  ensure (confirmGiven form.confirm = true)
    (.validation "clearing requires explicit confirm (pass confirm=1)")
  let _ ← okOr (db.bankStatementLines.find? fun b =>
    b.id = form.bankLineId ∧ b.ledgerId = path.ledger ∧ b.accountId = path.account) .notFound
  .ok ()

def readUnclear (db : Db) (auth : Option Uuid) (path : Path) : Except AppError Unit := do
  let session ← ownSession db auth path
  ensure (session.status ≠ .closed) locked

/-- What `finish` reads before the cleared sum. -/
def readFinish (db : Db) (auth : Option Uuid) (path : Path) : Except AppError RecSession := do
  let session ← ownSession db auth path
  ensure (session.status ≠ .closed) (.conflict "session is already closed")
  .ok session

/-- A `Decimal` with four places. -/
def display (d : ℚ) : String :=
  let n := (d * 10000).floor
  let places := toString (n.natAbs % 10000)
  (if n < 0 then "-" else "") ++ toString (n.natAbs / 10000) ++ "." ++
    String.ofList (List.replicate (4 - places.length) '0') ++ places

/-- The zero-difference gate of `finish`. -/
def checkFinish (session : RecSession) (cleared : ℚ) : Except AppError Unit :=
  mapError (fun d => .conflict ("difference " ++ display d ++
      " must be zero to finish; clear the remaining lines first"))
    (validateFinish
      (computeDifference session.openingBalance cleared session.stmtCloseBalance))

def readUnreconcile (db : Db) (auth : Option Uuid) (path : Path) (form : UnreconcileForm) :
    Except AppError Unit := do
  let session ← ownSession db auth path
  mapError .validation (validateUnreconcileReason (form.reason.getD ""))
  ensure (session.status = .closed) (.validation "session is not closed")

/-! ## Writes -/

def IsLine (session line : Uuid) (r : RecLine) : Prop :=
  r.sessionId = session ∧ r.bankLineId = line

instance (session line : Uuid) : DecidablePred (IsLine session line) := fun r => by
  unfold IsLine
  infer_instance

/-- `UPDATE rec_lines SET cleared = … WHERE session_id = $1 AND bank_line_id = $2`. -/
def mark (db : Db) (session line : Uuid) (cleared : Bool) : Db :=
  { db with
    recLines := updateWhere (IsLine session line) (fun r => { r with cleared }) db.recLines }

/-- `INSERT INTO rec_lines … ON CONFLICT … DO UPDATE SET cleared = TRUE`. -/
def setCleared (db : Db) (session line : Uuid) : Except SqlError Db :=
  if ∃ r ∈ db.recLines, IsLine session line r then
    .ok (mark db session line true)
  else do
    ensure (∃ s ∈ db.recSessions, s.id = session) (.foreignKeyViolation "session_id")
    ensure (∃ b ∈ db.bankStatementLines, b.id = line) (.foreignKeyViolation "bank_line_id")
    .ok { db with recLines := db.recLines ++ [⟨session, line, true⟩] }

/-- The update of `unclear`. -/
def setUncleared (db : Db) (session line : Uuid) : Db := mark db session line false

/-- The update of `finish`. -/
def close (db : Db) (session : Uuid) : Db :=
  { db with
    recSessions := updateWhere (fun s => s.id = session) (fun s => { s with status := .closed })
      db.recSessions }

/-- The database transaction of `unreconcile`. -/
def reopen (db : Db) (session : Uuid) : Db :=
  { db with
    recSessions := updateWhere (fun s => s.id = session) (fun s => { s with status := .opened })
      db.recSessions
    recLines := updateWhere (fun r => r.sessionId = session) (fun r => { r with cleared := false })
      db.recLines }

/-! ## Handlers -/

structure CreateSessionForm where
  stmtCloseDate : Calendar.NaiveDate
  stmtCloseBalance : ℚ

/-- `SELECT stmt_close_balance … WHERE status = 'closed' ORDER BY stmt_close_date DESC LIMIT 1`. -/
def priorClose (db : Db) (ledger account : Uuid) : Option ℚ :=
  (orderByDesc RecSession.stmtCloseDate (db.recSessions.filter fun s =>
    s.ledgerId = ledger ∧ s.accountId = account ∧ s.status = .closed)).head?.map
      RecSession.stmtCloseBalance

def insertSession (db : Db) (s : RecSession) : Except SqlError Db := do
  let balance ← okOr (amountColumn s.stmtCloseBalance) .numericFieldOverflow
  let opening ← okOr (amountColumn s.openingBalance) .numericFieldOverflow
  ensure (¬ ∃ r ∈ db.recSessions, r.id = s.id) (.uniqueViolation "rec_sessions_pkey")
  ensure (¬ ∃ r ∈ db.recSessions, r.accountId = s.accountId ∧ r.stmtCloseDate = s.stmtCloseDate)
    (.uniqueViolation "rec_sessions_account_id_stmt_close_date_key")
  ensure (s.accountId ∈ db.books.accountIds) (.foreignKeyViolation "account_id")
  .ok { db with
    recSessions := db.recSessions ++
      [{ s with stmtCloseBalance := balance, openingBalance := opening }] }

/-- A duplicate surfaces as a conflict. -/
def insertError : SqlError → AppError
  | .uniqueViolation _ => .conflict "a session already exists for this account and close date"
  | e => .db e

def createSession (db : Db) (req : Request) (auth : Option Uuid) (ledger account : Uuid)
    (form : CreateSessionForm) : Except AppError Uuid × Db :=
  commit db do
    let user ← okOr auth .unauthorized
    let _ ← db.ensureOwner user ledger
    let opening := carryOpening (priorClose db ledger account)
    let db ← mapError insertError (insertSession db
      { id := req.rowId 0, ledgerId := ledger, accountId := account,
        stmtCloseDate := form.stmtCloseDate, stmtCloseBalance := form.stmtCloseBalance,
        openingBalance := opening })
    .ok (req.rowId 0, db)

def clear (db : Db) (auth : Option Uuid) (path : Path) (form : ClearForm) :
    Except AppError Unit × Db :=
  commit db do
    readClear db auth path form
    let db ← mapError .db (setCleared db path.session form.bankLineId)
    .ok ((), db)

def unclear (db : Db) (auth : Option Uuid) (path : Path) (form : UnclearForm) :
    Except AppError Unit × Db :=
  commit db do
    readUnclear db auth path
    .ok ((), setUncleared db path.session form.bankLineId)

def finish (db : Db) (auth : Option Uuid) (path : Path) : Except AppError Unit × Db :=
  commit db do
    let session ← readFinish db auth path
    checkFinish session (clearedSum db session.id)
    .ok ((), close db session.id)

def unreconcile (db : Db) (auth : Option Uuid) (path : Path) (form : UnreconcileForm) :
    Except AppError Unit × Db :=
  commit db do
    readUnreconcile db auth path form
    .ok ((), reopen db path.session)

end OpenAccounting.RecSessions
