import OpenAccounting.Domain.PostingService
import OpenAccounting.Handlers.Closing

/-!
# Posting from the transaction form

The end of `create` in `handlers/transactions.rs`: the parsed form, as a
`NewTransaction`, goes to the posting service, and a refusal because the period is
closed may be overridden.  An owner or admin who gives a reason has the watermarks
from the date on deleted, by statements of their own, and the write is tried once
more.
-/

namespace OpenAccounting

open Calendar Commit

namespace Transactions

/-- What the form submits. -/
structure Submission where
  new : NewTransaction
  saveAsDraft : Bool := false
  overrideReason : Option String := none

/-- The override is granted, with this trimmed reason. -/
def overrideGranted (db : Db) (user ledger : Uuid) (reason : Option String) : Option String := do
  let raw ← reason
  let trimmed ← (CloseControls.validateReason raw).toOption
  let _ ← (db.ensureOwnerOrAdmin user ledger).toOption
  some trimmed

/-- The statements of the override before the retry. -/
def applyOverride (db : Db) (user : Uuid) (s : Submission) (closedThrough : NaiveDate)
    (reason : String) : Db :=
  Closing.deleteWatermarks
    { db with reopenEvents := db.reopenEvents ++
        [{ ledgerId := s.new.ledgerId, closedThrough := some closedThrough, reopenedBy := user,
           reason := reason }] }
    s.new.ledgerId s.new.txnDate

/-- What the request is answered with. -/
inductive Response where
  | posted (created : CreatedTransaction)
  /-- The form again, with the totals that do not balance. -/
  | unbalanced (debits credits : ℚ)
  /-- The form again, with a message. -/
  | form (message : String)

/-- The answer to a failed service call. -/
def answer (date : NaiveDate) : PostingServiceError → Except AppError Response
  | .unbalanced debits credits => .ok (.unbalanced debits credits)
  | .hardClosed _ closedThrough =>
    .error (.conflict ("Ledger is closed through " ++ closedThrough.display ++
      ". Cannot post " ++ date.display ++ " to a closed period."))
  | .ledgerNotFound => .error .notFound
  | .unknownAccount id => .error (.validation ("unknown account " ++ Uuid.hyphenated id))
  | .wrongLedger _ => .error (.validation "account belongs to a different ledger")
  | .unknownCostCenter id => .error (.validation ("unknown cost center " ++ Uuid.hyphenated id))
  | .unknownProject id => .error (.validation ("unknown project " ++ Uuid.hyphenated id))
  | .duplicateNumber year number =>
    .error (.conflict ("Transaction number already used in " ++ toString year ++ ": " ++ number))
  | .missingFxRate message => .ok (.form message)
  | .selfApproval => .error .forbidden
  | .notPending => .error (.validation "journal is not pending")
  | .db e => .error (.db e)

/-- The answer to a service call. -/
def answerOf (date : NaiveDate) :
    Except PostingServiceError CreatedTransaction → Except AppError Response
  | .ok created => .ok (.posted created)
  | .error e => answer date e

/-- The answer to the retry of an override.  The text of the error goes on with the
cause. -/
def retryAnswer : Except PostingServiceError CreatedTransaction → Except AppError Response
  | .ok created => .ok (.posted created)
  | .error _ => .error (.internal "override retry failed: ")

/-- The service call and, after a refusal for a closed period, the override.  The
retry draws ids of its own. -/
def post (db : Db) (req retry : Request) (user : Uuid) (s : Submission) :
    Except AppError Response × Db :=
  if s.saveAsDraft then
    let (r, db) := PostingService.createDraft db req s.new
    (answerOf s.new.txnDate r, db)
  else
    match PostingService.create db req s.new with
    | (.error (.hardClosed l closedThrough), db) =>
      match overrideGranted db user s.new.ledgerId s.overrideReason with
      | none => (answer s.new.txnDate (.hardClosed l closedThrough), db)
      | some reason =>
        let db := applyOverride db user s closedThrough reason
        let (r, db) := PostingService.create db retry s.new
        (retryAnswer r, db)
    | (r, db) => (answerOf s.new.txnDate r, db)

/-- The session's user, if it may write to the ledger. -/
def authorize (db : Db) (auth : Option Uuid) (ledger : Uuid) : Except AppError Uuid := do
  let user ← okOr auth .unauthorized
  let _ ← db.ensureWriter user ledger
  .ok user

def create (db : Db) (req retry : Request) (auth : Option Uuid) (s : Submission) :
    Except AppError Response × Db :=
  match authorize db auth s.new.ledgerId with
  | .error e => (.error e, db)
  | .ok user => post db req retry user s

/-! ## What it does -/

/-- The request ends as a call of the service does, from the state it found or from
the state after the override. -/
theorem create_cases (db : Db) (req retry : Request) (auth : Option Uuid) (s : Submission) :
    (create db req retry auth s).2 = db ∨
      (create db req retry auth s).2 = (PostingService.createDraft db req s.new).2 ∨
      (create db req retry auth s).2 = (PostingService.create db req s.new).2 ∨
      ∃ user closedThrough reason,
        (create db req retry auth s).2 =
          (PostingService.create (applyOverride (PostingService.create db req s.new).2 user s
            closedThrough reason) retry s.new).2 := by
  unfold create
  split
  · exact Or.inl rfl
  · next user _ =>
      right
      unfold post
      split
      · exact Or.inl rfl
      · right
        split
        · next l closedThrough db₁ heq =>
            rw [heq]
            split
            · exact Or.inl rfl
            · next reason _ => exact Or.inr ⟨user, closedThrough, reason, rfl⟩
        · next heq =>
            left
            rw [heq]

end Transactions

end OpenAccounting
