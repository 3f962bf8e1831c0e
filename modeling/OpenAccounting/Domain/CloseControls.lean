import OpenAccounting.Db.State
import OpenAccounting.Lib.Commit

/-!
# The close watermark

A ledger has one date up to which it is closed (`domain/close_controls.rs`): the
greatest `closed_through` of its `closed_periods` rows or, when no row has one,
the last day of the greatest `period_year`.
-/

namespace OpenAccounting

open Calendar

namespace CloseControls

/-- Minimum length of a reopen or override reason. -/
def minReasonLen : ℕ := 10

/-- The trimmed reason, if it is long enough. -/
def validateReason (reason : String) : Except String String :=
  let trimmed := RustStr.trim reason
  if trimmed.length < minReasonLen then .error "Reason must be at least 10 characters."
  else .ok trimmed

/-- The date lies in the closed range. -/
def isClosed (watermark : Option NaiveDate) (date : NaiveDate) : Bool :=
  match watermark with
  | some w => date ≤ w
  | none => false

@[simp] theorem isClosed_some (w date : NaiveDate) :
    isClosed (some w) date = true ↔ date ≤ w := by
  simp [isClosed]

end CloseControls

namespace Db

def closedPeriodsOf (db : Db) (ledger : Uuid) : List ClosedPeriod :=
  db.closedPeriods.filter fun c => c.ledgerId = ledger

/-- `closed_through_for` and `closed_through_in_tx`. -/
def closedThrough (db : Db) (ledger : Uuid) : Option NaiveDate :=
  match ((db.closedPeriodsOf ledger).filterMap ClosedPeriod.closedThrough).max? with
  | some d => some d
  | none =>
    match ((db.closedPeriodsOf ledger).map ClosedPeriod.periodYear).max? with
    | some y => NaiveDate.fromYmdOpt y 12 31
    | none => none

def Closed (db : Db) (ledger : Uuid) (date : NaiveDate) : Prop :=
  CloseControls.isClosed (db.closedThrough ledger) date = true

instance (db : Db) (ledger : Uuid) (date : NaiveDate) : Decidable (db.Closed ledger date) := by
  unfold Closed
  infer_instance

theorem closedThrough_congr {db db' : Db} (h : db'.closedPeriods = db.closedPeriods)
    (ledger : Uuid) : db'.closedThrough ledger = db.closedThrough ledger := by
  simp only [closedThrough, closedPeriodsOf, h]

theorem closed_congr {db db' : Db} (h : db'.closedPeriods = db.closedPeriods) {ledger : Uuid}
    {date : NaiveDate} : db'.Closed ledger date ↔ db.Closed ledger date := by
  rw [Closed, Closed, closedThrough_congr h]

theorem closed_iff {db : Db} {ledger : Uuid} {w date : NaiveDate}
    (h : db.closedThrough ledger = some w) : db.Closed ledger date ↔ date ≤ w := by
  rw [Closed, h, CloseControls.isClosed_some]

end Db

end OpenAccounting
