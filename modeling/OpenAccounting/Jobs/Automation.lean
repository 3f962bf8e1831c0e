import OpenAccounting.Db.Statements
import OpenAccounting.Lib.Relational

/-!
# Automation actions

`run` of `jobs/automation.rs`: one queued action of a rule.  The ledger is the one of
the rule, while the transaction to categorize comes from the event, and the update of
its postings asks for nothing but that id.

The statements of `run` are committed one by one.  Those on the delivery and job queues
touch no modelled table, so only their outcome is part of the model.
-/

namespace OpenAccounting

open Commit Relational

namespace Automation

/-- How a job fails. -/
inductive JobError where
  | payload (message : String)
  | failed (message : String)
  | db (e : SqlError)
deriving DecidableEq

/-- The `action` of the payload.  A field of the configuration that `payload_field` does
not find or cannot read is the text of its error. -/
inductive Action where
  /-- With the outcome of the statements on the queues. -/
  | webhookPost (subscriptionId : Except String Uuid) (queued : Except SqlError Unit)
  | emailNotify (recipient : Except String String) (queued : Except SqlError Unit)
  /-- With the transaction id found in the event data, if there is one. -/
  | categorizeTransaction (costCenter : Except String String) (transactionId : Option Uuid)
  | other (name : String)

/-- The payload of the job, as its fields are read. -/
structure Payload where
  ruleId : Except String Uuid
  ledgerId : Except String Uuid
  eventType : Except String String
  action : Except String Action

/-- `INSERT INTO cost_centers … ON CONFLICT (ledger_id, name) DO UPDATE … RETURNING id`. -/
def upsertCostCenter (db : Db) (req : Request) (ledger : Uuid) (name : String) :
    Except SqlError (Uuid × Db) :=
  match db.costCenters.find? fun c => c.ledgerId = ledger ∧ c.name = name with
  | some c => .ok (c.id, db)
  | none => do
    ensure (db.HasLedger ledger) (.foreignKeyViolation "ledger_id")
    ensure (∀ c ∈ db.costCenters, c.id ≠ req.rowId 0) (.uniqueViolation "cost_centers_pkey")
    .ok (req.rowId 0, { db with costCenters := db.costCenters ++
      [{ id := req.rowId 0, ledgerId := ledger, name := name }] })

/-- The cost center of this name is there, or can be inserted. -/
def CostCenterReady (db : Db) (req : Request) (ledger : Uuid) (name : String) : Prop :=
  (∃ c ∈ db.costCenters, c.ledgerId = ledger ∧ c.name = name) ∨
    db.HasLedger ledger ∧ ∀ c ∈ db.costCenters, c.id ≠ req.rowId 0

/-- The posting is one the update touches. -/
def Uncategorized (txn : Uuid) (p : Posting) : Prop :=
  p.transactionId = txn ∧ p.costCenterId = none

instance (txn : Uuid) : DecidablePred (Uncategorized txn) := by
  unfold Uncategorized
  infer_instance

/-- The posting with the cost center, if it had none. -/
def withCostCenter (txn costCenter : Uuid) (p : Posting) : Posting :=
  if Uncategorized txn p then { p with costCenterId := some costCenter } else p

@[simp] theorem withCostCenter_transactionId (txn costCenter : Uuid) (p : Posting) :
    (withCostCenter txn costCenter p).transactionId = p.transactionId := by
  rw [withCostCenter]
  split <;> rfl

@[simp] theorem withCostCenter_accountId (txn costCenter : Uuid) (p : Posting) :
    (withCostCenter txn costCenter p).accountId = p.accountId := by
  rw [withCostCenter]
  split <;> rfl

/-- `UPDATE postings SET cost_center_id = $2 WHERE transaction_id = $1 AND cost_center_id
IS NULL`.  The balance trigger fires for every updated row. -/
def categorize (db : Db) (txn costCenter : Uuid) : Except SqlError Db := do
  let b := db.books.mapPostings (withCostCenter txn costCenter)
    (withCostCenter_transactionId txn costCenter) (withCostCenter_accountId txn costCenter)
  if db.balanceTrigger ∧ ∃ p ∈ db.books.postings, Uncategorized txn p then
    Db.checkPostingBalance b txn
  .ok { db with books := b }

/-- The action itself.  A failing statement leaves what was committed before it. -/
def perform (db : Db) (req : Request) (ledger : Uuid) : Action → Except JobError Unit × Db
  | .webhookPost subscriptionId queued =>
    (do
      let _ ← mapError .payload subscriptionId
      mapError .db queued, db)
  | .emailNotify recipient queued =>
    (do
      let _ ← mapError .payload recipient
      mapError .db queued, db)
  | .categorizeTransaction costCenter transactionId =>
    match costCenter with
    | .error e => (.error (.payload e), db)
    | .ok name =>
      match transactionId with
      | none => (.error (.payload "categorize_transaction needs data.transaction_id"), db)
      | some txn =>
        match upsertCostCenter db req ledger name with
        | .error e => (.error (.db e), db)
        | .ok (center, db) =>
          match categorize db txn center with
          | .error e => (.error (.db e), db)
          | .ok db => (.ok (), db)
  | .other name => (.error (.failed ("unknown action '" ++ name ++ "'")), db)

/-- The fields that are read before anything else. -/
def readPayload (p : Payload) : Except JobError (Uuid × Uuid × Action) := do
  let rule ← mapError .payload p.ruleId
  let ledger ← mapError .payload p.ledgerId
  let _ ← mapError .payload p.eventType
  let action ← mapError .payload p.action
  .ok (rule, ledger, action)

/-- `run`.  A rule that is gone or disabled does nothing. -/
def run (db : Db) (req : Request) (p : Payload) : Except JobError Unit × Db :=
  match readPayload p with
  | .error e => (.error e, db)
  | .ok (rule, ledger, action) =>
    if (db.automationRules.find? fun r => r.id = rule).map (·.isEnabled) = some true then
      perform db req ledger action
    else (.ok (), db)

/-! ## What a job does -/

theorem categorize_spec {db db' : Db} {txn costCenter : Uuid}
    (h : categorize db txn costCenter = .ok db') :
    db' = { db with
      books := db.books.mapPostings (withCostCenter txn costCenter)
        (withCostCenter_transactionId txn costCenter)
        (withCostCenter_accountId txn costCenter) } := by
  simp only [categorize] at h
  split at h
  · rw [bind_eq_ok] at h
    obtain ⟨-, -, h⟩ := h
    exact (Except.ok.inj h).symm
  · exact (Except.ok.inj h).symm

theorem upsertCostCenter_spec {db : Db} {req : Request} {ledger : Uuid} {name : String}
    {r : Uuid × Db} (h : upsertCostCenter db req ledger name = .ok r) :
    ∃ centers, r.2 = { db with costCenters := centers } := by
  rw [upsertCostCenter] at h
  split at h
  · cases h
    exact ⟨db.costCenters, rfl⟩
  · simp only [bind_eq_ok] at h
    obtain ⟨-, -, -, -, h⟩ := h
    cases h
    exact ⟨_, rfl⟩

theorem upsertCostCenter_ready {db : Db} {req : Request} {ledger : Uuid} {name : String} :
    CostCenterReady db req ledger name ↔ ∃ r, upsertCostCenter db req ledger name = .ok r := by
  rw [CostCenterReady, upsertCostCenter]
  cases hfound : db.costCenters.find? fun c => c.ledgerId = ledger ∧ c.name = name with
  | some c =>
    have hc : c.ledgerId = ledger ∧ c.name = name := by simpa using List.find?_some hfound
    exact ⟨fun _ => ⟨_, rfl⟩, fun _ => Or.inl ⟨c, List.mem_of_find?_eq_some hfound, hc⟩⟩
  | none =>
    have hnone : ¬ ∃ c ∈ db.costCenters, c.ledgerId = ledger ∧ c.name = name := by
      rintro ⟨c, hc, hname⟩
      have := List.find?_eq_none.mp hfound c hc
      simp [hname] at this
    simp only [hnone, false_or, bind_eq_ok, ensure_eq_ok]
    constructor
    · rintro ⟨hledger, hfresh⟩
      exact ⟨_, (), hledger, (), hfresh, rfl⟩
    · rintro ⟨-, -, hledger, -, hfresh, -⟩
      exact ⟨hledger, hfresh⟩

theorem checkPostingBalance_withCostCenter (b : Books) (txn center s : Uuid) :
    Db.checkPostingBalance (b.mapPostings (withCostCenter txn center)
      (withCostCenter_transactionId txn center) (withCostCenter_accountId txn center)) s =
      Db.checkPostingBalance b s := by
  have hof : (b.mapPostings (withCostCenter txn center) (withCostCenter_transactionId txn center)
      (withCostCenter_accountId txn center)).postingsOf s =
        (b.postingsOf s).map (withCostCenter txn center) := by
    show (b.postings.map _).filter _ = (b.postings.filter _).map _
    rw [List.filter_map]
    congr 2
    funext p
    simp
  have hsum : ∀ (d : Direction) (ps : List Posting),
      Posting.sumOn d (ps.map (withCostCenter txn center)) = Posting.sumOn d ps := by
    intro d ps
    induction ps with
    | nil => rfl
    | cons p ps ih =>
      have hp : (withCostCenter txn center p).direction = p.direction ∧
          (withCostCenter txn center p).amount = p.amount := by
        rw [withCostCenter]
        split <;> exact ⟨rfl, rfl⟩
      rw [List.map_cons, Posting.sumOn_cons, Posting.sumOn_cons, ih, hp.1, hp.2]
  rw [Db.checkPostingBalance, Db.checkPostingBalance, hof, List.length_map, hsum, hsum]

/-- A performed action categorizes the postings of the transaction in the event, or
leaves everything but the cost centers alone. -/
theorem perform_cases (db : Db) (req : Request) (ledger : Uuid) (action : Action) :
    (∃ centers, (perform db req ledger action).2 = { db with costCenters := centers } ∧
      ((perform db req ledger action).1 = .ok () →
        ∀ name txn, action ≠ .categorizeTransaction (.ok name) (some txn))) ∨
    ∃ name txn center centers, action = .categorizeTransaction (.ok name) (some txn) ∧
      perform db req ledger action = (.ok (), { db with
        costCenters := centers
        books := db.books.mapPostings (withCostCenter txn center)
          (withCostCenter_transactionId txn center) (withCostCenter_accountId txn center) }) := by
  cases action with
  | webhookPost subscriptionId queued => exact Or.inl ⟨db.costCenters, rfl, fun _ _ _ h => nomatch h⟩
  | emailNotify recipient queued => exact Or.inl ⟨db.costCenters, rfl, fun _ _ _ h => nomatch h⟩
  | other name => exact Or.inl ⟨db.costCenters, rfl, fun _ _ _ h => nomatch h⟩
  | categorizeTransaction costCenter transactionId =>
    cases costCenter with
    | error e => exact Or.inl ⟨db.costCenters, rfl, fun h => nomatch h⟩
    | ok name =>
      cases transactionId with
      | none => exact Or.inl ⟨db.costCenters, rfl, fun h => nomatch h⟩
      | some txn =>
        cases hupsert : upsertCostCenter db req ledger name with
        | error e =>
          left
          simp only [perform, hupsert]
          exact ⟨db.costCenters, rfl, fun h => nomatch h⟩
        | ok r =>
          obtain ⟨centers, hr⟩ := upsertCostCenter_spec hupsert
          cases hcat : categorize r.2 txn r.1 with
          | error e =>
            left
            simp only [perform, hupsert, hcat]
            exact ⟨centers, hr, fun h => nomatch h⟩
          | ok db' =>
            right
            simp only [perform, hupsert, hcat]
            have hdb' := categorize_spec hcat
            refine ⟨name, txn, r.1, centers, rfl, ?_⟩
            rw [hdb']
            simp only [hr]

end Automation

end OpenAccounting
