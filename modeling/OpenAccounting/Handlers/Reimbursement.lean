import OpenAccounting.Handlers.Access
import OpenAccounting.Lib.TextSearch

/-!
# Approving a reimbursement claim

`approve` of `handlers/reimbursement.rs` with the routing of
`domain/approval_routing.rs`.  A claim needs the levels of all policies its total
reaches.  The approval that completes them posts the expense: one debit for each
account of the lines, one more for its tax, a credit that clears the advance, and
a credit to the employee payable account.

Whether an expense policy is violated is decided elsewhere; its message, if there
is one, is an input here.
-/

namespace OpenAccounting

open Calendar Commit

namespace ClaimStatus

/-- The column value of a status. -/
def asStr : ClaimStatus → String
  | .draft => "draft"
  | .submitted => "submitted"
  | .partiallyApproved => "partially_approved"
  | .fullyApproved => "fully_approved"
  | .approved => "approved"
  | .rejected => "rejected"
  | .paid => "paid"

end ClaimStatus

namespace ApprovalRouting

/-- Insertion into a strictly increasing list. -/
def insertLevel (level : ℤ) : List ℤ → List ℤ
  | [] => [level]
  | l :: ls => if level < l then level :: l :: ls
      else if level = l then l :: ls else l :: insertLevel level ls

/-- `resolve_required_levels`: sorted and without repetition, `[1]` when empty. -/
def resolveRequiredLevels (matching : List ℤ) : List ℤ :=
  if matching = [] then [1] else matching.foldr insertLevel []

def requiredLevels (db : Db) (ledger : Uuid) (total : ℚ) : List ℤ :=
  resolveRequiredLevels ((db.approvalPolicies.filter fun p =>
    p.ledgerId = ledger ∧ p.minAmount ≤ total).map ApprovalPolicy.level)

def recordedLevels (db : Db) (claim : Uuid) : List ℤ :=
  ((db.approvalSteps.filter fun s => s.claimId = claim).map ApprovalStep.level).foldr
    insertLevel []

/-- `approver_role_for_level`: the policy of the greatest threshold decides. -/
def approverRoleForLevel (db : Db) (ledger : Uuid) (level : ℤ) (total : ℚ) : ApproverRole :=
  let matching := db.approvalPolicies.filter fun p =>
    p.ledgerId = ledger ∧ p.level = level ∧ p.minAmount ≤ total
  match matching.find? fun p => ∀ q ∈ matching, q.minAmount ≤ p.minAmount with
  | some p => p.approverRole
  | none => .admin

/-- The user is among `eligible_approvers`. -/
def Eligible (db : Db) (ledger : Uuid) (role : ApproverRole) (user : Uuid) : Prop :=
  ∃ u ∈ db.users, u.id = user ∧
    ((∃ l ∈ db.ledgers, l.id = ledger ∧ l.ownerId = user) ∨
      ∃ m ∈ db.members, m.ledgerId = ledger ∧ m.userId = user ∧ m.role ≠ .viewer) ∧
    (role = .accountant ∨ u.isAdmin ∨ ∃ l ∈ db.ledgers, l.id = ledger ∧ l.ownerId = user)

instance (db : Db) (ledger : Uuid) (role : ApproverRole) (user : Uuid) :
    Decidable (Eligible db ledger role user) := by
  unfold Eligible
  infer_instance

/-- `ledger_user_count`: owners and members, each once. -/
def ledgerUserCount (db : Db) (ledger : Uuid) : ℕ :=
  (((db.ledgers.filter fun l => l.id = ledger).map Ledger.ownerId ++
    (db.members.filter fun m => m.ledgerId = ledger).map LedgerMember.userId).dedup).length

theorem mem_insertLevel {l level : ℤ} {levels : List ℤ} :
    l ∈ insertLevel level levels ↔ l = level ∨ l ∈ levels := by
  induction levels with
  | nil => simp [insertLevel]
  | cons m levels ih =>
    rw [insertLevel]
    split
    · simp
    · split
      · next heq =>
          subst heq
          simp
      · rw [List.mem_cons, ih, List.mem_cons]
        tauto

theorem mem_recordedLevels {db : Db} {claim : Uuid} {l : ℤ} :
    l ∈ recordedLevels db claim ↔ ∃ s ∈ db.approvalSteps, s.claimId = claim ∧ s.level = l := by
  have hfold : ∀ levels : List ℤ, l ∈ levels.foldr insertLevel [] ↔ l ∈ levels := by
    intro levels
    induction levels with
    | nil => simp
    | cons m levels ih => rw [List.foldr_cons, mem_insertLevel, ih, List.mem_cons]
  rw [recordedLevels, hfold, List.mem_map]
  simp [and_assoc]

end ApprovalRouting

namespace Reimbursement

/-! ## The entry of a claim -/

def linesOf (db : Db) (claim : Uuid) : List ClaimLine :=
  db.claimLines.filter fun l => l.claimId = claim

/-- `GROUP BY gl_account_id`: for each account, in the order of appearance, the sum
of the amounts without advances and the sum of the taxes. -/
def grouped (lines : List ClaimLine) : List (Uuid × ℚ × ℚ) :=
  (lines.map ClaimLine.glAccountId).reverse.dedup.reverse.map fun account =>
    let group := lines.filter fun l => l.glAccountId = account
    (account, (group.map fun l => l.amount - l.advanceAmount).sum,
      (group.map ClaimLine.taxAmount).sum)

/-- The account a claim is credited to. -/
def accountOf (b : Books) (ledger : Uuid) (type : AccountType) (subtype : AccountSubtype) :
    Option Uuid :=
  (b.accounts.find? fun a => a.ledgerId = ledger ∧ a.type = type ∧ a.subtype = subtype).map
    Account.id

/-- Account, amount and side of the postings of a claim. -/
def claimLegs (lines : List ClaimLine) (payable : Uuid) (advance : Option Uuid) :
    List (Uuid × ℚ × Direction) :=
  let advanceTotal := (lines.map ClaimLine.advanceAmount).sum
  let netExpense := ((grouped lines).map fun g => g.2.1).sum
  ((grouped lines).flatMap fun g =>
      (g.1, g.2.1, Direction.debit) ::
        if 0 < g.2.2 then [(g.1, g.2.2, Direction.debit)] else []) ++
    (if 0 < advanceTotal then (advance.map fun a => (a, advanceTotal, Direction.credit)).toList
      else []) ++
    [(payable, netExpense - advanceTotal, Direction.credit)]

/-- The rows of the legs, numbered from `k` on. -/
def legRows (req : Request) : ℕ → List (Uuid × ℚ × Direction) → List PostingRow
  | _, [] => []
  | k, leg :: legs =>
    { id := req.postingId 0 k, transactionId := req.txnId 0, accountId := leg.1,
      amount := leg.2.1, direction := leg.2.2 } :: legRows req (k + 1) legs

/-- The transaction row of a claim.  Its kind is the default of the column. -/
def txnRow (req : Request) (user ledger : Uuid) (claim : Claim) (date : NaiveDate) :
    Transaction where
  id := req.txnId 0
  ledgerId := ledger
  txnDate := date
  description := "Reimbursement " ++ claim.shortId
  payee := some claim.employeeName
  reference := some claim.shortId
  currency := claim.currency
  kind := .standard
  createdBy := user
  createdAt := req.now

/-! ## The handler -/

/-- `UPDATE reimbursement_claims SET status = …`. -/
def setStatus (db : Db) (ledger claim : Uuid) (f : Claim → Claim) : Db :=
  { db with claims := db.claims.map fun c => if c.id = claim ∧ c.ledgerId = ledger then f c else c }

/-- The checks before the transaction. -/
def authorize (db : Db) (auth : Option Uuid) (ledger claim : Uuid) (violation : Option String)
    (level : ℤ) : Except AppError (Uuid × Claim) := do
  let user ← okOr auth .unauthorized
  let _ ← db.ensureAccess user ledger
  let c ← okOr (db.claims.find? fun c => c.id = claim ∧ c.ledgerId = ledger) .notFound
  ensure (c.status ≠ .fullyApproved ∧ c.status ≠ .approved) (.conflict "claim is already approved")
  ensure (c.status = .submitted ∨ c.status = .partiallyApproved)
    (.validation ("claim cannot be approved from status '" ++ c.status.asStr ++ "'"))
  ensure (violation = none) (.validation (violation.getD ""))
  ensure (1 ≤ level) (.validation "level must be >= 1")
  .ok (user, c)

/-- Posting the entry of a fully approved claim. -/
def postClaim (db : Db) (req : Request) (user ledger : Uuid) (claim : Claim) :
    Except AppError Db := do
  let lines := linesOf db claim.id
  let payable ← okOr (accountOf db.books ledger .liability .employeePayable)
    (.internal "no EMPLOYEE_PAYABLE account in ledger; create one before approving")
  let date ← okOr (lines.map ClaimLine.txnDate).min? (.validation "no lines on claim to approve")
  let legs := claimLegs lines payable (accountOf db.books ledger .asset .employeeAdvance)
  let db ← mapError .db
    (db.insertEntry (txnRow req user ledger claim date) (legRows req 0 legs))
  .ok (setStatus db ledger claim.id fun c =>
    { c with status := .fullyApproved, approvedBy := some user })

/-- The transaction of `approve`. -/
def recordApproval (db : Db) (req : Request) (user ledger : Uuid) (claim : Claim) (level : ℤ) :
    Except AppError Db := do
  let total := ((linesOf db claim.id).map fun l => l.amount + l.taxAmount).sum
  let required := ApprovalRouting.requiredLevels db ledger total
  ensure (level ∈ required) (.validation ("level " ++ toString level ++
    " is not required for this claim (required: " ++ toString required ++ ")"))
  if level ∈ ApprovalRouting.recordedLevels db claim.id then .ok db
  else do
    ensure (ApprovalRouting.Eligible db ledger
      (ApprovalRouting.approverRoleForLevel db ledger level total) user) .forbidden
    ensure (¬ (1 < ApprovalRouting.ledgerUserCount db ledger ∧ claim.employeeId = user))
      (.forbiddenMsg "Authors cannot approve their own claims.")
    let db := { db with approvalSteps := db.approvalSteps ++
      [{ claimId := claim.id, level := level, approverId := user }] }
    if ∀ l ∈ required, l ∈ ApprovalRouting.recordedLevels db claim.id then
      postClaim db req user ledger claim
    else .ok (setStatus db ledger claim.id fun c => { c with status := .partiallyApproved })

/-- `approve`.  The level of the query defaults to `1`. -/
def approve (db : Db) (req : Request) (auth : Option Uuid) (ledger claim : Uuid)
    (violation : Option String) (level : Option ℤ) : Except AppError Unit × Db :=
  match authorize db auth ledger claim violation (level.getD 1) with
  | .error e => (.error e, db)
  | .ok (user, c) =>
    commit db ((recordApproval db req user ledger c (level.getD 1)).map fun db => ((), db))

/-! ## What it does -/

theorem legRows_transactionId {req : Request} :
    ∀ {k : ℕ} {legs : List (Uuid × ℚ × Direction)},
      ∀ r ∈ legRows req k legs, r.transactionId = req.txnId 0
  | _, [], r, hr => by simp [legRows] at hr
  | k, leg :: legs, r, hr => by
    simp only [legRows, List.mem_cons] at hr
    rcases hr with rfl | hr
    · rfl
    · exact legRows_transactionId r hr

/-- The books `b'` are those of `db` with the entry of the claim. -/
structure Posted (db : Db) (ledger claim : Uuid) (b' : Books) (payable : Uuid) (date : NaiveDate)
    (req : Request) (t : Transaction) (ps : List Posting) : Prop where
  payable_found : accountOf db.books ledger .liability .employeePayable = some payable
  earliest : ((linesOf db claim).map ClaimLine.txnDate).min? = some date
  header : t.header = { ledgerId := ledger, txnDate := date, kind := .standard }
  posts : Books.Posts db.books b' t ps
  stored : List.Forall₂ PostingRow.Stored (legRows req 0 (claimLegs (linesOf db claim) payable
    (accountOf db.books ledger .asset .employeeAdvance))) ps

theorem postClaim_spec {db db' : Db} {req : Request} {user ledger : Uuid} {claim : Claim}
    (h : postClaim db req user ledger claim = .ok db') :
    ∃ payable date b' ps,
      Posted db ledger claim.id b' payable date req (txnRow req user ledger claim date) ps ∧
      db' = setStatus { db with books := b' } ledger claim.id fun c =>
        { c with status := .fullyApproved, approvedBy := some user } := by
  simp only [postClaim, bind_eq_ok, okOr_eq_ok, mapError_eq_ok] at h
  obtain ⟨payable, hpayable, date, hdate, db₁, hentry, h⟩ := h
  obtain ⟨-, b', ps, rfl, hposts, hstored, -⟩ :=
    Db.insertEntry_spec (fun r hr => legRows_transactionId r hr) hentry
  cases h
  exact ⟨payable, date, b', ps, ⟨hpayable, hdate, rfl, hposts, hstored⟩, rfl⟩

theorem approve_outcome (db : Db) (req : Request) (auth : Option Uuid) (ledger claim : Uuid)
    (violation : Option String) (level : Option ℤ) :
    (approve db req auth ledger claim violation level).2.closedPeriods = db.closedPeriods ∧
      ((approve db req auth ledger claim violation level).2.books = db.books ∨
        ∃ payable date t ps, Posted db ledger claim
          (approve db req auth ledger claim violation level).2.books payable date req t ps) := by
  unfold approve
  cases hauth : authorize db auth ledger claim violation (level.getD 1) with
  | error e => exact ⟨rfl, Or.inl rfl⟩
  | ok r =>
    obtain ⟨user, c⟩ := r
    dsimp only
    cases hrecord : recordApproval db req user ledger c (level.getD 1) with
    | error e => exact ⟨rfl, Or.inl rfl⟩
    | ok db' =>
      simp only [authorize, bind_eq_ok, okOr_eq_ok, ensure_eq_ok] at hauth
      obtain ⟨_, -, _, -, c', hc, -, -, -, -, -, -, -, -, hpair⟩ := hauth
      cases hpair
      have hid : c.id = claim := by
        have hkey : c.id = claim ∧ c.ledgerId = ledger := by simpa using List.find?_some hc
        exact hkey.1
      simp only [recordApproval, bind_eq_ok] at hrecord
      obtain ⟨_, -, hrecord⟩ := hrecord
      split at hrecord
      · cases hrecord
        exact ⟨rfl, Or.inl rfl⟩
      · simp only [bind_eq_ok] at hrecord
        obtain ⟨_, -, _, -, hrecord⟩ := hrecord
        split at hrecord
        · obtain ⟨payable, date, b', ps, hposted, rfl⟩ := postClaim_spec hrecord
          rw [hid] at hposted
          -- The step that was recorded touches neither the books nor the lines.
          exact ⟨rfl, Or.inr ⟨payable, date, _, ps, hposted.payable_found, hposted.earliest,
            hposted.header, hposted.posts, hposted.stored⟩⟩
        · cases hrecord
          exact ⟨rfl, Or.inl rfl⟩

theorem approve_cases (db : Db) (req : Request) (auth : Option Uuid) (ledger claim : Uuid)
    (violation : Option String) (level : Option ℤ) :
    (approve db req auth ledger claim violation level).2.closedPeriods = db.closedPeriods ∧
      ((approve db req auth ledger claim violation level).2.books = db.books ∨
        ∃ date t ps, ((linesOf db claim).map ClaimLine.txnDate).min? = some date ∧
          t.header = { ledgerId := ledger, txnDate := date, kind := .standard } ∧
          Books.Posts db.books (approve db req auth ledger claim violation level).2.books t ps) := by
  obtain ⟨hclosed, hsame | ⟨payable, date, t, ps, hposted⟩⟩ :=
    approve_outcome db req auth ledger claim violation level
  · exact ⟨hclosed, Or.inl hsame⟩
  · exact ⟨hclosed, Or.inr ⟨date, t, ps, hposted.earliest, hposted.header, hposted.posts⟩⟩

/-! ## The statements of the transaction one by one -/

/-- `SELECT COALESCE(SUM(amount + tax_amount), 0)`. -/
def claimTotal (db : Db) (claim : Uuid) : ℚ :=
  ((linesOf db claim).map fun l => l.amount + l.taxAmount).sum

/-- The statements before the insert: the required levels, or nothing if the level is recorded
already. -/
def readLevels (db : Db) (user ledger : Uuid) (claim : Claim) (level : ℤ) :
    Except AppError (Option (List ℤ)) := do
  let total := claimTotal db claim.id
  let required := ApprovalRouting.requiredLevels db ledger total
  ensure (level ∈ required) (.validation ("level " ++ toString level ++
    " is not required for this claim (required: " ++ toString required ++ ")"))
  if level ∈ ApprovalRouting.recordedLevels db claim.id then .ok none
  else do
    ensure (ApprovalRouting.Eligible db ledger
      (ApprovalRouting.approverRoleForLevel db ledger level total) user) .forbidden
    ensure (¬ (1 < ApprovalRouting.ledgerUserCount db ledger ∧ claim.employeeId = user))
      (.forbiddenMsg "Authors cannot approve their own claims.")
    .ok (some required)

def addStep (db : Db) (claim : Uuid) (level : ℤ) (user : Uuid) : Db :=
  { db with approvalSteps := db.approvalSteps ++
    [{ claimId := claim, level := level, approverId := user }] }

/-- With the row every required level is recorded. -/
def Completes (db : Db) (user : Uuid) (claim : Uuid) (level : ℤ) (required : List ℤ) : Prop :=
  ∀ l ∈ required, l ∈ ApprovalRouting.recordedLevels (addStep db claim level user) claim

instance (db : Db) (user claim : Uuid) (level : ℤ) (required : List ℤ) :
    Decidable (Completes db user claim level required) := by
  unfold Completes
  infer_instance

/-- The statements after the last read. -/
def finishApproval (db : Db) (req : Request) (user ledger : Uuid) (claim : Claim) (full : Bool) :
    Except AppError Db :=
  if full then postClaim db req user ledger claim
  else .ok (setStatus db ledger claim.id fun c => { c with status := .partiallyApproved })

theorem recordApproval_eq (db : Db) (req : Request) (user ledger : Uuid) (claim : Claim)
    (level : ℤ) :
    recordApproval db req user ledger claim level =
      match readLevels db user ledger claim level with
      | .error e => .error e
      | .ok none => .ok db
      | .ok (some required) => finishApproval (addStep db claim.id level user) req user ledger claim
          (decide (Completes db user claim.id level required)) := by
  have htotal : ((linesOf db claim.id).map fun l => l.amount + l.taxAmount).sum =
      claimTotal db claim.id := rfl
  simp only [recordApproval, readLevels, htotal]
  by_cases hlevel : level ∈ ApprovalRouting.requiredLevels db ledger (claimTotal db claim.id)
  · by_cases hrecorded : level ∈ ApprovalRouting.recordedLevels db claim.id
    · simp [ensure, hlevel, hrecorded, bind, Except.bind]
    · by_cases heligible : ApprovalRouting.Eligible db ledger
          (ApprovalRouting.approverRoleForLevel db ledger level (claimTotal db claim.id)) user
      · by_cases hself : 1 < ApprovalRouting.ledgerUserCount db ledger ∧ claim.employeeId = user
        · simp [ensure, hlevel, hrecorded, heligible, hself, bind, Except.bind]
        · simp only [ensure, hlevel, hrecorded, heligible, hself, if_true, if_false, bind,
            Except.bind, finishApproval, not_false_eq_true, decide_eq_true_eq]
          rfl
      · simp [ensure, hlevel, hrecorded, heligible, bind, Except.bind]
  · simp [ensure, hlevel, bind, Except.bind]

theorem mem_recordedLevels_addStep {db : Db} {claim user : Uuid} {level l : ℤ} :
    l ∈ ApprovalRouting.recordedLevels (addStep db claim level user) claim ↔
      l = level ∨ l ∈ ApprovalRouting.recordedLevels db claim := by
  rw [ApprovalRouting.mem_recordedLevels, ApprovalRouting.mem_recordedLevels, addStep]
  simp only [List.mem_append, List.mem_singleton]
  constructor
  · rintro ⟨s, hs | rfl, hclaim, hlevel⟩
    · exact Or.inr ⟨s, hs, hclaim, hlevel⟩
    · exact Or.inl hlevel.symm
  · rintro (rfl | ⟨s, hs, hclaim, hlevel⟩)
    · exact ⟨_, Or.inr rfl, rfl, rfl⟩
    · exact ⟨s, Or.inl hs, hclaim, hlevel⟩

theorem postClaim_rows {db db' : Db} {req : Request} {user ledger : Uuid} {claim : Claim}
    (h : postClaim db req user ledger claim = .ok db') :
    ∃ date b', b'.transactions = db.books.transactions ++ [txnRow req user ledger claim date] ∧
      db' = setStatus { db with books := b' } ledger claim.id fun c =>
        { c with status := .fullyApproved, approvedBy := some user } := by
  obtain ⟨payable, date, b', ps, hposted, hdb'⟩ := postClaim_spec h
  exact ⟨date, b', hposted.posts.transactions, hdb'⟩

end Reimbursement

end OpenAccounting

/-!
## Paying a reimbursement claim

`pay` of `handlers/reimbursement.rs`.  The status and the payout account are checked first.  A
transaction then looks up the payable account and the latest entry with the reference of the claim,
adds up what that entry credits to payable accounts, and posts the payout by that amount.

The row of the payout is inserted twice: first without postings, and then once more, for the entry.
-/

namespace OpenAccounting.Reimbursement

open Calendar Commit

/-! ## Before the transaction -/

/-- `can_transition_to` of `domain/reimbursement.rs`. -/
def CanTransitionTo : ClaimStatus → ClaimStatus → Bool
  | .draft, .submitted => true
  | .submitted, .partiallyApproved => true
  | .submitted, .fullyApproved => true
  | .submitted, .rejected => true
  | .partiallyApproved, .partiallyApproved => true
  | .partiallyApproved, .fullyApproved => true
  | .fullyApproved, .paid => true
  | .approved, .paid => true
  | .rejected, .draft => true
  | _, _ => false

/-- The payout account is a cash or bank account. -/
def PaysOut (a : Account) : Prop :=
  a.type = .asset ∧
    (a.subtype = .currentAsset ∨ a.subtype = .otherAsset ∨ a.subtype = .employeeAdvance ∨
      RustStr.contains "cash" a.subtype.asStr.toLower = true ∨
      RustStr.contains "bank" a.subtype.asStr.toLower = true)

instance (a : Account) : Decidable (PaysOut a) := by
  unfold PaysOut
  infer_instance

/-- The checks before the transaction. -/
def checkPay (db : Db) (auth : Option Uuid) (ledger claim payout : Uuid) :
    Except AppError (Uuid × Claim) := do
  let user ← okOr auth .unauthorized
  let _ ← db.ensureWriter user ledger
  let c ← okOr (db.claims.find? fun c => c.id = claim ∧ c.ledgerId = ledger) .notFound
  ensure (CanTransitionTo c.status .paid = true)
    (.validation ("claim cannot be paid from status '" ++ c.status.asStr ++ "'"))
  let a ← okOr (db.books.accounts.find? fun a => a.id = payout ∧ a.ledgerId = ledger)
    (.validation "payout account not in ledger")
  ensure (PaysOut a) (.validation ("payout account must be cash or bank (subtype=" ++
    a.subtype.asStr ++ ", type=" ++ a.type.asStr ++ ")"))
  .ok (user, c)

/-! ## The transaction -/

/-- The transactions with the reference of the claim. -/
def referenced (db : Db) (ledger : Uuid) (c : Claim) : List Transaction :=
  db.books.transactions.filter fun t => t.ledgerId = ledger ∧ t.reference = some c.shortId

/-- `ORDER BY created_at DESC LIMIT 1`.  Among rows of one time the database may take any. -/
def latest (tie : ℕ) (rows : List Transaction) : Option Transaction :=
  let newest := rows.filter fun t => ∀ u ∈ rows, u.createdAt ≤ t.createdAt
  newest[tie % newest.length]?

/-- The payable account and the entry the payout refers to. -/
def locate (db : Db) (tie : ℕ) (ledger : Uuid) (c : Claim) : Except AppError (Uuid × Uuid) := do
  let payable ← okOr (accountOf db.books ledger .liability .employeePayable)
    (.internal "no EMPLOYEE_PAYABLE account in ledger")
  let t ← okOr (latest tie (referenced db ledger c))
    (.internal "no approved transaction found for claim")
  .ok (payable, t.id)

/-- What a transaction credits to payable accounts. -/
def netPayable (b : Books) (txn : Uuid) : ℚ :=
  Posting.sumOn .credit ((b.postingsOf txn).filter fun p =>
    ∃ a ∈ b.accounts, a.id = p.accountId ∧ a.subtype = .employeePayable)

/-- The `n`-th row of a payout.  Both have the same values. -/
def payoutRow (req : Request) (n : ℕ) (user ledger : Uuid) (c : Claim) : Transaction where
  id := req.txnId n
  ledgerId := ledger
  txnDate := req.today
  description := "Reimbursement payout " ++ c.shortId
  payee := some c.employeeName
  reference := some c.shortId
  currency := c.currency
  kind := .standard
  createdBy := user
  createdAt := req.now

/-- The debit of the payable account and the credit of the payout account. -/
def payoutLegs (req : Request) (payable payout : Uuid) (net : ℚ) : List PostingRow :=
  [{ id := req.postingId 1 0, transactionId := req.txnId 1, accountId := payable, amount := net,
     direction := .debit },
   { id := req.postingId 1 1, transactionId := req.txnId 1, accountId := payout, amount := net,
     direction := .credit }]

/-- The statements after the reads. -/
def payOut (db : Db) (req : Request) (user ledger : Uuid) (c : Claim) (payable payout : Uuid)
    (net : ℚ) : Except AppError Db := do
  let db ← mapError .db (db.insertTransaction (payoutRow req 0 user ledger c))
  let db ← mapError .db
    (db.insertEntry (payoutRow req 1 user ledger c) (payoutLegs req payable payout net))
  .ok (setStatus db ledger c.id fun c => { c with status := .paid })

def pay (db : Db) (req : Request) (tie : ℕ) (auth : Option Uuid) (ledger claim payout : Uuid) :
    Except AppError Unit × Db :=
  match checkPay db auth ledger claim payout with
  | .error e => (.error e, db)
  | .ok (user, c) => commit db do
      let (payable, txn) ← locate db tie ledger c
      let db ← payOut db req user ledger c payable payout (netPayable db.books txn)
      .ok ((), db)

/-! ## What it does -/

/-- A payout that is posted. -/
structure PaidOut (db db' : Db) (req : Request) (user ledger : Uuid) (c : Claim)
    (payable payout : Uuid) (net : ℚ) (debit credit : Posting) : Prop where
  transactions : db'.books.transactions =
    db.books.transactions ++ [payoutRow req 0 user ledger c, payoutRow req 1 user ledger c]
  postings : db'.books.postings = db.books.postings ++ [debit, credit]
  accounts : db'.books.accounts = db.books.accounts
  debited : debit.transactionId = req.txnId 1 ∧ debit.accountId = payable ∧
    debit.direction = .debit ∧ debit.amount = Rounding.roundDp 4 net
  credited : credit.transactionId = req.txnId 1 ∧ credit.accountId = payout ∧
    credit.direction = .credit ∧ credit.amount = Rounding.roundDp 4 net
  claims : db'.claims = db.claims.map fun x =>
    if x.id = c.id ∧ x.ledgerId = ledger then { x with status := .paid } else x

theorem payOut_spec {db db' : Db} {req : Request} {user ledger : Uuid} {c : Claim}
    {payable payout : Uuid} {net : ℚ}
    (h : payOut db req user ledger c payable payout net = .ok db') :
    ∃ debit credit, PaidOut db db' req user ledger c payable payout net debit credit := by
  simp only [payOut, bind_eq_ok, mapError_eq_ok] at h
  obtain ⟨db₁, hbare, db₂, hentry, h⟩ := h
  obtain ⟨-, hfresh, rfl⟩ := Db.insertTransaction_spec hbare
  have howned : ∀ r ∈ payoutLegs req payable payout net,
      r.transactionId = (payoutRow req 1 user ledger c).id := by
    intro r hr
    simp only [payoutLegs, List.mem_cons, List.not_mem_nil, or_false] at hr
    rcases hr with rfl | rfl <;> rfl
  obtain ⟨-, b', ps, rfl, hposts, hstored, -⟩ := Db.insertEntry_spec howned hentry
  cases h
  simp only [payoutLegs, List.forall₂_cons_left_iff, List.forall₂_nil_left_iff] at hstored
  obtain ⟨debit, _, hdebit, ⟨credit, _, hcredit, rfl, rfl⟩, rfl⟩ := hstored
  have hbooks : (db.books.addTxn (payoutRow req 0 user ledger c) hfresh).transactions =
      db.books.transactions ++ [payoutRow req 0 user ledger c] := rfl
  refine ⟨debit, credit, ?_, hposts.postings, hposts.accounts,
    ⟨hdebit.transactionId, hdebit.accountId, hdebit.direction, hdebit.amount⟩,
    ⟨hcredit.transactionId, hcredit.accountId, hcredit.direction, hcredit.amount⟩, rfl⟩
  show b'.transactions = _
  rw [hposts.transactions, hbooks, List.append_assoc]
  rfl

end OpenAccounting.Reimbursement
