import OpenAccounting.Db.Statements
import OpenAccounting.Domain.CloseControls

/-!
# The posting service

`PostingService` of `domain/posting_service.rs`: `create`, `create_draft`,
`post_draft`, `delete_draft`, `approve_journal` and `reject_journal`.

Creating a transaction validates the lines in memory, writes inside one database
transaction that starts with `ALTER TABLE postings DISABLE TRIGGER`, and inserts
the approval row of a pending journal after the commit, by a statement of its
own.  The audit row and the event that follow are best effort and write neither
books nor approvals.
-/

namespace OpenAccounting

open Calendar Commit

/-- How the service fails. -/
inductive PostingServiceError where
  | unbalanced (debits credits : ℚ)
  | hardClosed (ledgerId : Uuid) (closedThrough : NaiveDate)
  | selfApproval
  | notPending
  | ledgerNotFound
  | unknownAccount (id : Uuid)
  | wrongLedger (id : Uuid)
  | unknownCostCenter (id : Uuid)
  | unknownProject (id : Uuid)
  | duplicateNumber (year : ℤ) (number : String)
  | missingFxRate (message : String)
  | db (e : SqlError)
deriving DecidableEq

/-- A tax attribution of one line. -/
structure TaxLink where
  /-- Index of the taxed line. -/
  postingIdx : ℕ
  taxRateId : Uuid
  baseAmount : ℚ
  taxAmount : ℚ
deriving DecidableEq

/-- What a caller asks the service to insert. -/
structure NewTransaction where
  ledgerId : Uuid
  txnDate : NaiveDate
  description : String
  payee : Option String := none
  reference : Option String := none
  kind : Option String := none
  createdBy : Uuid
  lines : List TxnLineInput
  reversesId : Option Uuid := none
  number : Option String := none
  taxLinks : List TaxLink := []
deriving DecidableEq

/-- The result of a write. -/
structure CreatedTransaction where
  id : Uuid
  kind : TxnKind
  number : Option String
deriving DecidableEq

namespace Fx

/-- `derive_base_amount`: the foreign amount at the rate, to cents.  The product is exact here, and
that of the decimal library in `Stepwise.effectiveAmount`. -/
def deriveBaseAmount (foreignAmount rate : ℚ) : ℚ := Rounding.roundDp 2 (foreignAmount * rate)

end Fx

namespace PostingService

/-! ## Amounts -/

/-- The base-currency amount of one line. -/
def effectiveAmount (req : Request) (baseCurrency : String) (date : NaiveDate)
    (l : TxnLineInput) : Except PostingServiceError ℚ :=
  match l.foreign with
  | some f => do
    let rate ← mapError .missingFxRate (req.fxLookup f.currency baseCurrency date)
    .ok (Fx.deriveBaseAmount f.signedAmount rate)
  | none => .ok l.signedAmount

/-- The base-currency amounts of the lines, in order. -/
def effectiveAmounts (req : Request) (baseCurrency : String) (date : NaiveDate) :
    List TxnLineInput → Except PostingServiceError (List ℚ)
  | [] => .ok []
  | l :: ls => do
    let amount ← effectiveAmount req baseCurrency date l
    let rest ← effectiveAmounts req baseCurrency date ls
    .ok (amount :: rest)

/-- The sum of the amounts that count as debits. -/
def debitTotal (amounts : List ℚ) : ℚ := (amounts.map fun a => if 0 ≤ a then a else 0).sum

/-- The sum of the amounts that count as credits, without their sign. -/
def creditTotal (amounts : List ℚ) : ℚ := (amounts.map fun a => if 0 ≤ a then 0 else -a).sum

/-- The amounts in base currency.  The base currency is only read when a line has
a foreign leg. -/
def resolveAmounts (db : Db) (req : Request) (new : NewTransaction) :
    Except PostingServiceError (List ℚ) :=
  if new.lines.any fun l => l.foreign.isSome then do
    let ledger ← okOr (db.findLedger new.ledgerId) .ledgerNotFound
    effectiveAmounts req ledger.baseCurrency new.txnDate new.lines
  else .ok (new.lines.map TxnLineInput.signedAmount)

/-- The validation before the database transaction. -/
def validate (db : Db) (req : Request) (new : NewTransaction) :
    Except PostingServiceError (List ℚ) := do
  ensure (2 ≤ new.lines.length) (.unbalanced 0 0)
  let effective ← resolveAmounts db req new
  ensure (debitTotal effective = creditTotal effective)
    (.unbalanced (debitTotal effective) (creditTotal effective))
  .ok effective

/-! ## Checks inside the transaction -/

/-- The hard-close check for one date. -/
def checkOpen (db : Db) (ledger : Uuid) (date : NaiveDate) : Except PostingServiceError Unit :=
  ensure (¬ db.Closed ledger date) (.hardClosed ledger ((db.closedThrough ledger).getD date))

/-- Every account exists in the ledger. -/
def checkAccounts (b : Books) (ledger : Uuid) :
    List TxnLineInput → Except PostingServiceError Unit
  | [] => .ok ()
  | l :: ls => do
    ensure (∃ a ∈ b.accounts, a.id = l.accountId ∧ a.ledgerId = ledger)
      (if l.accountId ∈ b.accountIds then .wrongLedger l.accountId
        else .unknownAccount l.accountId)
    checkAccounts b ledger ls

/-- Every cost center and project exists in the ledger. -/
def checkDimensions (db : Db) (ledger : Uuid) :
    List TxnLineInput → Except PostingServiceError Unit
  | [] => .ok ()
  | l :: ls => do
    ensure (l.costCenterId.all fun cc => ∃ r ∈ db.costCenters, r.id = cc ∧ r.ledgerId = ledger)
      (.unknownCostCenter (l.costCenterId.getD 0))
    ensure (l.projectId.all fun p => ∃ r ∈ db.projects, r.id = p ∧ r.ledgerId = ledger)
      (.unknownProject (l.projectId.getD 0))
    checkDimensions db ledger ls

/-- The number of the transaction: the caller's, if it is free in the year, or
the next of the counter. -/
def resolveNumber (b : Books) (new : NewTransaction) :
    Except PostingServiceError (Option String) :=
  let year := new.txnDate.year
  match RustStr.nonEmptyTrimmed new.number with
  | some number => do
    ensure (∀ t ∈ b.transactions, ¬ (t.ledgerId = new.ledgerId ∧
        Transaction.numberYear t.txnDate = year ∧ t.number = some number))
      (.duplicateNumber year number)
    .ok (some number)
  | none =>
    let count := (b.transactions.filter fun t =>
      t.ledgerId = new.ledgerId ∧ Transaction.numberYear t.txnDate = year).length
    .ok (some (toString year ++ "-" ++ RustStr.padZero 6 (count + 1)))

/-- The maker-checker gate: the kind to write, and whether the journal waits for
approval. -/
def makerChecker (ledger : Ledger) (requested : String) (isDraft : Bool) (journalTotal : ℚ) :
    String × Bool :=
  if isDraft = false ∧ (requested = "standard" ∨ requested = "adjusting") ∧
      0 ≤ ledger.approvalThreshold ∧ ledger.approvalThreshold ≤ journalTotal then
    ("pending", true)
  else (requested, false)

/-! ## Writing -/

/-- The posting of the `k`-th line. -/
def lineRow (req : Request) (k : ℕ) (l : TxnLineInput) (effective : ℚ) : PostingRow where
  id := req.postingId 0 k
  transactionId := req.txnId 0
  accountId := l.accountId
  amount := |effective|
  direction := .ofSigned effective
  memo := l.memo
  foreignAmount := l.foreign.map fun f => |f.signedAmount|
  foreignCurrency := l.foreign.map ForeignLeg.currency
  costCenterId := l.costCenterId
  projectId := l.projectId

/-- The postings of the lines from the `k`-th on. -/
def lineRows (req : Request) : ℕ → List TxnLineInput → List ℚ → List PostingRow
  | k, l :: ls, a :: amounts => lineRow req k l a :: lineRows req (k + 1) ls amounts
  | _, _, _ => []

@[simp] theorem lineRows_nil (req : Request) (k : ℕ) (amounts : List ℚ) :
    lineRows req k [] amounts = [] := rfl

@[simp] theorem lineRows_cons (req : Request) (k : ℕ) (l : TxnLineInput) (ls : List TxnLineInput)
    (a : ℚ) (amounts : List ℚ) : lineRows req k (l :: ls) (a :: amounts) =
      lineRow req k l a :: lineRows req (k + 1) ls amounts := rfl

def insertPostingTax (db : Db) (r : PostingTax) : Except SqlError Db := do
  ensure (∃ x ∈ db.taxRates, x.id = r.taxRateId) (.foreignKeyViolation "tax_rate_id")
  ensure (∀ x ∈ db.postingTaxes, ¬ (x.postingId = r.postingId ∧ x.taxRateId = r.taxRateId))
    (.uniqueViolation "posting_taxes")
  let taxAmount ← okOr (amountColumn r.taxAmount) .numericFieldOverflow
  let baseAmount ← okOr (amountColumn r.baseAmount) .numericFieldOverflow
  .ok { db with
    postingTaxes := db.postingTaxes ++
      [{ r with taxAmount := taxAmount, baseAmount := baseAmount }] }

/-- The tax attributions, in order. -/
def insertTaxLinks (postingIds : List Uuid) (db : Db) :
    List TaxLink → Except PostingServiceError Db
  | [] => .ok db
  | link :: rest => do
    let posting ← okOr postingIds[link.postingIdx]? (.unbalanced 0 0)
    let db ← mapError .db (insertPostingTax db
      { postingId := posting, taxRateId := link.taxRateId,
        taxAmount := link.taxAmount, baseAmount := link.baseAmount })
    insertTaxLinks postingIds db rest

def txnRow (req : Request) (ledger : Ledger) (new : NewTransaction) (kind : TxnKind)
    (number : Option String) : Transaction where
  id := req.txnId 0
  ledgerId := new.ledgerId
  txnDate := new.txnDate
  description := new.description
  payee := new.payee
  reference := new.reference
  currency := ledger.baseCurrency
  kind := kind
  createdBy := new.createdBy
  reversesId := new.reversesId
  number := number
  createdAt := req.now

/-- The database transaction of `create_with_kind`. -/
def writeTransaction (db : Db) (req : Request) (new : NewTransaction) (isDraft : Bool)
    (effective : List ℚ) : Except PostingServiceError ((CreatedTransaction × Bool) × Db) := do
  -- `ALTER TABLE postings DISABLE TRIGGER trg_posting_balance`.
  let db := { db with balanceTrigger := false }
  let ledger ← okOr (db.findLedger new.ledgerId) .ledgerNotFound
  ensure (isDraft = true ∨ ¬ db.Closed new.ledgerId new.txnDate)
    (.hardClosed new.ledgerId ((db.closedThrough new.ledgerId).getD new.txnDate))
  checkAccounts db.books new.ledgerId new.lines
  checkDimensions db new.ledgerId new.lines
  let number ← resolveNumber db.books new
  let gate := makerChecker ledger (new.kind.getD "standard") isDraft (debitTotal effective)
  let kind ← okOr (TxnKind.fromDb gate.1) (.db (.checkViolation "transactions_kind_check"))
  let rows := lineRows req 0 new.lines effective
  let db ← mapError .db (db.insertEntry (txnRow req ledger new kind number) rows)
  let db ← insertTaxLinks (rows.map PostingRow.id) db new.taxLinks
  .ok (({ id := req.txnId 0, kind := kind, number := number }, gate.2), db)

/-- `INSERT INTO journal_approvals … ON CONFLICT (txn_id) DO NOTHING`. -/
def insertApproval (db : Db) (a : JournalApproval) : Except SqlError Db := do
  let amount ← okOr (amountColumn a.amount) .numericFieldOverflow
  .ok { db with
    approvals :=
      if ∃ x ∈ db.approvals, x.txnId = a.txnId then db.approvals
      else db.approvals ++ [{ a with amount := amount }] }

def createWithKind (db : Db) (req : Request) (new : NewTransaction) (isDraft : Bool) :
    Except PostingServiceError CreatedTransaction × Db :=
  match validate db req new with
  | .error e => (.error e, db)
  | .ok effective =>
    match commit db (writeTransaction db req new isDraft effective) with
    | (.error e, db) => (.error e, db)
    | (.ok (created, false), db) => (.ok created, db)
    | (.ok (created, true), db) =>
      -- The journal is committed already: a failure here leaves it pending
      -- without an approval row.
      match insertApproval db
          { txnId := created.id, ledgerId := new.ledgerId, maker := new.createdBy,
            amount := debitTotal effective } with
      | .ok db => (.ok created, db)
      | .error e => (.error (.db e), db)

def create (db : Db) (req : Request) (new : NewTransaction) :
    Except PostingServiceError CreatedTransaction × Db :=
  createWithKind db req new false

def createDraft (db : Db) (req : Request) (new : NewTransaction) :
    Except PostingServiceError CreatedTransaction × Db :=
  createWithKind db req { new with kind := some "draft" } true

/-! ## Drafts and approvals -/

def postDraft (db : Db) (ledger txn : Uuid) : Except PostingServiceError CreatedTransaction × Db :=
  commit db do
    ensure (db.HasLedger ledger) .ledgerNotFound
    let draft ← okOr (db.books.findTxnIn txn ledger) .ledgerNotFound
    ensure (draft.kind = .draft) (.unbalanced 0 0)
    checkOpen db ledger draft.txnDate
    let db ← mapError .db (db.setKind txn .standard)
    .ok ({ id := txn, kind := .standard, number := none }, db)

def deleteDraft (db : Db) (ledger txn : Uuid) : Except PostingServiceError Unit × Db :=
  commit db do
    let draft ← okOr (db.books.findTxnIn txn ledger) .ledgerNotFound
    ensure (draft.kind = .draft) (.unbalanced 0 0)
    -- The postings are deleted by a statement of their own and would go with
    -- the row in any case.
    let db ← mapError .db (db.deleteTransaction txn)
    .ok ((), db)

/-- `SELECT maker, status FROM journal_approvals WHERE txn_id = $1 AND ledger_id = $2`. -/
def findApproval (db : Db) (ledger txn : Uuid) : Option JournalApproval :=
  db.approvals.find? fun a => a.txnId = txn ∧ a.ledgerId = ledger

/-- `UPDATE journal_approvals SET status = …, checker = … WHERE txn_id = $1`. -/
def decideApproval (db : Db) (txn checker : Uuid) (status : ApprovalStatus) : Db :=
  { db with
    approvals := db.approvals.map fun a =>
      if a.txnId = txn then { a with status := status, checker := some checker } else a }

/-- What `approve_journal` and `reject_journal` check first. -/
def checkPending (db : Db) (ledger txn checker : Uuid) : Except PostingServiceError Unit := do
  let row ← okOr (findApproval db ledger txn) .notPending
  ensure (row.status = .pending) .notPending
  ensure (row.maker ≠ checker) .selfApproval

def approveJournal (db : Db) (ledger txn checker : Uuid) : Except PostingServiceError Unit × Db :=
  commit db do
    checkPending db ledger txn checker
    let db ← mapError .db (db.setKindIn txn ledger .standard)
    .ok ((), decideApproval db txn checker .approved)

def rejectJournal (db : Db) (ledger txn checker : Uuid) : Except PostingServiceError Unit × Db :=
  commit db do
    checkPending db ledger txn checker
    let db ← mapError .db (db.setKind txn .draft)
    .ok ((), decideApproval db txn checker .rejected)

/-! ## Amounts of validated lines -/

/-- The debit total of the amounts as the postings store them. -/
def storedDebitTotal (amounts : List ℚ) : ℚ :=
  (amounts.map fun a => if 0 ≤ a then Rounding.roundDp 4 a else 0).sum

theorem debitTotal_sub_creditTotal (amounts : List ℚ) :
    debitTotal amounts - creditTotal amounts = amounts.sum := by
  induction amounts with
  | nil => simp [debitTotal, creditTotal]
  | cons a amounts ih =>
    rw [List.sum_cons, ← ih]
    simp only [debitTotal, creditTotal, List.map_cons, List.sum_cons]
    split
    · ring
    · ring

theorem balanced_iff_sum (amounts : List ℚ) :
    debitTotal amounts = creditTotal amounts ↔ amounts.sum = 0 := by
  rw [← debitTotal_sub_creditTotal, sub_eq_zero]

variable {req : Request} {db db' : Db} {new : NewTransaction} {effective : List ℚ} {isDraft : Bool}
  {ps : List Posting} {t : Transaction}

theorem effectiveAmounts_length {base : String} {date : NaiveDate} :
    ∀ {ls : List TxnLineInput} {amounts : List ℚ},
      effectiveAmounts req base date ls = .ok amounts → amounts.length = ls.length
  | [], amounts, h => by
    cases h
    rfl
  | l :: ls, amounts, h => by
    simp only [effectiveAmounts, bind_eq_ok] at h
    obtain ⟨a, -, rest, hrest, h⟩ := h
    cases h
    simp [effectiveAmounts_length hrest]

/-- Lines of at most four decimals have effective amounts of at most four. -/
theorem effectiveAmounts_hasScale {base : String} {date : NaiveDate} :
    ∀ {ls : List TxnLineInput} {amounts : List ℚ},
      (∀ l ∈ ls, Rounding.HasScale 4 l.signedAmount) →
      effectiveAmounts req base date ls = .ok amounts →
      ∀ a ∈ amounts, Rounding.HasScale 4 a
  | [], amounts, _, h => by
    cases h
    simp
  | l :: ls, amounts, hscale, h => by
    simp only [effectiveAmounts, bind_eq_ok] at h
    obtain ⟨a, ha, rest, hrest, h⟩ := h
    cases h
    intro x hx
    rcases List.mem_cons.mp hx with rfl | hx
    · unfold effectiveAmount at ha
      split at ha
      · -- A foreign leg is rounded to cents.
        rw [bind_eq_ok] at ha
        obtain ⟨rate, -, ha⟩ := ha
        cases ha
        exact (Rounding.hasScale_roundDp 2 _).mono (by omega)
      · cases ha
        exact hscale l List.mem_cons_self
    · exact effectiveAmounts_hasScale (fun m hm => hscale m (List.mem_cons_of_mem _ hm))
        hrest x hx

theorem resolveAmounts_length {amounts : List ℚ} (h : resolveAmounts db req new = .ok amounts) :
    amounts.length = new.lines.length := by
  unfold resolveAmounts at h
  split at h
  · rw [bind_eq_ok] at h
    obtain ⟨ledger, -, h⟩ := h
    exact effectiveAmounts_length h
  · cases h
    simp

theorem resolveAmounts_hasScale {amounts : List ℚ}
    (hscale : ∀ l ∈ new.lines, Rounding.HasScale 4 l.signedAmount)
    (h : resolveAmounts db req new = .ok amounts) : ∀ a ∈ amounts, Rounding.HasScale 4 a := by
  unfold resolveAmounts at h
  split at h
  · rw [bind_eq_ok] at h
    obtain ⟨ledger, -, h⟩ := h
    exact effectiveAmounts_hasScale hscale h
  · cases h
    intro a ha
    obtain ⟨l, hl, rfl⟩ := List.mem_map.mp ha
    exact hscale l hl

theorem validate_spec (h : validate db req new = .ok effective) :
    2 ≤ new.lines.length ∧ resolveAmounts db req new = .ok effective ∧
      debitTotal effective = creditTotal effective := by
  simp only [validate, bind_eq_ok, ensure_eq_ok] at h
  obtain ⟨-, hlen, amounts, hamounts, -, hbalance, h⟩ := h
  cases h
  exact ⟨hlen, hamounts, hbalance⟩

/-! ## Rows of validated lines -/

theorem lineRows_transactionId :
    ∀ {k : ℕ} {ls : List TxnLineInput} {amounts : List ℚ},
      ∀ r ∈ lineRows req k ls amounts, r.transactionId = req.txnId 0
  | _, [], _, r, hr => by simp at hr
  | _, _ :: _, [], r, hr => by cases hr
  | k, l :: ls, a :: amounts, r, hr => by
    simp only [lineRows_cons, List.mem_cons] at hr
    rcases hr with rfl | hr
    · rfl
    · exact lineRows_transactionId r hr

theorem lineRows_length :
    ∀ {k : ℕ} {ls : List TxnLineInput} {amounts : List ℚ}, amounts.length = ls.length →
      (lineRows req k ls amounts).length = ls.length
  | _, [], _, _ => rfl
  | _, _ :: _, [], h => by simp at h
  | k, l :: ls, a :: amounts, h => by
    simp only [List.length_cons, Nat.add_right_cancel_iff] at h
    simp [lineRows_length h]

theorem lineRows_debits (req : Request) :
    ∀ (k : ℕ) {ls : List TxnLineInput} {amounts : List ℚ}, amounts.length = ls.length →
      PostingRow.sumOn .debit (lineRows req k ls amounts) = storedDebitTotal amounts
  | _, [], [], _ => rfl
  | _, [], _ :: _, h => by simp at h
  | _, _ :: _, [], h => by simp at h
  | k, l :: ls, a :: amounts, h => by
    simp only [List.length_cons, Nat.add_right_cancel_iff] at h
    have ih := lineRows_debits req (k + 1) h
    simp only [PostingRow.sumOn, storedDebitTotal] at ih
    simp only [lineRows_cons, PostingRow.sumOn, storedDebitTotal, List.map_cons, List.sum_cons, ih]
    by_cases ha : 0 ≤ a
    · simp [lineRow, Direction.ofSigned, ha, abs_of_nonneg ha]
    · simp [lineRow, Direction.ofSigned, ha]

/-- Debits minus credits of the rows is debits minus credits of the amounts, when
storing rounds nothing. -/
theorem lineRows_net (req : Request) :
    ∀ (k : ℕ) {ls : List TxnLineInput} {amounts : List ℚ}, amounts.length = ls.length →
      (∀ a ∈ amounts, Rounding.HasScale 4 a) →
      PostingRow.sumOn .debit (lineRows req k ls amounts) = debitTotal amounts ∧
        PostingRow.sumOn .credit (lineRows req k ls amounts) = creditTotal amounts
  | _, [], [], _, _ => ⟨rfl, rfl⟩
  | _, [], _ :: _, h, _ => by simp at h
  | _, _ :: _, [], h, _ => by simp at h
  | k, l :: ls, a :: amounts, h, hscale => by
    simp only [List.length_cons, Nat.add_right_cancel_iff] at h
    have ih := lineRows_net req (k + 1) h
      (fun x hx => hscale x (List.mem_cons_of_mem _ hx))
    have hround : Rounding.roundDp 4 |a| = |a| :=
      Rounding.roundDp_of_hasScale (hscale a List.mem_cons_self).abs
    simp only [PostingRow.sumOn, debitTotal, creditTotal] at ih
    obtain ⟨ihd, ihc⟩ := ih
    simp only [lineRows_cons, PostingRow.sumOn, debitTotal, creditTotal, List.map_cons,
      List.sum_cons, ihd, ihc]
    by_cases ha : 0 ≤ a
    · rw [abs_of_nonneg ha] at hround
      simp [lineRow, Direction.ofSigned, ha, hround, abs_of_nonneg ha]
    · rw [abs_of_neg (not_le.mp ha)] at hround
      simp [lineRow, Direction.ofSigned, ha, hround, abs_of_neg (not_le.mp ha)]

/-- What the lines add to one account. -/
def linesOn (account : Uuid) : List TxnLineInput → List ℚ → ℚ
  | l :: ls, a :: amounts => (if l.accountId = account then a else 0) + linesOn account ls amounts
  | _, _ => 0

/-- The signed amount of a stored line is the amount of the line, when storing rounds nothing. -/
theorem signed_of_stored {k : ℕ} {l : TxnLineInput} {a : ℚ} {p : Posting}
    (hscale : Rounding.HasScale 4 a) (h : (lineRow req k l a).Stored p) : p.signed = a := by
  have hamount : p.amount = |a| :=
    h.amount.trans (Rounding.roundDp_of_hasScale hscale.abs)
  have hdirection : p.direction = .ofSigned a := h.direction
  rw [Posting.signed, hamount, hdirection, Direction.ofSigned]
  by_cases ha : 0 ≤ a
  · simp [ha, abs_of_nonneg ha]
  · simp [ha, abs_of_neg (not_le.mp ha)]

theorem net_on_of_stored (account : Uuid) :
    ∀ (k : ℕ) {ls : List TxnLineInput} {amounts : List ℚ} {ps : List Posting},
      (∀ a ∈ amounts, Rounding.HasScale 4 a) →
      List.Forall₂ PostingRow.Stored (lineRows req k ls amounts) ps →
      Posting.net (ps.filter fun p => p.accountId = account) = linesOn account ls amounts
  | _, [], amounts, ps, _, h => by
    cases h
    cases amounts <;> rfl
  | _, _ :: _, [], ps, _, h => by
    cases h
    rfl
  | k, l :: ls, a :: amounts, ps, hscale, h => by
    obtain ⟨ha, hrest⟩ := List.forall_mem_cons.mp hscale
    rw [lineRows_cons] at h
    cases h with
    | @cons _ p _ ps hp hps =>
      have ih := net_on_of_stored account (k + 1) hrest hps
      have haccount : p.accountId = l.accountId := hp.accountId
      rw [linesOn, ← ih, List.filter_cons, haccount]
      by_cases hl : l.accountId = account
      · simp [hl, signed_of_stored ha hp]
      · simp [hl]

theorem foreignAmount_of_stored :
    ∀ (k : ℕ) {ls : List TxnLineInput} {amounts : List ℚ} {ps : List Posting},
      (∀ l ∈ ls, l.foreign = none) →
      List.Forall₂ PostingRow.Stored (lineRows req k ls amounts) ps →
      ∀ p ∈ ps, p.foreignAmount = none
  | _, [], _, _, _, h => by
    cases h
    simp
  | _, _ :: _, [], _, _, h => by
    cases h
    simp
  | k, l :: ls, a :: amounts, ps, hlocal, h => by
    obtain ⟨hl, hrest⟩ := List.forall_mem_cons.mp hlocal
    rw [lineRows_cons] at h
    cases h with
    | @cons _ p _ ps hp hps =>
      refine List.forall_mem_cons.mpr ⟨?_, foreignAmount_of_stored (k + 1) hrest hps⟩
      rw [hp.foreignAmount]
      simp [lineRow, hl]

/-! ## What `create` does -/

theorem insertTaxLinks_frame {ids : List Uuid} :
    ∀ {links : List TaxLink} {db db' : Db}, insertTaxLinks ids db links = .ok db' →
      ∃ taxes, db' = { db with postingTaxes := taxes }
  | [], db, db', h => by
    cases h
    exact ⟨db.postingTaxes, rfl⟩
  | link :: links, db, db', h => by
    simp only [insertTaxLinks, bind_eq_ok, mapError_eq_ok, insertPostingTax] at h
    obtain ⟨_, -, db₁, ⟨-, -, -, -, _, -, _, -, hdb₁⟩, h⟩ := h
    cases hdb₁
    obtain ⟨taxes, rfl⟩ := insertTaxLinks_frame h
    exact ⟨taxes, rfl⟩

/-- What a `create_with_kind` that committed its transaction did. -/
structure Created (db db' : Db) (req : Request) (new : NewTransaction) (isDraft : Bool)
    (effective : List ℚ) (t : Transaction) (ps : List Posting) : Prop where
  valid : validate db req new = .ok effective
  period_open : isDraft = true ∨ ¬ db.Closed new.ledgerId new.txnDate
  ledgerId : t.ledgerId = new.ledgerId
  txnDate : t.txnDate = new.txnDate
  kind : ∃ ledger, db.findLedger new.ledgerId = some ledger ∧
    TxnKind.fromDb (makerChecker ledger (new.kind.getD "standard") isDraft
      (debitTotal effective)).1 = some t.kind
  posts : Books.Posts db.books db'.books t ps
  stored : List.Forall₂ PostingRow.Stored (lineRows req 0 new.lines effective) ps
  ledgers : db'.ledgers = db.ledgers
  closedPeriods : db'.closedPeriods = db.closedPeriods
  approvals : ∃ rows, db'.approvals = db.approvals ++ rows

theorem writeTransaction_spec {r : CreatedTransaction × Bool}
    (hvalid : validate db req new = .ok effective)
    (h : writeTransaction db req new isDraft effective = .ok (r, db')) :
    ∃ t ps, Created db db' req new isDraft effective t ps ∧ db'.approvals = db.approvals := by
  simp only [writeTransaction, bind_eq_ok, okOr_eq_ok, ensure_eq_ok, mapError_eq_ok] at h
  obtain ⟨ledger, hledger, -, hopen, -, -, -, -, number, -, kind, hkind, db₁, hentry, db₂,
    hlinks, h⟩ := h
  obtain ⟨-, b', ps, rfl, hposts, hstored, -⟩ :=
    Db.insertEntry_spec (fun r hr => lineRows_transactionId r hr) hentry
  obtain ⟨taxes, rfl⟩ := insertTaxLinks_frame hlinks
  cases h
  exact ⟨_, ps, ⟨hvalid, hopen, rfl, rfl, ⟨ledger, hledger, hkind⟩, hposts, hstored, rfl, rfl,
    ⟨[], by simp⟩⟩, rfl⟩

theorem insertApproval_frame {a : JournalApproval} (h : insertApproval db a = .ok db') :
    ∃ rows, db' = { db with approvals := db.approvals ++ rows } := by
  simp only [insertApproval, bind_eq_ok] at h
  obtain ⟨amount, -, h⟩ := h
  cases h
  split
  · exact ⟨[], by simp⟩
  · exact ⟨_, rfl⟩

/-- `create_with_kind` answers with an error and leaves the database alone, or its transaction is
committed and an approval row may follow. -/
theorem createWithKind_outcome (db : Db) (req : Request) (new : NewTransaction) (isDraft : Bool) :
    (∃ e, createWithKind db req new isDraft = (.error e, db)) ∨
      ∃ effective created isPending db₁ rows answer, validate db req new = .ok effective ∧
        writeTransaction db req new isDraft effective = .ok ((created, isPending), db₁) ∧
        createWithKind db req new isDraft =
          (answer, { db₁ with approvals := db₁.approvals ++ rows }) ∧
        ∀ c, answer = .ok c → c = created := by
  unfold createWithKind
  cases hvalid : validate db req new with
  | error e => exact Or.inl ⟨e, rfl⟩
  | ok effective =>
    dsimp only
    cases hwrite : writeTransaction db req new isDraft effective with
    | error e => exact Or.inl ⟨e, rfl⟩
    | ok r =>
      obtain ⟨⟨created, isPending⟩, db₁⟩ := r
      right
      have hsame : db₁ = { db₁ with approvals := db₁.approvals ++ [] } := by
        rw [List.append_nil]
      cases isPending with
      | false =>
        exact ⟨effective, created, false, db₁, [], .ok created, rfl, hwrite,
          Prod.ext rfl hsame, fun c hc => (Except.ok.inj hc).symm⟩
      | true =>
        dsimp only [commit]
        split
        · next db₂ hinsert =>
            obtain ⟨rows, rfl⟩ := insertApproval_frame hinsert
            exact ⟨effective, created, true, db₁, rows, .ok created, rfl, hwrite, rfl,
              fun c hc => (Except.ok.inj hc).symm⟩
        · next e _ =>
            exact ⟨effective, created, true, db₁, [], .error (.db e), rfl, hwrite,
              Prod.ext rfl hsame, fun c hc => by cases hc⟩

theorem createWithKind_eq_ok {created : CreatedTransaction}
    (h : createWithKind db req new isDraft = (.ok created, db')) :
    ∃ effective isPending db₁ rows, validate db req new = .ok effective ∧
      writeTransaction db req new isDraft effective = .ok ((created, isPending), db₁) ∧
      db' = { db₁ with approvals := db₁.approvals ++ rows } := by
  rcases createWithKind_outcome db req new isDraft with
    ⟨e, he⟩ | ⟨effective, made, isPending, db₁, rows, answer, hvalid, hwrite, heq, hanswer⟩
  · cases congrArg Prod.fst (h.symm.trans he)
  · have hboth := h.symm.trans heq
    obtain rfl := hanswer created (congrArg Prod.fst hboth).symm
    exact ⟨effective, isPending, db₁, rows, hvalid, hwrite, congrArg Prod.snd hboth⟩

/-- `create_with_kind` answers with an error and leaves the database alone, or it commits one
entry. -/
theorem createWithKind_answer (db : Db) (req : Request) (new : NewTransaction) (isDraft : Bool) :
    (∃ e, createWithKind db req new isDraft = (.error e, db)) ∨
      ∃ effective t ps,
        Created db (createWithKind db req new isDraft).2 req new isDraft effective t ps := by
  rcases createWithKind_outcome db req new isDraft with
    h | ⟨effective, made, isPending, db₁, rows, answer, hvalid, hwrite, heq, -⟩
  · exact Or.inl h
  · obtain ⟨t, ps, hcreated, hsame⟩ := writeTransaction_spec hvalid hwrite
    rw [heq]
    exact Or.inr ⟨effective, t, ps, { hcreated with approvals := ⟨rows, by rw [hsame]⟩ }⟩

theorem createWithKind_cases (db : Db) (req : Request) (new : NewTransaction) (isDraft : Bool) :
    (createWithKind db req new isDraft).2 = db ∨
      ∃ effective t ps,
        Created db (createWithKind db req new isDraft).2 req new isDraft effective t ps := by
  rcases createWithKind_answer db req new isDraft with ⟨e, h⟩ | h
  · exact Or.inl (by rw [h])
  · exact Or.inr h

theorem writeTransaction_frame {r : CreatedTransaction × Bool}
    (h : writeTransaction db req new isDraft effective = .ok (r, db')) :
    ∃ books taxes, db' =
      { db with books := books, balanceTrigger := false, postingTaxes := taxes } := by
  simp only [writeTransaction, bind_eq_ok, okOr_eq_ok, ensure_eq_ok, mapError_eq_ok] at h
  obtain ⟨ledger, -, -, -, -, -, -, -, number, -, kind, -, db₁, hentry, db₂, hlinks, h⟩ := h
  obtain ⟨-, b', ps, rfl, -, -, -⟩ :=
    Db.insertEntry_spec (fun r hr => lineRows_transactionId r hr) hentry
  obtain ⟨taxes, rfl⟩ := insertTaxLinks_frame hlinks
  cases h
  exact ⟨b', taxes, rfl⟩

/-- `create_with_kind` writes the books, the tax links and the approvals. -/
theorem createWithKind_frame (db : Db) (req : Request) (new : NewTransaction) (isDraft : Bool) :
    ∃ books trigger taxes approvals, (createWithKind db req new isDraft).2 =
      { db with
        books := books, balanceTrigger := trigger, postingTaxes := taxes,
        approvals := approvals } := by
  rcases createWithKind_outcome db req new isDraft with
    ⟨e, h⟩ | ⟨effective, made, isPending, db₁, rows, answer, -, hwrite, heq, -⟩
  · rw [h]
    exact ⟨_, _, _, _, rfl⟩
  · obtain ⟨books, taxes, rfl⟩ := writeTransaction_frame hwrite
    rw [heq]
    exact ⟨books, false, taxes, _, rfl⟩

/-- The books of a committed `create_with_kind` are those of its database transaction. -/
theorem createWithKind_books (db : Db) (req : Request) (new : NewTransaction) (isDraft : Bool) :
    (createWithKind db req new isDraft).2.books = db.books ∨
      ∃ effective r db', writeTransaction db req new isDraft effective = .ok (r, db') ∧
        (createWithKind db req new isDraft).2.books = db'.books := by
  rcases createWithKind_outcome db req new isDraft with
    ⟨e, h⟩ | ⟨effective, made, isPending, db₁, rows, answer, -, hwrite, heq, -⟩
  · exact Or.inl (by rw [h])
  · exact Or.inr ⟨effective, _, db₁, hwrite, by rw [heq]⟩

theorem createWithKind_number (db : Db) (req : Request) (new : NewTransaction) (isDraft : Bool) :
    (createWithKind db req new isDraft).2.books.transactions = db.books.transactions ∨
      ∃ t, (createWithKind db req new isDraft).2.books.transactions =
          db.books.transactions ++ [t] ∧
        t.ledgerId = new.ledgerId ∧ t.txnDate = new.txnDate ∧
        resolveNumber db.books new = .ok t.number := by
  rcases createWithKind_books db req new isDraft with h | ⟨effective, r, db', hwrite, h⟩
  · exact Or.inl (by rw [h])
  · right
    rw [h]
    simp only [writeTransaction, bind_eq_ok, okOr_eq_ok, ensure_eq_ok, mapError_eq_ok] at hwrite
    obtain ⟨ledger, -, -, -, -, -, -, -, number, hnumber, kind, -, db₁, hentry, db₂, hlinks,
      hwrite⟩ := hwrite
    obtain ⟨-, b', ps, rfl, hposts, -, -⟩ :=
      Db.insertEntry_spec (fun r hr => lineRows_transactionId r hr) hentry
    obtain ⟨taxes, rfl⟩ := insertTaxLinks_frame hlinks
    cases hwrite
    exact ⟨txnRow req ledger new kind number, hposts.transactions, rfl, rfl, hnumber⟩

theorem insertTaxLinks_congr {ids : List Uuid} :
    ∀ {links : List TaxLink} {db db₁ db' : Db}, insertTaxLinks ids db links = .ok db₁ →
      db'.taxRates = db.taxRates → db'.postingTaxes = db.postingTaxes →
      ∃ taxes, insertTaxLinks ids db' links = .ok { db' with postingTaxes := taxes }
  | [], db, db₁, db', _, _, _ => ⟨db'.postingTaxes, rfl⟩
  | link :: links, db, db₁, db', h, hrates, htaxes => by
    simp only [insertTaxLinks, insertPostingTax, bind_eq_ok, okOr_eq_ok, mapError_eq_ok,
      ensure_eq_ok] at h
    obtain ⟨posting, hposting, db₂, ⟨u, hrate, v, hfresh, tax, htax, base, hbase, hdb₂⟩, h⟩ := h
    cases hdb₂
    let next : Db := { db' with postingTaxes := db'.postingTaxes ++ [
      { postingId := posting, taxRateId := link.taxRateId, taxAmount := tax,
        baseAmount := base }] }
    have hnextRates : next.taxRates = db.taxRates := hrates
    have hnext : next.postingTaxes = db.postingTaxes ++ [
        { postingId := posting, taxRateId := link.taxRateId, taxAmount := tax,
          baseAmount := base }] := by rw [← htaxes]
    obtain ⟨taxes, hlinks⟩ := insertTaxLinks_congr h hnextRates hnext
    refine ⟨taxes, ?_⟩
    simp only [insertTaxLinks, insertPostingTax, bind_eq_ok, okOr_eq_ok, mapError_eq_ok,
      ensure_eq_ok]
    exact ⟨posting, hposting, _,
      ⟨u, by rwa [hrates], v, by rwa [htaxes], tax, htax, base, hbase, rfl⟩, hlinks⟩

theorem Created.debits (h : Created db db' req new isDraft effective t ps) :
    Posting.sumOn .debit ps = storedDebitTotal effective := by
  rw [PostingRow.Stored.sumOn_eq h.stored]
  exact lineRows_debits req 0 (resolveAmounts_length (validate_spec h.valid).2.1)

theorem Created.balanced (h : Created db db' req new isDraft effective t ps)
    (hscale : ∀ l ∈ new.lines, Rounding.HasScale 4 l.signedAmount) :
    (Write.post t ps).Balanced := by
  obtain ⟨hlines, hamounts, hbalance⟩ := validate_spec h.valid
  have hlen := resolveAmounts_length hamounts
  obtain ⟨hdebits, hcredits⟩ := lineRows_net req 0 hlen
    (resolveAmounts_hasScale hscale hamounts)
  constructor
  · rw [← h.stored.length_eq, lineRows_length hlen]
    exact hlines
  · rw [PostingRow.Stored.sumOn_eq h.stored, PostingRow.Stored.sumOn_eq h.stored, hdebits,
      hcredits, hbalance]

theorem Created.net_on (h : Created db db' req new isDraft effective t ps)
    (hscale : ∀ l ∈ new.lines, Rounding.HasScale 4 l.signedAmount) (account : Uuid) :
    Posting.net (ps.filter fun p => p.accountId = account) =
      linesOn account new.lines effective :=
  net_on_of_stored account 0 (resolveAmounts_hasScale hscale (validate_spec h.valid).2.1) h.stored

theorem Created.effective_eq (h : Created db db' req new isDraft effective t ps)
    (hlocal : ∀ l ∈ new.lines, l.foreign = none) :
    effective = new.lines.map TxnLineInput.signedAmount := by
  obtain ⟨-, hamounts, -⟩ := validate_spec h.valid
  have hany : new.lines.any (fun l => l.foreign.isSome) = false := by
    rw [List.any_eq_false]
    intro l hl
    simp [hlocal l hl]
  rw [resolveAmounts, hany] at hamounts
  cases hamounts
  rfl

/-! ## What the other operations do -/

theorem postDraft_cases (db : Db) (ledger txn : Uuid) :
    (postDraft db ledger txn).2 = db ∨ ∃ draft b',
      db.books.findTxnIn txn ledger = some draft ∧ draft.kind = .draft ∧
      ¬ db.Closed ledger draft.txnDate ∧ (postDraft db ledger txn).2 = { db with books := b' } ∧
      Books.Wrote db.books b' (.setKind txn .standard) := by
  rcases commit_cases db _ with h | ⟨a, db', hbody, h⟩
  · exact Or.inl h
  · right
    simp only [bind_eq_ok, okOr_eq_ok, ensure_eq_ok, mapError_eq_ok, checkOpen] at hbody
    obtain ⟨-, -, draft, hdraft, -, hkind, -, hopen, db₁, hset, hbody⟩ := hbody
    cases hbody
    obtain ⟨b', rfl, hwrote⟩ := Db.setKind_spec hset
    exact ⟨draft, b', hdraft, hkind, hopen, h, hwrote⟩

theorem deleteDraft_cases (db : Db) (ledger txn : Uuid) :
    (deleteDraft db ledger txn).2 = db ∨ ∃ draft db',
      db.books.findTxnIn txn ledger = some draft ∧ draft.kind = .draft ∧
      db.deleteTransaction txn = .ok db' ∧ (deleteDraft db ledger txn).2 = db' := by
  rcases commit_cases db _ with h | ⟨a, db', hbody, h⟩
  · exact Or.inl h
  · right
    simp only [bind_eq_ok, okOr_eq_ok, ensure_eq_ok, mapError_eq_ok] at hbody
    obtain ⟨draft, hdraft, -, hkind, db₁, hdelete, hbody⟩ := hbody
    cases hbody
    exact ⟨draft, db', hdraft, hkind, hdelete, h⟩

/-- There is a pending row of the transaction, made by someone else. -/
def AwaitsDecision (db : Db) (ledger txn checker : Uuid) : Prop :=
  ∃ a ∈ db.approvals, a.txnId = txn ∧ a.ledgerId = ledger ∧ a.status = .pending ∧
    a.maker ≠ checker

theorem checkPending_spec {ledger txn checker : Uuid} {u : Unit}
    (h : checkPending db ledger txn checker = .ok u) : AwaitsDecision db ledger txn checker := by
  simp only [checkPending, bind_eq_ok, okOr_eq_ok, ensure_eq_ok] at h
  obtain ⟨row, hrow, -, hstatus, hmaker⟩ := h
  have hkey : row.txnId = txn ∧ row.ledgerId = ledger := by simpa using List.find?_some hrow
  exact ⟨row, List.mem_of_find?_eq_some hrow, hkey.1, hkey.2, hstatus, hmaker⟩

theorem approveJournal_cases (db : Db) (ledger txn checker : Uuid) :
    (approveJournal db ledger txn checker).2 = db ∨
      ∃ db', AwaitsDecision db ledger txn checker ∧
        (approveJournal db ledger txn checker).2 = decideApproval db' txn checker .approved ∧
        (db' = db ∨ ∃ t ∈ db.books.findTxnIn txn ledger, ∃ b', db' = { db with books := b' } ∧
          Books.Wrote db.books b' (.setKind txn .standard)) := by
  rcases commit_cases db _ with h | ⟨a, db', hbody, h⟩
  · exact Or.inl h
  · right
    simp only [bind_eq_ok, mapError_eq_ok] at hbody
    obtain ⟨_, hpending, db₁, hset, hbody⟩ := hbody
    cases hbody
    exact ⟨db₁, checkPending_spec hpending, h, Db.setKindIn_spec hset⟩

theorem rejectJournal_cases (db : Db) (ledger txn checker : Uuid) :
    (rejectJournal db ledger txn checker).2 = db ∨
      ∃ b', AwaitsDecision db ledger txn checker ∧
        (rejectJournal db ledger txn checker).2 =
          decideApproval { db with books := b' } txn checker .rejected ∧
        Books.Wrote db.books b' (.setKind txn .draft) := by
  rcases commit_cases db _ with h | ⟨a, db', hbody, h⟩
  · exact Or.inl h
  · right
    simp only [bind_eq_ok, mapError_eq_ok] at hbody
    obtain ⟨_, hpending, db₁, hset, hbody⟩ := hbody
    cases hbody
    obtain ⟨b', rfl, hwrote⟩ := Db.setKind_spec hset
    exact ⟨b', checkPending_spec hpending, h, hwrote⟩

end PostingService

end OpenAccounting
