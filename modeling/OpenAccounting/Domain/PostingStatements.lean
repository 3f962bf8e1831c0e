import OpenAccounting.Domain.PostingService
import OpenAccounting.Db.Inserts
import OpenAccounting.Lib.Decimal
import Mathlib.Data.Nat.Init

/-!
# The posting service, statement by statement

`create_with_kind` once more, with every SQL statement it sends and with the decimal arithmetic
it sums in.  A statement may be executed and answered, not be executed, or be executed without
an answer, and the function stops at the first one that is not answered.  Up to `COMMIT` that
rolls everything back.  The approval row of a pending journal is a statement of its own behind
the commit.

`Committable` is exactly when a call gets as far as `COMMIT`.  With every statement answered and
exact sums, the function is `PostingService.createWithKind`.
-/

namespace OpenAccounting

open Calendar Commit

namespace PostingService.Stepwise

/-- The statements of `create_with_kind`, with the line or link they are about. -/
inductive Statement where
  | baseCurrency
  | begin
  | disableTrigger
  | lockLedger
  | watermark
  | account (line : ℕ)
  | anyAccount (line : ℕ)
  | costCenter (line : ℕ)
  | project (line : ℕ)
  | number
  | threshold
  | insertTransaction
  | insertPosting (line : ℕ)
  | insertTax (link : ℕ)
  | commit
  | insertApproval
deriving DecidableEq

/-- How a call fails: with an error of the service, or with the `Db` error of a statement that
was not answered. -/
inductive CallError where
  | service (e : PostingServiceError)
  | unanswered (s : Statement)
deriving DecidableEq

/-! ## The function -/

section

variable (d : Decimal.Arith) (sql : Statement → Outcome)

/-- Wait for the answer to a statement. -/
def answered (s : Statement) : Except CallError Unit :=
  ensure (sql s = .done) (.unanswered s)

/-- The base-currency amount of one line. -/
def effectiveAmount (req : Request) (baseCurrency : String) (date : NaiveDate)
    (l : TxnLineInput) : Except PostingServiceError ℚ :=
  match l.foreign with
  | some f => do
    let rate ← mapError .missingFxRate (req.fxLookup f.currency baseCurrency date)
    .ok (Rounding.roundDp 2 (d.mul f.signedAmount rate))
  | none => .ok l.signedAmount

/-- The base-currency amounts of the lines, in order. -/
def effectiveAmounts (req : Request) (baseCurrency : String) (date : NaiveDate) :
    List TxnLineInput → Except PostingServiceError (List ℚ)
  | [] => .ok []
  | l :: ls => do
    let amount ← effectiveAmount d req baseCurrency date l
    let rest ← effectiveAmounts req baseCurrency date ls
    .ok (amount :: rest)

/-- `debits`, and `journal_total`. -/
def debitTotal (amounts : List ℚ) : ℚ :=
  amounts.foldl (fun debits a => if 0 ≤ a then d.add debits a else debits) 0

def creditTotal (amounts : List ℚ) : ℚ :=
  amounts.foldl (fun credits a => if 0 ≤ a then credits else d.add credits (-a)) 0

/-- The amounts in base currency. -/
def resolveAmounts (db : Db) (req : Request) (new : NewTransaction) :
    Except CallError (List ℚ) :=
  if new.lines.any fun l => l.foreign.isSome then do
    answered sql .baseCurrency
    let ledger ← okOr (db.findLedger new.ledgerId) (.service .ledgerNotFound)
    mapError .service (effectiveAmounts d req ledger.baseCurrency new.txnDate new.lines)
  else .ok (new.lines.map TxnLineInput.signedAmount)

/-- The validation before the database transaction. -/
def validate (db : Db) (req : Request) (new : NewTransaction) : Except CallError (List ℚ) := do
  ensure (2 ≤ new.lines.length) (.service (.unbalanced 0 0))
  let effective ← resolveAmounts d sql db req new
  ensure (debitTotal d effective = creditTotal d effective)
    (.service (.unbalanced (debitTotal d effective) (creditTotal d effective)))
  .ok effective

/-- The hard-close check, skipped for drafts. -/
def checkPeriod (db : Db) (new : NewTransaction) (isDraft : Bool) : Except CallError Unit :=
  if isDraft then .ok ()
  else do
    answered sql .watermark
    ensure (¬ db.Closed new.ledgerId new.txnDate)
      (.service (.hardClosed new.ledgerId ((db.closedThrough new.ledgerId).getD new.txnDate)))

/-- Every account exists in the ledger; the line is the `k`-th. -/
def checkAccounts (b : Books) (ledger : Uuid) : ℕ → List TxnLineInput → Except CallError Unit
  | _, [] => .ok ()
  | k, l :: ls => do
    answered sql (.account k)
    if ∃ a ∈ b.accounts, a.id = l.accountId ∧ a.ledgerId = ledger then
      checkAccounts b ledger (k + 1) ls
    else do
      answered sql (.anyAccount k)
      .error (.service (if l.accountId ∈ b.accountIds then .wrongLedger l.accountId
        else .unknownAccount l.accountId))

/-- A dimension id is one of the ledger. -/
def checkDimension (rows : List NamedRow) (ledger : Uuid) (s : Statement)
    (e : Uuid → PostingServiceError) : Option Uuid → Except CallError Unit
  | none => .ok ()
  | some id => do
    answered sql s
    ensure (∃ r ∈ rows, r.id = id ∧ r.ledgerId = ledger) (.service (e id))

/-- Every cost center and project exists in the ledger. -/
def checkDimensions (db : Db) (ledger : Uuid) : ℕ → List TxnLineInput → Except CallError Unit
  | _, [] => .ok ()
  | k, l :: ls => do
    checkDimension sql db.costCenters ledger (.costCenter k) .unknownCostCenter l.costCenterId
    checkDimension sql db.projects ledger (.project k) .unknownProject l.projectId
    checkDimensions db ledger (k + 1) ls

/-- The postings, one statement each. -/
def insertPostings : ℕ → Db → List PostingRow → Except CallError Db
  | _, db, [] => .ok db
  | k, db, r :: rs => do
    answered sql (.insertPosting k)
    let db ← mapError (fun e => .service (.db e)) (db.insertPostings [r])
    insertPostings (k + 1) db rs

/-- The tax attributions, in order. -/
def insertTaxLinks (postingIds : List Uuid) : ℕ → Db → List TaxLink → Except CallError Db
  | _, db, [] => .ok db
  | k, db, link :: rest => do
    let posting ← okOr postingIds[link.postingIdx]? (.service (.unbalanced 0 0))
    answered sql (.insertTax k)
    let db ← mapError (fun e => .service (.db e)) (insertPostingTax db
      { postingId := posting, taxRateId := link.taxRateId,
        taxAmount := link.taxAmount, baseAmount := link.baseAmount })
    insertTaxLinks postingIds (k + 1) db rest

/-- The kinds for which the threshold is read. -/
def ReadsThreshold (new : NewTransaction) (isDraft : Bool) : Prop :=
  isDraft = false ∧
    (new.kind.getD "standard" = "standard" ∨ new.kind.getD "standard" = "adjusting")

instance (new : NewTransaction) (isDraft : Bool) : Decidable (ReadsThreshold new isDraft) := by
  unfold ReadsThreshold
  infer_instance

/-- `SELECT approval_threshold`. -/
def readThreshold (new : NewTransaction) (isDraft : Bool) : Except CallError Unit :=
  if ReadsThreshold new isDraft then answered sql .threshold else .ok ()

/-- The database transaction, from `BEGIN` to before `COMMIT`. -/
def writeTransaction (db : Db) (req : Request) (new : NewTransaction) (isDraft : Bool)
    (effective : List ℚ) : Except CallError ((CreatedTransaction × Bool) × Db) := do
  answered sql .begin
  answered sql .disableTrigger
  let db := { db with balanceTrigger := false }
  answered sql .lockLedger
  let ledger ← okOr (db.findLedger new.ledgerId) (.service .ledgerNotFound)
  checkPeriod sql db new isDraft
  checkAccounts sql db.books new.ledgerId 0 new.lines
  checkDimensions sql db new.ledgerId 0 new.lines
  -- The lookup of a given number and the count for a missing one.
  answered sql .number
  let number ← mapError .service (resolveNumber db.books new)
  readThreshold sql new isDraft
  let gate := makerChecker ledger (new.kind.getD "standard") isDraft (debitTotal d effective)
  answered sql .insertTransaction
  let kind ← okOr (TxnKind.fromDb gate.1)
    (.service (.db (.checkViolation "transactions_kind_check")))
  let db ← mapError (fun e => .service (.db e))
    (db.insertTransaction (txnRow req ledger new kind number))
  let rows := lineRows req 0 new.lines effective
  let db ← insertPostings sql 0 db rows
  let db ← insertTaxLinks sql (rows.map PostingRow.id) 0 db new.taxLinks
  .ok (({ id := req.txnId 0, kind := kind, number := number }, gate.2), db)

def createWithKind (db : Db) (req : Request) (new : NewTransaction) (isDraft : Bool) :
    Except CallError CreatedTransaction × Db :=
  match validate d sql db req new with
  | .error e => (.error e, db)
  | .ok effective =>
    andThen (commitAs (sql .commit) (.unanswered .commit) db
      (writeTransaction d sql db req new isDraft effective)) fun r db =>
        if r.2 then
          commitAs (sql .insertApproval) (.unanswered .insertApproval) db do
            let db ← mapError (fun e => .service (.db e)) (insertApproval db
              { txnId := r.1.id, ledgerId := new.ledgerId, maker := new.createdBy,
                amount := debitTotal d effective })
            .ok (r.1, db)
        else (.ok r.1, db)

def create (db : Db) (req : Request) (new : NewTransaction) :
    Except CallError CreatedTransaction × Db :=
  createWithKind d sql db req new false

def createDraft (db : Db) (req : Request) (new : NewTransaction) :
    Except CallError CreatedTransaction × Db :=
  createWithKind d sql db req { new with kind := some "draft" } true

end

/-! ## When a call gets as far as `COMMIT` -/

/-- The statements of the database transaction that a call with no error sends before `COMMIT`. -/
def Sends (new : NewTransaction) (isDraft : Bool) : Statement → Prop
  | .begin | .disableTrigger | .lockLedger | .number | .insertTransaction => True
  | .watermark => isDraft = false
  | .account k | .insertPosting k => k < new.lines.length
  | .costCenter k => ∃ l ∈ new.lines[k]?, l.costCenterId.isSome
  | .project k => ∃ l ∈ new.lines[k]?, l.projectId.isSome
  | .threshold => ReadsThreshold new isDraft
  | .insertTax k => k < new.taxLinks.length
  | .baseCurrency | .anyAccount _ | .commit | .insertApproval => False

/-- Nothing is in the way of these rows in `posting_taxes`. -/
structure TaxLinksInsertable (db : Db) (postingIds : List Uuid) (links : List TaxLink) : Prop where
  postings : ∀ link ∈ links, link.postingIdx < postingIds.length
  rates : ∀ link ∈ links, ∃ x ∈ db.taxRates, x.id = link.taxRateId
  taxAmounts : ∀ link ∈ links, (amountColumn link.taxAmount).isSome
  baseAmounts : ∀ link ∈ links, (amountColumn link.baseAmount).isSome
  new_keys : ∀ link ∈ links, ∀ x ∈ db.postingTaxes,
    ¬ (postingIds[link.postingIdx]? = some x.postingId ∧ x.taxRateId = link.taxRateId)
  keys_nodup : (links.map fun link => (postingIds[link.postingIdx]?, link.taxRateId)).Nodup

/-- Every check of the call passes and every statement up to `COMMIT` is answered. -/
structure Committable (d : Decimal.Arith) (sql : Statement → Outcome) (db : Db) (req : Request)
    (new : NewTransaction) (isDraft : Bool) (effective : List ℚ) (ledger : Ledger)
    (number : Option String) (kind : TxnKind) : Prop where
  lines : 2 ≤ new.lines.length
  amounts : resolveAmounts d sql db req new = .ok effective
  balance : debitTotal d effective = creditTotal d effective
  answered : ∀ s, Sends new isDraft s → sql s = .done
  ledger_found : db.findLedger new.ledgerId = some ledger
  period : isDraft = true ∨ ¬ db.Closed new.ledgerId new.txnDate
  accounts : ∀ l ∈ new.lines, ∃ a ∈ db.books.accounts,
    a.id = l.accountId ∧ a.ledgerId = new.ledgerId
  costCenters : ∀ l ∈ new.lines, ∀ id ∈ l.costCenterId,
    ∃ r ∈ db.costCenters, r.id = id ∧ r.ledgerId = new.ledgerId
  projects : ∀ l ∈ new.lines, ∀ id ∈ l.projectId,
    ∃ r ∈ db.projects, r.id = id ∧ r.ledgerId = new.ledgerId
  number_resolved : resolveNumber db.books new = .ok number
  kind_valid : TxnKind.fromDb (makerChecker ledger (new.kind.getD "standard") isDraft
    (debitTotal d effective)).1 = some kind
  header : db.TxnInsertable (txnRow req ledger new kind number)
  legs : Db.LegsInsertable { db with balanceTrigger := false } []
    (lineRows req 0 new.lines effective)
  taxes : TaxLinksInsertable db ((lineRows req 0 new.lines effective).map PostingRow.id)
    new.taxLinks

section

variable {d : Decimal.Arith} {sql : Statement → Outcome}

@[simp] theorem answered_eq_ok {s : Statement} {u : Unit} :
    answered sql s = .ok u ↔ sql s = .done := by
  simp [answered]

/-- A condition on the elements of a list and their positions, from the `k`-th on. -/
theorem forall_getElem?_cons {α : Type*} {P : ℕ → α → Prop} {k : ℕ} {x : α} {xs : List α} :
    (∀ j, ∀ y ∈ (x :: xs)[j]?, P (k + j) y) ↔ P k x ∧ ∀ j, ∀ y ∈ xs[j]?, P (k + 1 + j) y := by
  constructor
  · intro h
    refine ⟨h 0 x rfl, fun j y hy => ?_⟩
    rw [Nat.add_right_comm, Nat.add_assoc]
    exact h (j + 1) y (by simpa using hy)
  · rintro ⟨hx, hxs⟩ j y hy
    cases j with
    | zero =>
      cases hy
      exact hx
    | succ j =>
      have h := hxs j y (by simpa using hy)
      rwa [Nat.add_right_comm, Nat.add_assoc] at h

theorem checkAccounts_eq_ok {b : Books} {ledger : Uuid} {u : Unit} :
    ∀ {k : ℕ} {ls : List TxnLineInput}, checkAccounts sql b ledger k ls = .ok u ↔
      (∀ j, ∀ _l ∈ ls[j]?, sql (.account (k + j)) = .done) ∧
        ∀ l ∈ ls, ∃ a ∈ b.accounts, a.id = l.accountId ∧ a.ledgerId = ledger
  | k, [] => by simp [checkAccounts]
  | k, l :: ls => by
    have ih := @checkAccounts_eq_ok b ledger u (k + 1) ls
    rw [forall_getElem?_cons (P := fun j _ => sql (.account j) = .done), List.forall_mem_cons]
    simp only [checkAccounts, bind_eq_ok, answered_eq_ok]
    split
    · next hin =>
        rw [ih]
        constructor
        · rintro ⟨-, hl, hls, hall⟩
          exact ⟨⟨hl, hls⟩, hin, hall⟩
        · rintro ⟨⟨hl, hls⟩, -, hall⟩
          exact ⟨(), hl, hls, hall⟩
    · next hout =>
        constructor
        · rintro ⟨-, -, h⟩
          obtain ⟨-, -, h⟩ := bind_eq_ok.mp h
          cases h
        · rintro ⟨-, hin, -⟩
          exact absurd hin hout

theorem checkPeriod_eq_ok {db : Db} {new : NewTransaction} {isDraft : Bool} {u : Unit} :
    checkPeriod sql db new isDraft = .ok u ↔ (isDraft = false → sql .watermark = .done) ∧
      (isDraft = true ∨ ¬ db.Closed new.ledgerId new.txnDate) := by
  cases isDraft with
  | true => simp [checkPeriod]
  | false => simp [checkPeriod, bind_eq_ok]

theorem readThreshold_eq_ok {new : NewTransaction} {isDraft : Bool} {u : Unit} :
    readThreshold sql new isDraft = .ok u ↔
      (ReadsThreshold new isDraft → sql .threshold = .done) := by
  unfold readThreshold
  split
  · next hreads => simp [hreads]
  · next hreads => simp [hreads]

theorem checkDimension_eq_ok {rows : List NamedRow} {ledger : Uuid} {s : Statement}
    {e : Uuid → PostingServiceError} {o : Option Uuid} {u : Unit} :
    checkDimension sql rows ledger s e o = .ok u ↔
      (o.isSome → sql s = .done) ∧ ∀ id ∈ o, ∃ r ∈ rows, r.id = id ∧ r.ledgerId = ledger := by
  cases o with
  | none => simp [checkDimension]
  | some id => simp [checkDimension, bind_eq_ok]

theorem checkDimensions_eq_ok {db : Db} {ledger : Uuid} {u : Unit} :
    ∀ {k : ℕ} {ls : List TxnLineInput}, checkDimensions sql db ledger k ls = .ok u ↔
      ((∀ j, ∀ l ∈ ls[j]?, l.costCenterId.isSome → sql (.costCenter (k + j)) = .done) ∧
        ∀ j, ∀ l ∈ ls[j]?, l.projectId.isSome → sql (.project (k + j)) = .done) ∧
      (∀ l ∈ ls, ∀ id ∈ l.costCenterId, ∃ r ∈ db.costCenters, r.id = id ∧ r.ledgerId = ledger) ∧
        ∀ l ∈ ls, ∀ id ∈ l.projectId, ∃ r ∈ db.projects, r.id = id ∧ r.ledgerId = ledger
  | k, [] => by simp [checkDimensions]
  | k, l :: ls => by
    have ih := @checkDimensions_eq_ok db ledger u (k + 1) ls
    rw [forall_getElem?_cons
        (P := fun j (l : TxnLineInput) => l.costCenterId.isSome → sql (.costCenter j) = .done),
      forall_getElem?_cons
        (P := fun j (l : TxnLineInput) => l.projectId.isSome → sql (.project j) = .done),
      List.forall_mem_cons, List.forall_mem_cons]
    simp only [checkDimensions, bind_eq_ok, checkDimension_eq_ok]
    rw [ih]
    constructor
    · rintro ⟨-, ⟨hc, hcc⟩, -, ⟨hp, hpp⟩, ⟨hcs, hps⟩, hccs, hpps⟩
      exact ⟨⟨⟨hc, hcs⟩, hp, hps⟩, ⟨hcc, hccs⟩, hpp, hpps⟩
    · rintro ⟨⟨⟨hc, hcs⟩, hp, hps⟩, ⟨hcc, hccs⟩, hpp, hpps⟩
      exact ⟨(), ⟨hc, hcc⟩, (), ⟨hp, hpp⟩, ⟨hcs, hps⟩, hccs, hpps⟩

theorem insertPostings_eq_ok {db' : Db} :
    ∀ {k : ℕ} {db : Db} {rows : List PostingRow}, insertPostings sql k db rows = .ok db' ↔
      (∀ j, ∀ _r ∈ rows[j]?, sql (.insertPosting (k + j)) = .done) ∧
        db.insertPostingsEach rows = .ok db'
  | k, db, [] => by simp [insertPostings, Db.insertPostingsEach]
  | k, db, r :: rows => by
    rw [forall_getElem?_cons (P := fun j _ => sql (.insertPosting j) = .done)]
    simp only [insertPostings, Db.insertPostingsEach, bind_eq_ok, answered_eq_ok,
      mapError_eq_ok, insertPostings_eq_ok]
    constructor
    · rintro ⟨-, hr, db₁, hone, hrs, hrest⟩
      exact ⟨⟨hr, hrs⟩, db₁, hone, hrest⟩
    · rintro ⟨⟨hr, hrs⟩, db₁, hone, hrest⟩
      exact ⟨(), hr, db₁, hone, hrs, hrest⟩

theorem insertTaxLinks_eq_ok {ids : List Uuid} {db' : Db} :
    ∀ {k : ℕ} {db : Db} {links : List TaxLink}, insertTaxLinks sql ids k db links = .ok db' ↔
      (∀ j, ∀ _l ∈ links[j]?, sql (.insertTax (k + j)) = .done) ∧
        PostingService.insertTaxLinks ids db links = .ok db'
  | k, db, [] => by simp [insertTaxLinks, PostingService.insertTaxLinks]
  | k, db, link :: links => by
    rw [forall_getElem?_cons (P := fun j _ => sql (.insertTax j) = .done)]
    simp only [insertTaxLinks, PostingService.insertTaxLinks, bind_eq_ok, answered_eq_ok,
      mapError_eq_ok, okOr_eq_ok, insertTaxLinks_eq_ok]
    constructor
    · rintro ⟨posting, hposting, -, hlink, db₁, hone, hlinks, hrest⟩
      exact ⟨⟨hlink, hlinks⟩, posting, hposting, db₁, hone, hrest⟩
    · rintro ⟨⟨hlink, hlinks⟩, posting, hposting, db₁, hone, hrest⟩
      exact ⟨posting, hposting, (), hlink, db₁, hone, hlinks, hrest⟩

theorem effectiveAmounts_length {req : Request} {base : String} {date : NaiveDate} :
    ∀ {ls : List TxnLineInput} {amounts : List ℚ},
      effectiveAmounts d req base date ls = .ok amounts → amounts.length = ls.length
  | [], amounts, h => by
    cases h
    rfl
  | l :: ls, amounts, h => by
    simp only [effectiveAmounts, bind_eq_ok] at h
    obtain ⟨a, -, rest, hrest, h⟩ := h
    cases h
    simp [effectiveAmounts_length hrest]

theorem resolveAmounts_length {db : Db} {req : Request} {new : NewTransaction}
    {amounts : List ℚ} (h : resolveAmounts d sql db req new = .ok amounts) :
    amounts.length = new.lines.length := by
  unfold resolveAmounts at h
  split at h
  · simp only [bind_eq_ok, mapError_eq_ok] at h
    obtain ⟨-, -, ledger, -, h⟩ := h
    exact effectiveAmounts_length h
  · cases h
    simp

theorem validate_eq_ok {db : Db} {req : Request} {new : NewTransaction} {effective : List ℚ} :
    validate d sql db req new = .ok effective ↔ 2 ≤ new.lines.length ∧
      resolveAmounts d sql db req new = .ok effective ∧
      debitTotal d effective = creditTotal d effective := by
  simp only [validate, bind_eq_ok, ensure_eq_ok]
  constructor
  · rintro ⟨-, hlen, amounts, hamounts, -, hbalance, h⟩
    cases h
    exact ⟨hlen, hamounts, hbalance⟩
  · rintro ⟨hlen, hamounts, hbalance⟩
    exact ⟨(), hlen, effective, hamounts, (), hbalance, rfl⟩

theorem forall_sends_iff {new : NewTransaction} {isDraft : Bool} :
    (∀ s, Sends new isDraft s → sql s = .done) ↔
      sql .begin = .done ∧ sql .disableTrigger = .done ∧ sql .lockLedger = .done ∧
      (isDraft = false → sql .watermark = .done) ∧
      (∀ j, ∀ _l ∈ new.lines[j]?, sql (.account j) = .done) ∧
      (∀ j, ∀ l ∈ new.lines[j]?, l.costCenterId.isSome → sql (.costCenter j) = .done) ∧
      (∀ j, ∀ l ∈ new.lines[j]?, l.projectId.isSome → sql (.project j) = .done) ∧
      sql .number = .done ∧ (ReadsThreshold new isDraft → sql .threshold = .done) ∧
      sql .insertTransaction = .done ∧
      (∀ j < new.lines.length, sql (.insertPosting j) = .done) ∧
      ∀ j, ∀ _l ∈ new.taxLinks[j]?, sql (.insertTax j) = .done := by
  constructor
  · intro h
    refine ⟨h _ trivial, h _ trivial, h _ trivial, h .watermark, fun j l hl => ?_, ?_, ?_,
      h _ trivial, h .threshold, h _ trivial, fun j => h (.insertPosting j), fun j l hl => ?_⟩
    · exact h (.account j) (List.getElem?_eq_some_iff.mp hl).1
    · exact fun j l hl hsome => h (.costCenter j) ⟨l, hl, hsome⟩
    · exact fun j l hl hsome => h (.project j) ⟨l, hl, hsome⟩
    · exact h (.insertTax j) (List.getElem?_eq_some_iff.mp hl).1
  · rintro ⟨hbegin, hdisable, hlock, hwatermark, haccount, hcenter, hproject, hnumber, hthreshold,
      htxn, hposting, htax⟩ s hs
    cases s with
    | baseCurrency => cases hs
    | begin => exact hbegin
    | disableTrigger => exact hdisable
    | lockLedger => exact hlock
    | watermark => exact hwatermark hs
    | account j => exact haccount j _ (List.getElem?_eq_getElem hs)
    | anyAccount j => cases hs
    | costCenter j =>
      obtain ⟨l, hl, hsome⟩ := hs
      exact hcenter j l hl hsome
    | project j =>
      obtain ⟨l, hl, hsome⟩ := hs
      exact hproject j l hl hsome
    | number => exact hnumber
    | threshold => exact hthreshold hs
    | insertTransaction => exact htxn
    | insertPosting j => exact hposting j hs
    | insertTax j => exact htax j _ (List.getElem?_eq_getElem hs)
    | commit => cases hs
    | insertApproval => cases hs

theorem forall_postings_iff {rows : List PostingRow} {n : ℕ} (hlen : rows.length = n) :
    (∀ j, ∀ _r ∈ rows[j]?, sql (.insertPosting j) = .done) ↔
      ∀ j < n, sql (.insertPosting j) = .done := by
  subst hlen
  constructor
  · intro h j hj
    exact h j _ (List.getElem?_eq_getElem hj)
  · intro h j r hr
    exact h j (List.getElem?_eq_some_iff.mp hr).1

variable {db db' : Db} {req : Request} {new : NewTransaction} {isDraft : Bool}
  {effective : List ℚ} {r : CreatedTransaction × Bool}

/-- The database transaction succeeds when its statements are answered, its checks pass and the
rows go in. -/
theorem writeTransaction_eq_ok (hlen : effective.length = new.lines.length) :
    writeTransaction d sql db req new isDraft effective = .ok (r, db') ↔
      (∀ s, Sends new isDraft s → sql s = .done) ∧
      ∃ ledger number kind db₁, db.findLedger new.ledgerId = some ledger ∧
        (isDraft = true ∨ ¬ db.Closed new.ledgerId new.txnDate) ∧
        (∀ l ∈ new.lines, ∃ a ∈ db.books.accounts,
          a.id = l.accountId ∧ a.ledgerId = new.ledgerId) ∧
        ((∀ l ∈ new.lines, ∀ id ∈ l.costCenterId,
            ∃ r ∈ db.costCenters, r.id = id ∧ r.ledgerId = new.ledgerId) ∧
          ∀ l ∈ new.lines, ∀ id ∈ l.projectId,
            ∃ r ∈ db.projects, r.id = id ∧ r.ledgerId = new.ledgerId) ∧
        resolveNumber db.books new = .ok number ∧
        TxnKind.fromDb (makerChecker ledger (new.kind.getD "standard") isDraft
          (debitTotal d effective)).1 = some kind ∧
        Db.insertEntry { db with balanceTrigger := false } (txnRow req ledger new kind number)
          (lineRows req 0 new.lines effective) = .ok db₁ ∧
        PostingService.insertTaxLinks ((lineRows req 0 new.lines effective).map PostingRow.id) db₁
          new.taxLinks = .ok db' ∧
        r = ({ id := req.txnId 0, kind := kind, number := number },
          (makerChecker ledger (new.kind.getD "standard") isDraft (debitTotal d effective)).2) := by
  have hrows : (∀ j, ∀ _r ∈ (lineRows req 0 new.lines effective)[j]?,
      sql (.insertPosting j) = .done) ↔ ∀ j < new.lines.length, sql (.insertPosting j) = .done :=
    forall_postings_iff (lineRows_length hlen)
  rw [forall_sends_iff]
  simp only [writeTransaction, Db.insertEntry, bind_eq_ok, answered_eq_ok, okOr_eq_ok,
    mapError_eq_ok, checkPeriod_eq_ok, checkAccounts_eq_ok, checkDimensions_eq_ok,
    readThreshold_eq_ok, insertPostings_eq_ok, insertTaxLinks_eq_ok, Nat.zero_add]
  constructor
  · rintro ⟨-, hbegin, -, hdisable, -, hlock, ledger, hledger, -, ⟨hwatermark, hperiod⟩, -,
      ⟨hsqlAccounts, haccounts⟩, -, ⟨⟨hsqlCenters, hsqlProjects⟩, hdimensions⟩, -, hsqlNumber,
      number, hnumber, -, hthreshold, -, hsqlTxn, kind, hkind, db₁, htxn, db₂,
      ⟨hsqlPostings, hpostings⟩, db₃, ⟨hsqlTaxes, htaxes⟩, h⟩
    cases h
    exact ⟨⟨hbegin, hdisable, hlock, hwatermark, hsqlAccounts, hsqlCenters, hsqlProjects,
      hsqlNumber, hthreshold, hsqlTxn, hrows.mp hsqlPostings, hsqlTaxes⟩, ledger, number, kind, db₂,
      hledger, hperiod, haccounts, hdimensions, hnumber, hkind, ⟨db₁, htxn, hpostings⟩, htaxes, rfl⟩
  · rintro ⟨⟨hbegin, hdisable, hlock, hwatermark, hsqlAccounts, hsqlCenters, hsqlProjects,
      hsqlNumber, hthreshold, hsqlTxn, hsqlPostings, hsqlTaxes⟩, ledger, number, kind, db₂, hledger,
      hperiod, haccounts, hdimensions, hnumber, hkind, ⟨db₁, htxn, hpostings⟩, htaxes, rfl⟩
    exact ⟨(), hbegin, (), hdisable, (), hlock, ledger, hledger, (), ⟨hwatermark, hperiod⟩, (),
      ⟨hsqlAccounts, haccounts⟩, (), ⟨⟨hsqlCenters, hsqlProjects⟩, hdimensions⟩, (), hsqlNumber,
      number, hnumber, (), hthreshold, (), hsqlTxn, kind, hkind, db₁, htxn, db₂,
      ⟨hrows.mpr hsqlPostings, hpostings⟩, db', ⟨hsqlTaxes, htaxes⟩, rfl⟩

theorem writeTransaction_spec (hlen : effective.length = new.lines.length)
    (h : writeTransaction d sql db req new isDraft effective = .ok (r, db')) :
    ∃ t ps, Books.Posts db.books db'.books t ps ∧ r.1.id = t.id ∧
      List.Forall₂ PostingRow.Stored (lineRows req 0 new.lines effective) ps ∧
      db'.approvals = db.approvals := by
  obtain ⟨-, ledger, number, kind, db₁, -, -, -, -, -, -, hentry, htaxes, rfl⟩ :=
    (writeTransaction_eq_ok hlen).mp h
  obtain ⟨-, b', ps, rfl, hposts, hstored, -⟩ :=
    Db.insertEntry_spec (fun s hs => lineRows_transactionId s hs) hentry
  obtain ⟨taxes, rfl⟩ := insertTaxLinks_frame htaxes
  exact ⟨_, ps, hposts, rfl, hstored, rfl⟩

/-! ### Tax links -/

theorem insertPostingTax_ok_iff {r : PostingTax} :
    (∃ db', insertPostingTax db r = .ok db') ↔ (∃ x ∈ db.taxRates, x.id = r.taxRateId) ∧
      (∀ x ∈ db.postingTaxes, ¬ (x.postingId = r.postingId ∧ x.taxRateId = r.taxRateId)) ∧
      (amountColumn r.taxAmount).isSome ∧ (amountColumn r.baseAmount).isSome := by
  simp only [insertPostingTax, bind_eq_ok, ensure_eq_ok, okOr_eq_ok, Option.isSome_iff_exists]
  constructor
  · rintro ⟨db', -, hrate, -, hfresh, tax, htax, base, hbase, -⟩
    exact ⟨hrate, hfresh, ⟨tax, htax⟩, base, hbase⟩
  · rintro ⟨hrate, hfresh, ⟨tax, htax⟩, base, hbase⟩
    exact ⟨_, (), hrate, (), hfresh, tax, htax, base, hbase, rfl⟩

theorem insertPostingTax_keys {r : PostingTax} (h : insertPostingTax db r = .ok db') :
    db'.taxRates = db.taxRates ∧ ∃ x, db'.postingTaxes = db.postingTaxes ++ [x] ∧
      x.postingId = r.postingId ∧ x.taxRateId = r.taxRateId := by
  simp only [insertPostingTax, bind_eq_ok] at h
  obtain ⟨-, -, -, -, tax, -, base, -, h⟩ := h
  cases h
  exact ⟨rfl, _, rfl, rfl, rfl⟩

theorem insertTaxLinks_ok_iff {ids : List Uuid} (links : List TaxLink) :
    ∀ {db : Db}, (∃ db', PostingService.insertTaxLinks ids db links = .ok db') ↔
      TaxLinksInsertable db ids links := by
  induction links with
  | nil =>
    intro db
    refine ⟨fun _ => ⟨?_, ?_, ?_, ?_, ?_, List.nodup_nil⟩, fun _ => ⟨db, rfl⟩⟩ <;> simp
  | cons link links ih =>
    intro db
    simp only [PostingService.insertTaxLinks, bind_eq_ok, okOr_eq_ok, mapError_eq_ok]
    constructor
    · rintro ⟨db', posting, hposting, db₁, hone, hrest⟩
      obtain ⟨hrate, hfresh, htax, hbase⟩ := insertPostingTax_ok_iff.mp ⟨db₁, hone⟩
      obtain ⟨hrates, x, hx, hxposting, hxrate⟩ := insertPostingTax_keys hone
      have hlinks := ih.mp ⟨db', hrest⟩
      constructor
      · refine List.forall_mem_cons.mpr ⟨?_, hlinks.postings⟩
        exact (List.getElem?_eq_some_iff.mp hposting).1
      · refine List.forall_mem_cons.mpr ⟨hrate, fun l hl => ?_⟩
        rw [← hrates]
        exact hlinks.rates l hl
      · exact List.forall_mem_cons.mpr ⟨htax, hlinks.taxAmounts⟩
      · exact List.forall_mem_cons.mpr ⟨hbase, hlinks.baseAmounts⟩
      · refine List.forall_mem_cons.mpr ⟨fun y hy heq => ?_, fun l hl y hy => ?_⟩
        · rw [hposting, Option.some.injEq] at heq
          exact hfresh y hy ⟨heq.1.symm, heq.2⟩
        · refine hlinks.new_keys l hl y ?_
          rw [hx]
          exact List.mem_append_left _ hy
      · refine List.nodup_cons.mpr ⟨fun hmem => ?_, hlinks.keys_nodup⟩
        obtain ⟨l, hl, heq⟩ := List.mem_map.mp hmem
        rw [Prod.mk.injEq, hposting] at heq
        refine hlinks.new_keys l hl x ?_ ⟨?_, hxrate.trans heq.2.symm⟩
        · rw [hx]
          exact List.mem_append_right _ (List.mem_singleton_self x)
        · rw [hxposting]
          exact heq.1
    · intro h
      obtain ⟨hpostings, hlinksPostings⟩ := List.forall_mem_cons.mp h.postings
      obtain ⟨hrate, hlinksRates⟩ := List.forall_mem_cons.mp h.rates
      obtain ⟨htax, hlinksTax⟩ := List.forall_mem_cons.mp h.taxAmounts
      obtain ⟨hbase, hlinksBase⟩ := List.forall_mem_cons.mp h.baseAmounts
      obtain ⟨hnew, hlinksNew⟩ := List.forall_mem_cons.mp h.new_keys
      obtain ⟨hkey, hlinksNodup⟩ := List.nodup_cons.mp h.keys_nodup
      have hposting := List.getElem?_eq_getElem hpostings
      obtain ⟨db₁, hone⟩ := (insertPostingTax_ok_iff (r :=
        { postingId := ids[link.postingIdx], taxRateId := link.taxRateId,
          taxAmount := link.taxAmount, baseAmount := link.baseAmount })).mpr
        ⟨hrate, fun x hx heq => hnew x hx ⟨by rw [hposting, heq.1], heq.2⟩, htax, hbase⟩
      obtain ⟨hrates, x, hx, hxposting, hxrate⟩ := insertPostingTax_keys hone
      have hlinks : TaxLinksInsertable db₁ ids links := by
        refine ⟨hlinksPostings, hrates.symm ▸ hlinksRates, hlinksTax, hlinksBase, ?_,
          hlinksNodup⟩
        intro l hl y hy heq
        rw [hx, List.mem_append, List.mem_singleton] at hy
        rcases hy with hy | rfl
        · exact hlinksNew l hl y hy heq
        · refine hkey (List.mem_map.mpr ⟨l, hl, ?_⟩)
          rw [Prod.mk.injEq, heq.1, hposting, hxposting]
          exact ⟨rfl, heq.2.symm.trans hxrate⟩
      obtain ⟨db', hrest⟩ := ih.mpr hlinks
      exact ⟨db', _, hposting, db₁, hone, hrest⟩

/-! ### The whole call -/

theorem committable_of_write (hvalid : validate d sql db req new = .ok effective)
    (hwrite : writeTransaction d sql db req new isDraft effective = .ok (r, db')) :
    ∃ ledger number kind, Committable d sql db req new isDraft effective ledger number kind := by
  obtain ⟨hlines, hamounts, hbalance⟩ := validate_eq_ok.mp hvalid
  obtain ⟨hsends, ledger, number, kind, db₁, hledger, hperiod, haccounts,
    ⟨hcenters, hprojects⟩, hnumber, hkind, hentry, htaxes, -⟩ :=
    (writeTransaction_eq_ok (resolveAmounts_length hamounts)).mp hwrite
  have howned : ∀ s ∈ lineRows req 0 new.lines effective, s.transactionId = req.txnId 0 :=
    fun s hs => lineRows_transactionId s hs
  obtain ⟨hheader, hlegs⟩ := (Db.insertEntry_ok_iff howned).mp ⟨db₁, hentry⟩
  obtain ⟨-, b', ps, rfl, -, -, -⟩ := Db.insertEntry_spec howned hentry
  have htaxes := (insertTaxLinks_ok_iff new.taxLinks).mp ⟨db', htaxes⟩
  exact ⟨ledger, number, kind, hlines, hamounts, hbalance, hsends, hledger, hperiod, haccounts,
    hcenters, hprojects, hnumber, hkind, ⟨hheader.1, hheader.2, hheader.3, hheader.4, hheader.5,
    hheader.6⟩, hlegs, ⟨htaxes.1, htaxes.2, htaxes.3, htaxes.4, htaxes.5, htaxes.6⟩⟩

theorem Committable.write {ledger : Ledger} {number : Option String} {kind : TxnKind}
    (h : Committable d sql db req new isDraft effective ledger number kind) :
    validate d sql db req new = .ok effective ∧
      ∃ db', writeTransaction d sql db req new isDraft effective =
        .ok (({ id := req.txnId 0, kind := kind, number := number },
          (makerChecker ledger (new.kind.getD "standard") isDraft (debitTotal d effective)).2),
          db') := by
  refine ⟨validate_eq_ok.mpr ⟨h.lines, h.amounts, h.balance⟩, ?_⟩
  have howned : ∀ s ∈ lineRows req 0 new.lines effective, s.transactionId = req.txnId 0 :=
    fun s hs => lineRows_transactionId s hs
  have hheader : Db.TxnInsertable { db with balanceTrigger := false }
      (txnRow req ledger new kind number) :=
    ⟨h.header.1, h.header.2, h.header.3, h.header.4, h.header.5, h.header.6⟩
  obtain ⟨db₁, hentry⟩ := (Db.insertEntry_ok_iff howned).mpr ⟨hheader, h.legs⟩
  obtain ⟨-, b', ps, rfl, -, -, -⟩ := Db.insertEntry_spec howned hentry
  have htaxes : TaxLinksInsertable { db with balanceTrigger := false, books := b' }
      ((lineRows req 0 new.lines effective).map PostingRow.id) new.taxLinks :=
    ⟨h.taxes.1, h.taxes.2, h.taxes.3, h.taxes.4, h.taxes.5, h.taxes.6⟩
  obtain ⟨db', htaxes⟩ := (insertTaxLinks_ok_iff new.taxLinks).mpr htaxes
  exact ⟨db', (writeTransaction_eq_ok (resolveAmounts_length h.amounts)).mpr ⟨h.answered,
    ledger, number, kind, _, h.ledger_found, h.period, h.accounts, ⟨h.costCenters, h.projects⟩,
    h.number_resolved, h.kind_valid, hentry, htaxes, rfl⟩⟩

theorem createWithKind_of_not_committable
    (hnone : ∀ effective ledger number kind,
      ¬ Committable d sql db req new isDraft effective ledger number kind) :
    ∃ e, createWithKind d sql db req new isDraft = (.error e, db) := by
  unfold createWithKind
  cases hvalid : validate d sql db req new with
  | error e => exact ⟨e, rfl⟩
  | ok effective =>
    dsimp only
    cases hwrite : writeTransaction d sql db req new isDraft effective with
    | error e => exact ⟨e, rfl⟩
    | ok r =>
      obtain ⟨ledger, number, kind, h⟩ := committable_of_write hvalid hwrite
      exact absurd h (hnone effective ledger number kind)

end

theorem createWithKind_eq_ok {d : Decimal.Arith} {sql : Statement → Outcome} {db db' : Db}
    {req : Request} {new : NewTransaction} {isDraft : Bool} {created : CreatedTransaction} :
    createWithKind d sql db req new isDraft = (.ok created, db') ↔
      ∃ effective isPending db₁, validate d sql db req new = .ok effective ∧
        sql .commit = .done ∧
        writeTransaction d sql db req new isDraft effective = .ok ((created, isPending), db₁) ∧
        (isPending = false ∧ db' = db₁ ∨ isPending = true ∧ sql .insertApproval = .done ∧
          insertApproval db₁
            { txnId := created.id, ledgerId := new.ledgerId, maker := new.createdBy,
              amount := debitTotal d effective } = .ok db') := by
  unfold createWithKind
  cases hvalid : validate d sql db req new with
  | error e => simp
  | ok effective =>
    dsimp only
    rw [andThen_eq_ok]
    constructor
    · rintro ⟨⟨made, isPending⟩, db₁, hcommit, hafter⟩
      obtain ⟨hdone, hwrite⟩ := commitAs_eq_ok.mp hcommit
      cases isPending with
      | false =>
        cases hafter
        exact ⟨effective, false, db', rfl, hdone, hwrite, Or.inl ⟨rfl, rfl⟩⟩
      | true =>
        obtain ⟨hanswered, hinsert⟩ := commitAs_eq_ok.mp hafter
        simp only [bind_eq_ok, mapError_eq_ok] at hinsert
        obtain ⟨db₂, hinsert, h⟩ := hinsert
        cases h
        exact ⟨effective, true, db₁, rfl, hdone, hwrite, Or.inr ⟨rfl, hanswered, hinsert⟩⟩
    · rintro ⟨amounts, isPending, db₁, hamounts, hdone, hwrite, hafter⟩
      cases hamounts
      refine ⟨(created, isPending), db₁, commitAs_eq_ok.mpr ⟨hdone, hwrite⟩, ?_⟩
      rcases hafter with ⟨rfl, rfl⟩ | ⟨rfl, hanswered, hinsert⟩
      · rfl
      · refine commitAs_eq_ok.mpr ⟨hanswered, ?_⟩
        rw [hinsert]
        rfl

/-- The postings of a created transaction are the rows of its lines, stored. -/
theorem createWithKind_stored {d : Decimal.Arith} {sql : Statement → Outcome} {db db' : Db}
    {req : Request} {new : NewTransaction} {isDraft : Bool} {created : CreatedTransaction}
    {effective : List ℚ} (hamounts : resolveAmounts d sql db req new = .ok effective)
    (h : createWithKind d sql db req new isDraft = (.ok created, db')) :
    debitTotal d effective = creditTotal d effective ∧
      List.Forall₂ PostingRow.Stored (lineRows req 0 new.lines effective)
        (db'.books.postingsOf created.id) := by
  obtain ⟨amounts, isPending, db₁, hvalid, -, hwrite, hafter⟩ := createWithKind_eq_ok.mp h
  obtain ⟨-, hresolved, hbalance⟩ := validate_eq_ok.mp hvalid
  cases hamounts.symm.trans hresolved
  obtain ⟨t, ps, hposts, hid, hstored, -⟩ :=
    writeTransaction_spec (resolveAmounts_length hamounts) hwrite
  have hself : db₁.books.postingsOf created.id = ps := by
    rw [show created.id = t.id from hid]
    exact hposts.postingsOf_self
  refine ⟨hbalance, ?_⟩
  rcases hafter with ⟨-, rfl⟩ | ⟨-, -, hinsert⟩
  · rwa [hself]
  · obtain ⟨rows, rfl⟩ := insertApproval_frame hinsert
    rwa [show ({ db₁ with approvals := db₁.approvals ++ rows } : Db).books = db₁.books from rfl,
      hself]

/-! ## The function of the service -/

/-- Every statement is executed and answered. -/
def allDone (_ : Statement) : Outcome := .done

theorem answered_allDone (s : Statement) : answered allDone s = .ok () := rfl

theorem debitTotal_exact (amounts : List ℚ) :
    debitTotal Decimal.exact amounts = PostingService.debitTotal amounts := by
  have hfold : ∀ total : ℚ, amounts.foldl
      (fun debits a => if 0 ≤ a then Decimal.exact.add debits a else debits) total =
        total + PostingService.debitTotal amounts := by
    induction amounts with
    | nil => simp [PostingService.debitTotal]
    | cons a amounts ih =>
      intro total
      rw [List.foldl_cons, ih, PostingService.debitTotal, PostingService.debitTotal,
        List.map_cons, List.sum_cons]
      split
      · exact add_assoc total a _
      · rw [zero_add]
  rw [debitTotal, hfold, zero_add]

theorem creditTotal_exact (amounts : List ℚ) :
    creditTotal Decimal.exact amounts = PostingService.creditTotal amounts := by
  have hfold : ∀ total : ℚ, amounts.foldl
      (fun credits a => if 0 ≤ a then credits else Decimal.exact.add credits (-a)) total =
        total + PostingService.creditTotal amounts := by
    induction amounts with
    | nil => simp [PostingService.creditTotal]
    | cons a amounts ih =>
      intro total
      rw [List.foldl_cons, ih, PostingService.creditTotal, PostingService.creditTotal,
        List.map_cons, List.sum_cons]
      split
      · rw [zero_add]
      · exact add_assoc total (-a) _
  rw [creditTotal, hfold, zero_add]

theorem effectiveAmounts_exact (req : Request) (base : String) (date : NaiveDate)
    (ls : List TxnLineInput) : effectiveAmounts Decimal.exact req base date ls =
      PostingService.effectiveAmounts req base date ls := by
  induction ls with
  | nil => rfl
  | cons l ls ih =>
    rw [effectiveAmounts, ih]
    rfl

theorem validate_exact (db : Db) (req : Request) (new : NewTransaction) :
    validate Decimal.exact allDone db req new =
      mapError .service (PostingService.validate db req new) := by
  have hamounts : resolveAmounts Decimal.exact allDone db req new =
      mapError .service (PostingService.resolveAmounts db req new) := by
    unfold resolveAmounts PostingService.resolveAmounts
    split
    · rw [answered_allDone, ok_bind]
      cases db.findLedger new.ledgerId with
      | none => rfl
      | some ledger =>
        show mapError _ (effectiveAmounts _ req ledger.baseCurrency new.txnDate new.lines) = _
        rw [effectiveAmounts_exact]
        rfl
    · rfl
  rw [validate, PostingService.validate, hamounts]
  simp only [mapError_bind, mapError_ensure, debitTotal_exact, creditTotal_exact]
  rfl

theorem checkAccounts_allDone (b : Books) (ledger : Uuid) :
    ∀ (k : ℕ) (ls : List TxnLineInput), checkAccounts allDone b ledger k ls =
      mapError .service (PostingService.checkAccounts b ledger ls)
  | _, [] => rfl
  | k, l :: ls => by
    have ih := checkAccounts_allDone b ledger (k + 1) ls
    rw [checkAccounts, PostingService.checkAccounts, answered_allDone, ok_bind, ih]
    split
    · next hin =>
        rw [ensure, if_pos hin]
        rfl
    · next hout =>
        rw [ensure, if_neg hout]
        rfl

theorem checkDimension_allDone (rows : List NamedRow) (ledger : Uuid) (s : Statement)
    (e : Uuid → PostingServiceError) (o : Option Uuid) :
    checkDimension allDone rows ledger s e o =
      mapError .service (ensure (o.all fun id => ∃ r ∈ rows, r.id = id ∧ r.ledgerId = ledger)
        (e (o.getD 0))) := by
  cases o with
  | none => rfl
  | some id => simp [checkDimension, answered_allDone, ok_bind, mapError_ensure]

theorem checkDimensions_allDone (db : Db) (ledger : Uuid) :
    ∀ (k : ℕ) (ls : List TxnLineInput), checkDimensions allDone db ledger k ls =
      mapError .service (PostingService.checkDimensions db ledger ls)
  | _, [] => rfl
  | k, l :: ls => by
    have ih := checkDimensions_allDone db ledger (k + 1) ls
    rw [checkDimensions, PostingService.checkDimensions, checkDimension_allDone,
      checkDimension_allDone, ih]
    simp only [mapError_bind]

theorem insertPostings_allDone (k : ℕ) (rows : List PostingRow) :
    ∀ db : Db, insertPostings allDone k db rows =
      mapError (fun e => .service (.db e)) (db.insertPostingsEach rows) := by
  induction rows generalizing k with
  | nil => exact fun _ => rfl
  | cons r rows ih =>
    intro db
    rw [insertPostings, Db.insertPostingsEach, answered_allDone, ok_bind]
    simp only [ih, mapError_bind]

theorem insertTaxLinks_allDone (ids : List Uuid) (k : ℕ) (links : List TaxLink) :
    ∀ db : Db, insertTaxLinks allDone ids k db links =
      mapError .service (PostingService.insertTaxLinks ids db links) := by
  induction links generalizing k with
  | nil => exact fun _ => rfl
  | cons link links ih =>
    intro db
    rw [insertTaxLinks, PostingService.insertTaxLinks]
    simp only [ih, mapError_bind, mapError_okOr, mapError_mapError, answered_allDone, ok_bind]

theorem checkPeriod_allDone (db : Db) (new : NewTransaction) (isDraft : Bool) :
    checkPeriod allDone db new isDraft =
      mapError .service (ensure (isDraft = true ∨ ¬ db.Closed new.ledgerId new.txnDate)
        (.hardClosed new.ledgerId ((db.closedThrough new.ledgerId).getD new.txnDate))) := by
  cases isDraft with
  | true => rfl
  | false => simp [checkPeriod, answered_allDone, ok_bind, mapError_ensure]

theorem readThreshold_allDone (new : NewTransaction) (isDraft : Bool) :
    readThreshold allDone new isDraft = .ok () := by
  unfold readThreshold
  split <;> rfl

theorem writeTransaction_exact (db : Db) (req : Request) (new : NewTransaction) (isDraft : Bool)
    (effective : List ℚ) : writeTransaction Decimal.exact allDone db req new isDraft effective =
      mapError .service (PostingService.writeTransaction db req new isDraft effective) := by
  rw [writeTransaction, PostingService.writeTransaction]
  simp only [answered_allDone, ok_bind, checkPeriod_allDone, checkAccounts_allDone,
    checkDimensions_allDone, readThreshold_allDone, insertPostings_allDone,
    insertTaxLinks_allDone, debitTotal_exact, mapError_bind, mapError_okOr, mapError_ensure,
    mapError_mapError, Db.insertEntry, bind_assoc]
  rfl

/-- With every statement answered and exact sums, this is the function of the service. -/
theorem createWithKind_exact (db : Db) (req : Request) (new : NewTransaction) (isDraft : Bool) :
    createWithKind Decimal.exact allDone db req new isDraft =
      failAs .service (PostingService.createWithKind db req new isDraft) := by
  rw [createWithKind, PostingService.createWithKind, validate_exact]
  cases PostingService.validate db req new with
  | error e => rfl
  | ok effective =>
    have hcommit : allDone .commit = .done := rfl
    dsimp only [mapError]
    rw [hcommit, commitAs_done, writeTransaction_exact]
    cases PostingService.writeTransaction db req new isDraft effective with
    | error e => rfl
    | ok r =>
      obtain ⟨⟨created, isPending⟩, db₁⟩ := r
      cases isPending with
      | false => rfl
      | true =>
        show commitAs .done _ db₁ _ = _
        rw [commitAs_done, debitTotal_exact]
        dsimp only [mapError, commit]
        cases insertApproval db₁ ⟨created.id, new.ledgerId, new.createdBy, none, .pending,
          PostingService.debitTotal effective⟩ with
        | error e => rfl
        | ok db₂ => rfl

/-- A journal that no gate sends to approval is accepted exactly when it is committable. -/
theorem create_isOk_iff {db : Db} {req : Request} {new : NewTransaction}
    (hungated : ∀ effective ledger number kind,
      Committable Decimal.exact allDone db req new false effective ledger number kind →
      (makerChecker ledger (new.kind.getD "standard") false
        (debitTotal Decimal.exact effective)).2 = false) :
    (PostingService.create db req new).1.isOk = true ↔ ∃ effective ledger number kind,
      Committable Decimal.exact allDone db req new false effective ledger number kind := by
  have hsame : (PostingService.create db req new).1.isOk =
      (createWithKind Decimal.exact allDone db req new false).1.isOk := by
    rw [createWithKind_exact, PostingService.create, failAs]
    cases (PostingService.createWithKind db req new false).1 <;> rfl
  rw [hsame]
  constructor
  · intro h
    obtain ⟨created, hok⟩ := exists_ok_of_isOk h
    obtain ⟨effective, isPending, db₁, hvalid, -, hwrite, -⟩ :=
      createWithKind_eq_ok.mp (Prod.ext hok rfl)
    obtain ⟨ledger, number, kind, hcommittable⟩ := committable_of_write hvalid hwrite
    exact ⟨effective, ledger, number, kind, hcommittable⟩
  · rintro ⟨effective, ledger, number, kind, h⟩
    obtain ⟨hvalid, db', hwrite⟩ := h.write
    rw [hungated effective ledger number kind h] at hwrite
    rw [createWithKind_eq_ok.mpr ⟨effective, false, db', hvalid, rfl, hwrite, Or.inl ⟨rfl, rfl⟩⟩]
    rfl

end PostingService.Stepwise

end OpenAccounting
