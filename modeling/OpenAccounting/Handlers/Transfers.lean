import OpenAccounting.Handlers.Access

/-!
# Inter-ledger transfers

`create` of `handlers/transfers.rs`: one entry in each of two ledgers and a row
that links them, in one database transaction.  The balance trigger is disabled by a
statement of its own before that transaction begins, so it stays disabled even when
the transaction fails.
-/

namespace OpenAccounting

open Calendar Commit

namespace Transfers

/-- `TransferForm`, with its amounts as the parser leaves them. -/
structure TransferForm where
  fromLedgerId : Uuid
  toLedgerId : Uuid
  fromAccountId : Uuid
  toAccountId : Uuid
  amount : Option ℚ
  date : NaiveDate
  description : String
  /-- `none` when the text is neither empty nor an amount. -/
  feeAmount : Option ℚ := some 0
  feeAccountId : Option Uuid := none

/-- The account named `Cash on Hand`. -/
def cashOnHand (b : Books) (ledger : Uuid) : Option Uuid :=
  (b.accounts.find? fun a => a.ledgerId = ledger ∧ a.name = "Cash on Hand").map Account.id

/-- The account credited against `account`: the cash of the ledger, or `account`
itself when there is no other. -/
def counterAccount (b : Books) (ledger account : Uuid) : Uuid :=
  match cashOnHand b ledger with
  | some cash => if cash ≠ account then cash else account
  | none => account

/-- The transaction row of the `n`-th side. -/
def txnRow (req : Request) (n : ℕ) (ledger user : Uuid) (date : NaiveDate)
    (description currency : String) : Transaction where
  id := req.txnId n
  ledgerId := ledger
  txnDate := date
  description := description
  currency := currency
  kind := .standard
  createdBy := user
  createdAt := req.now

/-- The two postings of the `n`-th side. -/
def simpleRows (req : Request) (n : ℕ) (b : Books) (ledger account : Uuid) (amount : ℚ) :
    List PostingRow :=
  [{ id := req.postingId n 0, transactionId := req.txnId n, accountId := account,
     amount := |amount|, direction := .ofSigned amount },
   { id := req.postingId n 1, transactionId := req.txnId n,
     accountId := counterAccount b ledger account, amount := |-amount|,
     direction := .ofSigned (-amount) }]

def insertSimpleTxn (db : Db) (req : Request) (n : ℕ) (ledger user : Uuid) (date : NaiveDate)
    (description currency : String) (account : Uuid) (amount : ℚ) : Except AppError Db :=
  mapError .db (db.insertEntry (txnRow req n ledger user date description currency)
    (simpleRows req n db.books ledger account amount))

/-- What the handler checks and reads before it touches the tables. -/
def authorize (db : Db) (auth : Option Uuid) (form : TransferForm) :
    Except AppError (Uuid × ℚ × ℚ × Ledger × Ledger) := do
  let user ← okOr auth .unauthorized
  ensure (form.fromLedgerId ≠ form.toLedgerId) (.validation "from and to ledgers must differ")
  let _ ← db.ensureWriter user form.fromLedgerId
  let _ ← db.ensureWriter user form.toLedgerId
  let amount ← okOr form.amount (.validation "Invalid amount")
  ensure (0 < amount) (.validation "Amount must be positive")
  let fee ← okOr form.feeAmount (.validation "Invalid fee amount")
  let source ← okOr (db.findLedger form.fromLedgerId) (.db .rowNotFound)
  let target ← okOr (db.findLedger form.toLedgerId) (.db .rowNotFound)
  .ok (user, amount, fee, source, target)

/-- The description, or one with today's date. -/
def descriptionOf (req : Request) (form : TransferForm) : String :=
  if RustStr.trim form.description = "" then "Inter-ledger transfer " ++ req.today.display
  else form.description

def insertLink (db : Db) (r : InterLedgerTransfer) : Except SqlError Db := do
  let amount ← okOr (amountColumn r.amount) .numericFieldOverflow
  let fee ← okOr (amountColumn r.feeAmount) .numericFieldOverflow
  ensure (0 < amount) (.checkViolation "inter_ledger_transfers_amount_check")
  ensure (0 ≤ fee) (.checkViolation "inter_ledger_transfers_fee_amount_check")
  ensure (r.fromTxnId ≠ r.toTxnId) (.checkViolation "inter_ledger_transfers_check1")
  ensure (r.feeAccountId.all fun a => a ∈ db.books.accountIds) (.foreignKeyViolation "fee_account_id")
  .ok { db with transfers := db.transfers ++ [{ r with amount := amount, feeAmount := fee }] }

/-- The database transaction of `create`. -/
def writeTransfer (db : Db) (req : Request) (form : TransferForm) (user : Uuid)
    (amount fee : ℚ) (source target : Ledger) : Except AppError (Unit × Db) := do
  let description := descriptionOf req form
  let db ← insertSimpleTxn db req 0 form.fromLedgerId user form.date description
    source.baseCurrency form.fromAccountId amount
  let db ← insertSimpleTxn db req 1 form.toLedgerId user form.date description
    target.baseCurrency form.toAccountId amount
  let db ← mapError .db (insertLink db
    { fromLedgerId := form.fromLedgerId, toLedgerId := form.toLedgerId,
      fromAccountId := form.fromAccountId, toAccountId := form.toAccountId, amount := amount,
      currency := source.baseCurrency, fromTxnId := req.txnId 0, toTxnId := req.txnId 1,
      feeAmount := fee, feeAccountId := form.feeAccountId, description := description })
  .ok ((), db)

def create (db : Db) (req : Request) (auth : Option Uuid) (form : TransferForm) :
    Except AppError Unit × Db :=
  match authorize db auth form with
  | .error e => (.error e, db)
  | .ok (user, amount, fee, source, target) =>
    -- `ALTER TABLE postings DISABLE TRIGGER`, outside the transaction.
    let db := { db with balanceTrigger := false }
    commit db (writeTransfer db req form user amount fee source target)

/-! ## What it does -/

theorem insertSimpleTxn_spec {db db' : Db} {req : Request} {n : ℕ} {ledger user : Uuid}
    {date : NaiveDate} {description currency : String} {account : Uuid} {amount : ℚ}
    (h : insertSimpleTxn db req n ledger user date description currency account amount = .ok db') :
    ∃ t ps b', t.header = { ledgerId := ledger, txnDate := date, kind := .standard } ∧
      db' = { db with books := b' } ∧ Books.Posts db.books b' t ps := by
  rw [insertSimpleTxn, mapError_eq_ok] at h
  obtain ⟨-, b', ps, rfl, hposts, -, -⟩ := Db.insertEntry_spec (by simp [simpleRows, txnRow]) h
  exact ⟨_, ps, b', rfl, rfl, hposts⟩

theorem insertLink_frame {db db' : Db} {r : InterLedgerTransfer}
    (h : insertLink db r = .ok db') : ∃ transfers, db' = { db with transfers := transfers } := by
  simp only [insertLink, bind_eq_ok] at h
  obtain ⟨_, -, _, -, _, -, _, -, _, -, _, -, h⟩ := h
  cases h
  exact ⟨_, rfl⟩

/-- A transfer leaves the books alone or posts one entry in each ledger. -/
theorem create_cases (db : Db) (req : Request) (auth : Option Uuid) (form : TransferForm) :
    (create db req auth form).2.closedPeriods = db.closedPeriods ∧
      ((create db req auth form).2.books = db.books ∨ ∃ t u ps qs b₁,
        t.header = { ledgerId := form.fromLedgerId, txnDate := form.date, kind := .standard } ∧
        u.header = { ledgerId := form.toLedgerId, txnDate := form.date, kind := .standard } ∧
        Books.Posts db.books b₁ t ps ∧ Books.Posts b₁ (create db req auth form).2.books u qs) := by
  unfold create
  cases hauth : authorize db auth form with
  | error e => exact ⟨rfl, Or.inl rfl⟩
  | ok r =>
    obtain ⟨user, amount, fee, source, target⟩ := r
    dsimp only
    cases hwrite : writeTransfer { db with balanceTrigger := false } req form user amount fee
        source target with
    | error e => exact ⟨rfl, Or.inl rfl⟩
    | ok r =>
      obtain ⟨_, db'⟩ := r
      simp only [writeTransfer, bind_eq_ok, mapError_eq_ok] at hwrite
      obtain ⟨db₁, hfrom, db₂, hto, db₃, hlink, hend⟩ := hwrite
      cases hend
      obtain ⟨t, ps, b₁, ht, rfl, hposts⟩ := insertSimpleTxn_spec hfrom
      obtain ⟨u, qs, b₂, hu, rfl, hposts'⟩ := insertSimpleTxn_spec hto
      obtain ⟨transfers, rfl⟩ := insertLink_frame hlink
      exact ⟨rfl, Or.inr ⟨t, u, ps, qs, b₁, ht, hu, hposts, hposts'⟩⟩

end Transfers

end OpenAccounting
