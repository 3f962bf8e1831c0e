import OpenAccounting.Api.Pagination
import OpenAccounting.Lib.Pages

/-!
# Transactions over the API

`create` of `api/transactions.rs`, from the parsed body to the commit, `reverse` and
`list`.  What the first two do with the `Idempotency-Key` before and after is in the module
on idempotency.

The direction of a line is text here.  The balance test reads it without regard to
case, and the row is inserted with the text as it came.
-/

namespace OpenAccounting

open Calendar Commit

namespace Api

namespace Transactions

structure PostingBody where
  accountId : Uuid
  amount : ℚ
  direction : String
  memo : Option String := none
deriving DecidableEq

structure CreateTransactionBody where
  date : NaiveDate
  description : String
  payee : Option String := none
  reference : Option String := none
  kind : Option String := none
  lines : List PostingBody
deriving DecidableEq

structure CreateTransactionResponse where
  id : Uuid
  date : NaiveDate
  description : String
  total : ℚ
deriving DecidableEq

def eqIgnoreAsciiCase (s t : String) : Bool :=
  s.toList.map Char.toLower == t.toList.map Char.toLower

/-- The sum of the amounts whose direction reads as `side`. -/
def sideTotal (side : String) (lines : List PostingBody) : ℚ :=
  ((lines.filter fun l => eqIgnoreAsciiCase l.direction side).map PostingBody.amount).sum

/-- Every account exists in the ledger. -/
def checkAccounts (b : Books) (ledger : Uuid) : List PostingBody → Except Problem Unit
  | [] => .ok ()
  | l :: ls => do
    ensure (∃ a ∈ b.accounts, a.id = l.accountId ∧ a.ledgerId = ledger)
      (badRequest ("unknown account " ++ Uuid.hyphenated l.accountId))
    checkAccounts b ledger ls

def txnRow (req : Request) (user : Uuid) (ledger : Ledger) (body : CreateTransactionBody)
    (kind : TxnKind) : Transaction where
  id := req.txnId 0
  ledgerId := ledger.id
  txnDate := body.date
  description := body.description
  payee := body.payee
  reference := body.reference
  currency := ledger.baseCurrency
  kind := kind
  createdBy := user
  createdAt := req.now

/-- The row of the `k`-th line with the side its text names. -/
def lineRow (req : Request) (k : ℕ) (l : PostingBody) (d : Direction) : PostingRow where
  id := req.postingId 0 k
  transactionId := req.txnId 0
  accountId := l.accountId
  amount := l.amount
  direction := d
  memo := l.memo

/-- One `INSERT INTO postings` for each line.  A direction other than `DEBIT` and
`CREDIT` violates the `CHECK` of the column. -/
def insertLines (req : Request) : ℕ → Db → List PostingBody → Except SqlError Db
  | _, db, [] => .ok db
  | k, db, l :: ls => do
    let d ← okOr (Direction.fromDb l.direction) (.checkViolation "postings_direction_check")
    let db ← db.insertPostings [lineRow req k l d]
    insertLines req (k + 1) db ls

/-- The handler between the lookup and the store of the idempotency key. -/
def execute (db : Db) (req : Request) (user ledger : Uuid) (body : CreateTransactionBody) :
    Except Problem (CreateTransactionResponse × Db) := do
  ensureOwned db user ledger
  ensure (2 ≤ body.lines.length)
    (badRequest "Postings do not balance (need at least two postings)")
  ensure (sideTotal "DEBIT" body.lines = sideTotal "CREDIT" body.lines)
    (badRequest "Postings do not balance")
  checkAccounts db.books ledger body.lines
  let l ← okOr (db.findLedger ledger)
    { status := 404, title := "Not Found", detail := "ledger not found" }
  let kind ← okOr (TxnKind.fromDb (body.kind.getD "standard"))
    { badRequest "insert txn: " with cause := some (.checkViolation "transactions_kind_check") }
  let db ← mapError (fun e => { badRequest "insert txn: " with cause := some e })
    (db.insertTransaction (txnRow req user l body kind))
  let db ← mapError (fun e => { badRequest "posting: " with cause := some e })
    (insertLines req 0 db body.lines)
  .ok ({ id := req.txnId 0, date := body.date, description := body.description,
         total := sideTotal "DEBIT" body.lines }, db)

/-- `create` without an idempotency key. -/
def create (db : Db) (req : Request) (user ledger : Uuid) (body : CreateTransactionBody) :
    Except Problem CreateTransactionResponse × Db :=
  commit db (execute db req user ledger body)

/-! ## Reversal -/

structure ReverseResponse where
  id : Uuid
  kind : TxnKind
  reversesId : Uuid
deriving DecidableEq

/-- A posting of the original on the other side.  Its dimensions are not carried over. -/
def reversedLine (p : Posting) : TxnLineInput where
  accountId := p.accountId
  signedAmount := if p.direction = .debit then -p.amount else p.amount
  memo := p.memo

/-- The description of the original and the lines of its reversal. -/
def reverseLines (db : Db) (user ledger txn : Uuid) :
    Except Problem (String × List TxnLineInput) := do
  ensureOwned db user ledger
  let original ← okOr (db.books.findTxnIn txn ledger) (notFound "transaction not found")
  ensure (original.kind ≠ .reversing) (unprocessable "cannot reverse a reversal")
  ensure (db.books.postingsOf txn ≠ []) (unprocessable "transaction has no postings to reverse")
  .ok (original.description, (db.books.postingsOf txn).map reversedLine)

/-- The problem an error of the service becomes. -/
def reverseProblem : PostingServiceError → Problem
  | .hardClosed _ closedThrough =>
    { status := 409, title := "Conflict",
      detail := "ledger is closed through " ++ closedThrough.display ++ "; reversal blocked" }
  | other => { unprocessable "" with service := some other }

/-- `reverse` without an idempotency key. -/
def reverse (db : Db) (req : Request) (user ledger txn : Uuid) :
    Except Problem ReverseResponse × Db :=
  match reverseLines db user ledger txn with
  | .error e => (.error e, db)
  | .ok (description, lines) =>
    match PostingService.create db req
        { ledgerId := ledger, txnDate := req.today, description := "Reversal of: " ++ description,
          kind := some "reversing", createdBy := user, lines := lines,
          reversesId := some txn } with
    | (.ok created, db) =>
      (.ok { id := created.id, kind := created.kind, reversesId := txn }, db)
    | (.error e, db) => (.error (reverseProblem e), db)

/-! ## Listing -/

structure TransactionDto where
  id : Uuid
  ledgerId : Uuid
  txnDate : NaiveDate
  description : String
  payee : Option String
  reference : Option String
  currency : String
  kind : TxnKind
  number : Option String
  createdAt : ℤ
deriving DecidableEq

/-- The selected columns of a row. -/
def TransactionDto.ofRow (t : Transaction) : TransactionDto where
  id := t.id
  ledgerId := t.ledgerId
  txnDate := t.txnDate
  description := t.description
  payee := t.payee
  reference := t.reference
  currency := t.currency
  kind := t.kind
  number := t.number
  createdAt := t.createdAt

/-- `ORDER BY txn_date DESC, created_at DESC`. -/
def listKey (t : Transaction) : (NaiveDate ×ₗ ℤ)ᵒᵈ := .toDual (toLex (t.txnDate, t.createdAt))

/-- `FROM transactions WHERE ledger_id = $1`. -/
def listed (db : Db) (ledger : Uuid) : List Transaction :=
  db.books.transactions.filter fun t => t.ledgerId = ledger

/-- `list`, where `answer` is the answer to its query without `LIMIT` and `OFFSET`. -/
def list (db : Db) (secret : String) (user ledger : Uuid) (answer : List Transaction)
    (params : PageParams) : Except Problem (List TransactionDto × Option NextLink) := do
  ensureOwned db user ledger
  let page ← pageFrom secret params
  let rows := (Pages.page page.limit.toNat page.offset.toNat answer).map TransactionDto.ofRow
  .ok (rows, nextLink secret ("/api/v1/ledgers/" ++ Uuid.hyphenated ledger ++ "/transactions")
    page rows.length)

/-! ## What it does -/

/-- The rows the lines become, when every direction is one of the two. -/
inductive LineRows (req : Request) : ℕ → List PostingBody → List PostingRow → Prop where
  | nil {k : ℕ} : LineRows req k [] []
  | cons {k : ℕ} {l : PostingBody} {ls : List PostingBody} {d : Direction}
      {rows : List PostingRow} (hd : Direction.fromDb l.direction = some d)
      (rest : LineRows req (k + 1) ls rows) : LineRows req k (l :: ls) (lineRow req k l d :: rows)

variable {ls : List PostingBody} {req : Request} {rows : List PostingRow}

theorem LineRows.transactionId {k : ℕ} (h : LineRows req k ls rows) :
    ∀ r ∈ rows, r.transactionId = req.txnId 0 := by
  induction h with
  | nil => simp
  | cons _ _ ih =>
    intro r hr
    rcases List.mem_cons.mp hr with rfl | hr
    · rfl
    · exact ih r hr

theorem LineRows.length {k : ℕ} (h : LineRows req k ls rows) : rows.length = ls.length := by
  induction h with
  | nil => rfl
  | cons _ _ ih => simp [ih]

theorem insertLines_eq :
    ∀ {ls : List PostingBody} {k : ℕ} {db db' : Db}, insertLines req k db ls = .ok db' →
      ∃ rows, LineRows req k ls rows ∧ db.insertPostingsEach rows = .ok db'
  | [], k, db, db', h => ⟨[], .nil, h⟩
  | l :: ls, k, db, db', h => by
    simp only [insertLines, bind_eq_ok, okOr_eq_ok] at h
    obtain ⟨d, hd, db₁, hone, h⟩ := h
    obtain ⟨rows, hrows, hrest⟩ := insertLines_eq h
    refine ⟨lineRow req k l d :: rows, .cons hd hrows, ?_⟩
    simp only [Db.insertPostingsEach, bind_eq_ok]
    exact ⟨db₁, hone, hrest⟩

/-- A direction that the column accepts reads as its own side and not as the
other. -/
theorem eqIgnoreAsciiCase_of_fromDb {s : String} {d e : Direction}
    (h : Direction.fromDb s = some d) : eqIgnoreAsciiCase s e.asStr = decide (d = e) := by
  unfold Direction.fromDb at h
  split at h
  · next hs =>
      cases h
      rw [hs]
      cases e <;> decide
  · split at h
    · next hs =>
        cases h
        rw [hs]
        cases e <;> decide
    · cases h

/-- The stored sums of the rows are the sums the handler tested, when storing rounds
nothing. -/
theorem LineRows.sumOn {k : ℕ} (h : LineRows req k ls rows)
    (hscale : ∀ l ∈ ls, Rounding.HasScale 4 l.amount) (e : Direction) :
    PostingRow.sumOn e rows = sideTotal e.asStr ls := by
  induction h with
  | nil => rfl
  | @cons k l ls d rows hd _ ih =>
    have ih := ih fun m hm => hscale m (List.mem_cons_of_mem _ hm)
    have hround : Rounding.roundDp 4 l.amount = l.amount :=
      Rounding.roundDp_of_hasScale (hscale l List.mem_cons_self)
    simp only [PostingRow.sumOn, sideTotal] at ih
    simp only [PostingRow.sumOn, sideTotal, List.map_cons, List.sum_cons, List.filter_cons,
      eqIgnoreAsciiCase_of_fromDb hd, ih, lineRow, hround]
    by_cases hde : d = e <;> simp [hde]

/-- What an accepted request wrote. -/
structure Executed (db db' : Db) (req : Request) (ledger : Uuid) (body : CreateTransactionBody)
    (kind : TxnKind) (rows : List PostingRow) (t : Transaction) (ps : List Posting) : Prop where
  enough : 2 ≤ body.lines.length
  balance : sideTotal "DEBIT" body.lines = sideTotal "CREDIT" body.lines
  kind_read : TxnKind.fromDb (body.kind.getD "standard") = some kind
  header : t.header = { ledgerId := ledger, txnDate := body.date, kind := kind }
  lines : LineRows req 0 body.lines rows
  stored : List.Forall₂ PostingRow.Stored rows ps
  writes : ∃ b', db' = { db with books := b' } ∧ Books.Posts db.books b' t ps

theorem execute_spec {db db' : Db} {user ledger : Uuid} {body : CreateTransactionBody}
    {r : CreateTransactionResponse} (h : execute db req user ledger body = .ok (r, db')) :
    ∃ kind rows t ps, Executed db db' req ledger body kind rows t ps := by
  simp only [execute, bind_eq_ok, okOr_eq_ok, ensure_eq_ok, mapError_eq_ok] at h
  obtain ⟨_, -, -, henough, -, hbalance, _, -, l, hl, kind, hkind, db₁, htxn, db₂, hlines, h⟩ := h
  cases h
  obtain ⟨rows, hrows, heach⟩ := insertLines_eq hlines
  have hentry : db.insertEntry (txnRow req user l body kind) rows = .ok db' := by
    simp only [Db.insertEntry, bind_eq_ok]
    exact ⟨db₁, htxn, heach⟩
  obtain ⟨-, b', ps, rfl, hposts, hstored, -⟩ :=
    Db.insertEntry_spec (fun r hr => hrows.transactionId r hr) hentry
  have hid : l.id = ledger := by simpa using List.find?_some hl
  exact ⟨kind, rows, _, ps, henough, hbalance, hkind,
    by simp [Transaction.header, txnRow, hid], hrows, hstored, b', rfl, hposts⟩

theorem create_cases (db : Db) (req : Request) (user ledger : Uuid)
    (body : CreateTransactionBody) :
    (create db req user ledger body).2 = db ∨ ∃ kind rows t ps,
      Executed db (create db req user ledger body).2 req ledger body kind rows t ps := by
  rcases commit_cases db (execute db req user ledger body) with h | ⟨a, db', hbody, h⟩
  · exact Or.inl h
  · right
    rw [create, h]
    exact execute_spec hbody

theorem Executed.balanced {db db' : Db} {ledger : Uuid} {body : CreateTransactionBody}
    {kind : TxnKind} {t : Transaction} {ps : List Posting}
    (h : Executed db db' req ledger body kind rows t ps)
    (hscale : ∀ l ∈ body.lines, Rounding.HasScale 4 l.amount) : (Write.post t ps).Balanced := by
  constructor
  · rw [← h.stored.length_eq, h.lines.length]
    exact h.enough
  · rw [PostingRow.Stored.sumOn_eq h.stored, PostingRow.Stored.sumOn_eq h.stored,
      h.lines.sumOn hscale, h.lines.sumOn hscale]
    exact h.balance

end Transactions

end Api

end OpenAccounting
