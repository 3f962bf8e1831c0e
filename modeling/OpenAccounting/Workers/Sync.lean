import OpenAccounting.Db.Inserts

/-!
# The bank-feed sync

`sync_one` and `import_transaction` of `workers/sync.rs`.  A provider transaction that the
link has not imported yet becomes a transaction with one posting on the account of the
link, or with none if the link has no account.  The rows and the record in
`bank_feed_transactions`, which is unique by link and provider id, are committed together.

What the provider returns and whether the token can be opened is an input.
-/

namespace OpenAccounting

open Calendar Commit

structure RemoteTransaction where
  providerTxnId : String
  date : NaiveDate
  amount : ℚ
  description : String
  payee : Option String := none
deriving DecidableEq

inductive BankFeedError where
  | http (message : String)
  | tokenDecryption
  | missingCredential (name : String)
  | invalidData (message : String)
  | db (e : SqlError)
  | internal (message : String)
deriving DecidableEq

namespace Sync

/-- What `fetch_transactions` answers: the transactions and the new cursor. -/
abbrev Fetched : Type := List RemoteTransaction × Option String

/-- `SELECT EXISTS(… WHERE link_id = $1 AND provider_txn_id = $2)`. -/
def Imported (db : Db) (link : Uuid) (providerTxnId : String) : Prop :=
  ∃ r ∈ db.bankFeedTransactions, r.linkId = link ∧ r.providerTxnId = providerTxnId

instance (db : Db) (link : Uuid) (providerTxnId : String) :
    Decidable (Imported db link providerTxnId) := by
  unfold Imported
  infer_instance

/-- The row of the `n`-th transaction of a sync. -/
def remoteTxn (req : Request) (n : ℕ) (createdBy : Uuid) (ledger : Ledger)
    (t : RemoteTransaction) : Transaction where
  id := req.txnId n
  ledgerId := ledger.id
  txnDate := t.date
  description := t.description
  payee := t.payee
  currency := ledger.baseCurrency
  kind := .standard
  createdBy := createdBy
  createdAt := req.now

/-- The posting on the account of the link, if it has one. -/
def remoteLegs (req : Request) (n : ℕ) (link : BankFeedLink) (t : RemoteTransaction) :
    List PostingRow :=
  link.accountIdInLedger.toList.map fun account =>
    { id := req.postingId n 0, transactionId := req.txnId n, accountId := account
      amount := |t.amount|
      direction := if 0 ≤ t.amount then .debit else .credit }

def insertRecord (db : Db) (r : BankFeedTransaction) : Except SqlError Db := do
  ensure (∃ l ∈ db.bankFeedLinks, l.id = r.linkId) (.foreignKeyViolation "link_id")
  ensure (r.transactionId.all fun txn => txn ∈ db.books.txnIds)
    (.foreignKeyViolation "transaction_id")
  ensure (∀ s ∈ db.bankFeedTransactions, s.id ≠ r.id)
    (.uniqueViolation "bank_feed_transactions_pkey")
  ensure (¬ Imported db r.linkId r.providerTxnId) (.uniqueViolation "uq_bank_feed_txn")
  .ok { db with bankFeedTransactions := db.bankFeedTransactions ++ [r] }

/-- `import_transaction` behind the existence check.  `link` is the row as the sync read
it. -/
def insertRemote (db : Db) (req : Request) (n : ℕ) (link : BankFeedLink) (t : RemoteTransaction) :
    Except BankFeedError Db := do
  -- `SELECT id FROM users LIMIT 1`, with `fetch_one`.
  let user ← okOr db.users.head? (.db .rowNotFound)
  let ledger ← okOr (db.findLedger link.ledgerId) (.db .rowNotFound)
  let db ← mapError .db
    (db.insertEntry (remoteTxn req n user.id ledger t) (remoteLegs req n link t))
  mapError .db (insertRecord db
    { id := req.rowId n, linkId := link.id, providerTxnId := t.providerTxnId
      transactionId := some (req.txnId n) })

def importTransaction (db : Db) (req : Request) (n : ℕ) (link : BankFeedLink)
    (t : RemoteTransaction) : Except BankFeedError Unit × Db :=
  if Imported db link.id t.providerTxnId then (.ok (), db)
  else commit db ((insertRemote db req n link t).map fun db => ((), db))

/-- The loop of `sync_one`.  What was committed before a failure stays. -/
def importAll (req : Request) (link : BankFeedLink) :
    ℕ → Db → List RemoteTransaction → Except BankFeedError Unit × Db
  | _, db, [] => (.ok (), db)
  | n, db, t :: ts =>
    andThen (importTransaction db req n link t) fun _ db => importAll req link (n + 1) db ts

/-- `UPDATE bank_feed_links SET cursor = …`. -/
def updateCursor (db : Db) (link : Uuid) (cursor : Option String) : Db :=
  { db with
    bankFeedLinks := db.bankFeedLinks.map fun l =>
      if l.id = link then { l with cursor := cursor, errorMessage := none } else l }

/-- `sync_one`, with the answer of the provider. -/
def syncOne (db : Db) (req : Request) (link : BankFeedLink)
    (fetched : Except BankFeedError Fetched) : Except BankFeedError Unit × Db :=
  match fetched with
  | .error e => (.error e, db)
  | .ok (txns, newCursor) =>
    andThen (importAll req link 0 db txns) fun _ db => (.ok (), updateCursor db link.id newCursor)

/-- What `run_once` records of a failed sync. -/
def markError (db : Db) (link : Uuid) (message : String) : Db :=
  { db with
    bankFeedLinks := db.bankFeedLinks.map fun l =>
      if l.id = link then { l with status := .error, errorMessage := some message } else l }

/-! ## What an import writes -/

section

variable {db db' : Db} {req : Request} {n : ℕ} {link : BankFeedLink} {t : RemoteTransaction}

theorem remoteLegs_length (req : Request) (n : ℕ) (link : BankFeedLink) (t : RemoteTransaction) :
    (remoteLegs req n link t).length ≤ 1 := by
  rw [remoteLegs, List.length_map]
  cases link.accountIdInLedger <;> simp

theorem remoteLegs_owned :
    ∀ r ∈ remoteLegs req n link t, r.transactionId = req.txnId n := by
  intro r hr
  obtain ⟨account, -, rfl⟩ := List.mem_map.mp hr
  rfl

theorem insertRecord_ok_iff {r : BankFeedTransaction} :
    insertRecord db r = .ok db' ↔
      (∃ l ∈ db.bankFeedLinks, l.id = r.linkId) ∧
      (r.transactionId.all fun txn => txn ∈ db.books.txnIds) = true ∧
      (∀ s ∈ db.bankFeedTransactions, s.id ≠ r.id) ∧ ¬ Imported db r.linkId r.providerTxnId ∧
      db' = { db with bankFeedTransactions := db.bankFeedTransactions ++ [r] } := by
  simp only [insertRecord, bind_eq_ok, ensure_eq_ok, Except.ok.injEq]
  constructor
  · rintro ⟨-, hlink, -, htxn, -, hid, -, hnew, h⟩
    exact ⟨hlink, htxn, hid, hnew, h.symm⟩
  · rintro ⟨hlink, htxn, hid, hnew, h⟩
    exact ⟨(), hlink, (), htxn, (), hid, (), hnew, h.symm⟩

/-- The record that `insertRemote` adds. -/
def remoteRecord (req : Request) (n : ℕ) (link : BankFeedLink) (t : RemoteTransaction) :
    BankFeedTransaction where
  id := req.rowId n
  linkId := link.id
  providerTxnId := t.providerTxnId
  transactionId := some (req.txnId n)

/-- What a committed import has written: one entry with one posting at most, and its
record, which is the first with that provider id. -/
structure Wrote (db db' : Db) (req : Request) (n : ℕ) (link : BankFeedLink)
    (t : RemoteTransaction) (row : Transaction) (ps : List Posting) : Prop where
  row_id : row.id = req.txnId n
  posts : Books.Posts db.books db'.books row ps
  short : ps.length ≤ 1
  first : ¬ Imported db link.id t.providerTxnId
  records : db'.bankFeedTransactions = db.bankFeedTransactions ++ [remoteRecord req n link t]
  links : db'.bankFeedLinks = db.bankFeedLinks

theorem insertRemote_spec (h : insertRemote db req n link t = .ok db') :
    ∃ row ps, Wrote db db' req n link t row ps := by
  simp only [insertRemote, bind_eq_ok, okOr_eq_ok, mapError_eq_ok] at h
  obtain ⟨user, -, ledger, -, db₁, hentry, hrecord⟩ := h
  obtain ⟨-, b', ps, rfl, hposts, hstored, -⟩ :=
    Db.insertEntry_spec (fun r hr => remoteLegs_owned r hr) hentry
  obtain ⟨-, -, -, hnew, rfl⟩ := insertRecord_ok_iff.mp hrecord
  exact ⟨_, ps, rfl, hposts, hstored.length_eq ▸ remoteLegs_length req n link t, hnew, rfl, rfl⟩

end

end Sync

end OpenAccounting
