import OpenAccounting.Handlers.TransactionsEdit

/-!
# Bulk actions on the transaction list

`bulk_action` of `handlers/transactions_bulk.rs` with its four actions.  `tag`,
`untag` and `delete` run in one database transaction.  `contact` updates one row
at a time without one, so what it did before a failure stays.

`delete` writes, for every selected transaction of the ledger, a `reversing` entry
with the date of the original.
-/

namespace OpenAccounting

open Calendar Commit

namespace TransactionsBulk

/-- Most rows one action accepts. -/
def maxBulk : ℕ := 500

/-- The `action` field of the form. -/
inductive Action where
  | tag
  | untag
  | contact
  | delete
  | other (name : String)
deriving DecidableEq

/-- `BulkForm`, with the ids that parse. -/
structure BulkForm where
  txnIds : List Uuid
  action : Action
  value : Option String := none
  /-- The trimmed value read as an id, or the text of the parse error. -/
  valueId : Except String Uuid := .error ""

/-- What the request is answered with. -/
inductive Outcome where
  | done
  /-- `error_response` with this status and text. -/
  | refused (status : ℕ) (message : String)
deriving DecidableEq

/-! ## Tags -/

/-- `INSERT INTO tags … ON CONFLICT (ledger_id, name) DO UPDATE … RETURNING id`. -/
def upsertTag (db : Db) (req : Request) (ledger : Uuid) (name : String) :
    Except AppError (Uuid × Db) :=
  match db.tags.find? fun g => g.ledgerId = ledger ∧ g.name = name with
  | some g => .ok (g.id, db)
  | none => do
    ensure (∀ g ∈ db.tags, g.id ≠ req.rowId 0) (.db (.uniqueViolation "tags_pkey"))
    .ok (req.rowId 0, { db with tags := db.tags ++
      [{ id := req.rowId 0, ledgerId := ledger, name := name }] })

/-- `INSERT INTO transaction_tags … SELECT … ON CONFLICT DO NOTHING`. -/
def attachTag (db : Db) (ledger tag txn : Uuid) : Db :=
  if (db.books.findTxnIn txn ledger).isSome ∧
      ¬ ∃ g ∈ db.transactionTags, g.transactionId = txn ∧ g.tagId = tag then
    { db with transactionTags := db.transactionTags ++ [{ transactionId := txn, tagId := tag }] }
  else db

def tagAction (db : Db) (req : Request) (ledger : Uuid) (ids : List Uuid)
    (value : Option String) : Except AppError Db := do
  let name ← okOr (RustStr.nonEmptyTrimmed value) (.validation "tag action requires a value")
  let (tag, db) ← upsertTag db req ledger name
  .ok (ids.foldl (fun db id => attachTag db ledger tag id) db)

/-- `DELETE FROM transaction_tags … USING transactions`. -/
def detachTag (db : Db) (ledger tag txn : Uuid) : Db :=
  { db with
    transactionTags := db.transactionTags.filter fun g =>
      ¬ (g.transactionId = txn ∧ g.tagId = tag ∧ (db.books.findTxnIn txn ledger).isSome) }

def untagAction (db : Db) (ledger : Uuid) (ids : List Uuid) (value : Option String) :
    Except AppError Db := do
  let name ← okOr (RustStr.nonEmptyTrimmed value) (.validation "untag action requires a value")
  let g ← okOr (db.tags.find? fun g => g.ledgerId = ledger ∧ g.name = name)
    (.validation ("tag not found: " ++ name))
  .ok (ids.foldl (fun db id => detachTag db ledger g.id id) db)

/-! ## Contacts -/

/-- One `UPDATE transactions SET contact_id = … WHERE id = … AND ledger_id = …`. -/
def setContact (db : Db) (ledger contact txn : Uuid) : Except SqlError Db :=
  db.updateTransactions (fun t => t.id = txn ∧ t.ledgerId = ledger)
    (fun t => { t with contactId := some contact }) (fun _ => rfl)

/-- The updates one by one.  A failure keeps the rows updated before it. -/
def setContacts (ledger contact : Uuid) : Db → List Uuid → Except AppError Unit × Db
  | db, [] => (.ok (), db)
  | db, id :: ids =>
    match setContact db ledger contact id with
    | .ok db => setContacts ledger contact db ids
    | .error e => (.error (.db e), db)

/-- The checks of `contact_action`. -/
def contactOf (db : Db) (ledger : Uuid) (form : BulkForm) : Except AppError Uuid := do
  let _ ← okOr (RustStr.nonEmptyTrimmed form.value)
    (.validation "contact action requires a value")
  let contact ← mapError (fun e => .validation ("invalid contact id: " ++ e)) form.valueId
  ensure (∃ c ∈ db.contacts, c.id = contact ∧ c.ledgerId = ledger) .notFound
  .ok contact

def contactAction (db : Db) (ledger : Uuid) (form : BulkForm) : Except AppError Unit × Db :=
  match contactOf db ledger form with
  | .error e => (.error e, db)
  | .ok contact => setContacts ledger contact db form.txnIds

/-! ## Delete -/

/-- The reversal of the `n`-th selected transaction, with its date. -/
def reversalRow (req : Request) (n : ℕ) (user ledger : Uuid) (original : Transaction) :
    Transaction where
  id := req.txnId n
  ledgerId := ledger
  txnDate := original.txnDate
  description := "REVERSAL of " ++ original.description
  payee := original.payee
  reference := original.reference
  currency := original.currency
  kind := .reversing
  createdBy := user
  createdAt := req.now

/-- One selected transaction: its reversal and, in one statement, the postings. -/
def reverseOne (db : Db) (req : Request) (n : ℕ) (user ledger : Uuid) (original : Transaction) :
    Except SqlError Db := do
  let db ← db.insertTransaction (reversalRow req n user ledger original)
  db.insertPostings
    (flippedRows req n (fun _ => some "reversal") 0 (db.books.postingsOf original.id))

/-- The loop of `delete_action`, from the `n`-th selected id on. -/
def reverseAll (req : Request) (user ledger : Uuid) : ℕ → Db → List Uuid → Except SqlError Db
  | _, db, [] => .ok db
  | n, db, id :: ids =>
    match db.books.findTxnIn id ledger with
    | none => reverseAll req user ledger (n + 1) db ids
    | some original => do
      let db ← reverseOne db req n user ledger original
      reverseAll req user ledger (n + 1) db ids

def deleteAction (db : Db) (req : Request) (user ledger : Uuid) (ids : List Uuid) :
    Except AppError Db :=
  mapError .db (reverseAll req user ledger 0 db ids)

/-! ## The handler -/

/-- The actions that run in one database transaction. -/
def runAction (db : Db) (req : Request) (user ledger : Uuid) (form : BulkForm) :
    Except AppError Unit × Db :=
  match form.action with
  | .tag => commit db ((tagAction db req ledger form.txnIds form.value).map fun db => ((), db))
  | .untag => commit db ((untagAction db ledger form.txnIds form.value).map fun db => ((), db))
  | .contact => contactAction db ledger form
  | .delete => commit db ((deleteAction db req user ledger form.txnIds).map fun db => ((), db))
  | .other name => (.error (.validation ("unknown bulk action: " ++ name)), db)

/-- The checks before the action: the user, or an early answer. -/
def authorize (db : Db) (auth : Option Uuid) (ledger : Uuid) (form : BulkForm) :
    Except AppError Uuid := do
  let user ← okOr auth .unauthorized
  let _ ← db.ensureOwner user ledger
  ensure (form.txnIds ≠ []) (.validation "txn_ids must contain at least one uuid")
  .ok user

def bulkAction (db : Db) (req : Request) (auth : Option Uuid) (ledger : Uuid) (form : BulkForm) :
    Except AppError Outcome × Db :=
  match authorize db auth ledger form with
  | .error e => (.error e, db)
  | .ok user =>
    if maxBulk < form.txnIds.length then
      (.ok (.refused 422 ("bulk action limited to 500 rows; got " ++
        toString form.txnIds.length)), db)
    else
      let (result, db) := runAction db req user ledger form
      (result.map fun _ => .done, db)

/-! ## What the handler does -/

/-- A request that changes something was made by the owner and ran its action. -/
theorem bulkAction_cases (db : Db) (req : Request) (auth : Option Uuid) (ledger : Uuid)
    (form : BulkForm) :
    (bulkAction db req auth ledger form).2 = db ∨
      ∃ user, auth = some user ∧ (∃ l, db.ensureOwner user ledger = .ok l) ∧
        (bulkAction db req auth ledger form).2 = (runAction db req user ledger form).2 := by
  unfold bulkAction
  cases hauth : authorize db auth ledger form with
  | error e => exact Or.inl rfl
  | ok user =>
    dsimp only
    split
    · exact Or.inl rfl
    · right
      simp only [authorize, bind_eq_ok, okOr_eq_ok, ensure_eq_ok] at hauth
      obtain ⟨user', hauth, l, hl, -, -, huser⟩ := hauth
      cases huser
      exact ⟨user, hauth, ⟨l, hl⟩, rfl⟩

theorem commit_map_cases {ε : Type} (db : Db) (body : Except ε Db) :
    (commit db (body.map fun db' => ((), db'))).2 = db ∨
      ∃ db', body = .ok db' ∧ (commit db (body.map fun db' => ((), db'))).2 = db' := by
  cases body with
  | error e => exact Or.inl rfl
  | ok db' => exact Or.inr ⟨db', rfl, rfl⟩

theorem bulkDelete_cases (db : Db) (req : Request) (auth : Option Uuid) (ledger : Uuid)
    (form : BulkForm) (haction : form.action = .delete) :
    (bulkAction db req auth ledger form).2 = db ∨
      ∃ user db', reverseAll req user ledger 0 db form.txnIds = .ok db' ∧
        (bulkAction db req auth ledger form).2 = db' := by
  rcases bulkAction_cases db req auth ledger form with h | ⟨user, -, -, h⟩
  · exact Or.inl h
  · rw [h]
    simp only [runAction, haction]
    rcases commit_map_cases db (deleteAction db req user ledger form.txnIds) with h | ⟨db', hok, h⟩
    · exact Or.inl h
    · right
      rw [deleteAction, mapError_eq_ok] at hok
      exact ⟨user, db', hok, h⟩

/-! ## What delete does -/

/-- One reversal: one entry with the date of the original and its postings
flipped. -/
theorem reverseOne_spec {db db' : Db} {req : Request} {n : ℕ} {user ledger : Uuid}
    {original : Transaction} (h : reverseOne db req n user ledger original = .ok db') :
    ∃ t ps b', t.header =
        { ledgerId := ledger, txnDate := original.txnDate, kind := .reversing } ∧
      db' = { db with books := b' } ∧ Books.Posts db.books b' t ps ∧
      List.Forall₂ PostingRow.Stored
        (flippedRows req n (fun _ => some "reversal") 0 (db.books.postingsOf original.id)) ps := by
  simp only [reverseOne, bind_eq_ok] at h
  obtain ⟨db₁, htxn, hrows⟩ := h
  obtain ⟨-, hfresh, rfl⟩ := Db.insertTransaction_spec htxn
  obtain ⟨b', ps, rfl, hposts, hstored, -⟩ := Db.insertPostings_posts
    (Books.posts_addTxn hfresh) (fun r hr => flippedRows_transactionId r hr) hrows
  exact ⟨_, ps, b', rfl, rfl, by simpa using hposts, hstored⟩

theorem reverseAll_invariant {P : Books → Prop} {req : Request} {user ledger : Uuid} :
    ∀ {ids : List Uuid} {n : ℕ} {db db' : Db},
      (∀ {b b' : Books} {m : ℕ} {original t : Transaction} {ps : List Posting}, P b →
        original.id ∈ ids → b.findTxnIn original.id ledger = some original →
        t.header = { ledgerId := ledger, txnDate := original.txnDate, kind := .reversing } →
        Books.Posts b b' t ps →
        List.Forall₂ PostingRow.Stored
          (flippedRows req m (fun _ => some "reversal") 0 (b.postingsOf original.id)) ps → P b') →
      P db.books → reverseAll req user ledger n db ids = .ok db' →
      ∃ b', db' = { db with books := b' } ∧ P b'
  | [], n, db, db', _, hdb, h => by
    cases h
    exact ⟨db.books, rfl, hdb⟩
  | id :: ids, n, db, db', hstep, hdb, h => by
    simp only [reverseAll] at h
    have hrest : ∀ {b b' : Books} {m : ℕ} {original t : Transaction} {ps : List Posting}, P b →
        original.id ∈ ids → b.findTxnIn original.id ledger = some original →
        t.header = { ledgerId := ledger, txnDate := original.txnDate, kind := .reversing } →
        Books.Posts b b' t ps →
        List.Forall₂ PostingRow.Stored (flippedRows req m (fun _ => some "reversal") 0
          (b.postingsOf original.id)) ps → P b' :=
      fun hb hid => hstep hb (List.mem_cons_of_mem _ hid)
    split at h
    · exact reverseAll_invariant hrest hdb h
    · next original hfound =>
        rw [bind_eq_ok] at h
        obtain ⟨db₁, hone, h⟩ := h
        obtain ⟨t, ps, b₁, ht, rfl, hposts, hstored⟩ := reverseOne_spec hone
        obtain ⟨-, hid, -⟩ := Books.findTxnIn_spec hfound
        have hb₁ : P b₁ := hstep hdb (by rw [hid]; exact List.mem_cons_self)
          (by rw [hid]; exact hfound) ht hposts hstored
        obtain ⟨b', rfl, hb'⟩ := reverseAll_invariant hrest hb₁ h
        exact ⟨b', rfl, hb'⟩

theorem reverseAll_unnumbered {req : Request} {user ledger : Uuid} {ids : List Uuid} {n : ℕ}
    {db db' : Db} (h : reverseAll req user ledger n db ids = .ok db') :
    ∃ rows, db'.books.transactions = db.books.transactions ++ rows ∧
      ∀ t ∈ rows, t.number = none := by
  induction ids generalizing n db with
  | nil =>
    cases h
    exact ⟨[], by simp⟩
  | cons id ids ih =>
    simp only [reverseAll] at h
    split at h
    · exact ih h
    · next original hfound =>
        simp only [reverseOne, bind_eq_ok] at h
        obtain ⟨db₁, ⟨db₂, htxn, hrows⟩, h⟩ := h
        obtain ⟨-, hfresh, rfl⟩ := Db.insertTransaction_spec htxn
        obtain ⟨b', ps, rfl, hposts, -⟩ := Db.insertPostings_posts
          (Books.posts_addTxn hfresh) (fun r hr => flippedRows_transactionId r hr) hrows
        obtain ⟨rows, heq, hnone⟩ := ih h
        refine ⟨reversalRow req n user ledger original :: rows, ?_, ?_⟩
        · rw [heq, hposts.transactions, List.append_assoc]
          rfl
        · intro t ht
          rcases List.mem_cons.mp ht with rfl | ht
          · rfl
          · exact hnone t ht

theorem bulkDelete_unnumbered (db : Db) (req : Request) (auth : Option Uuid) (ledger : Uuid)
    (form : BulkForm) (haction : form.action = .delete) :
    ∃ rows, (bulkAction db req auth ledger form).2.books.transactions =
        db.books.transactions ++ rows ∧ ∀ t ∈ rows, t.number = none := by
  rcases bulkDelete_cases db req auth ledger form haction with h | ⟨user, db', hall, h⟩
  · exact ⟨[], by rw [h, List.append_nil], by simp⟩
  · rw [h]
    exact reverseAll_unnumbered hall

end TransactionsBulk

end OpenAccounting
