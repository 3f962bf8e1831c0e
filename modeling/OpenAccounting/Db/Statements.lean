import OpenAccounting.Db.State
import OpenAccounting.Db.Writes
import OpenAccounting.Lib.Commit

/-!
# Statements on the books

The `INSERT`, `UPDATE` and `DELETE` statements that the program runs on
transactions and postings, with the constraints and triggers of the schema.  A
statement either fails, and then the surrounding transaction is rolled back, or
gives the next state.

The trigger function `check_posting_balance` runs after each row of a statement
and sees all rows of the statement.  It tests the transaction of the row it
fired for, once that has two postings.

The rest of the development uses the specifications at the end.  A transaction
row and its postings, written one statement at a time, are one `Books.Posts`, and
with the trigger enabled a written entry of two or more postings balances.  A
change of kind and a removal are the other two writes of `Books.Wrote`.
-/

namespace OpenAccounting

open Calendar Commit Rounding

/-- How a statement fails. -/
inductive SqlError where
  | uniqueViolation (constraint : String)
  | foreignKeyViolation (column : String)
  | notNullViolation (column : String)
  | checkViolation (constraint : String)
  | numericFieldOverflow
  | integerOutOfRange
  /-- `Postings do not balance: debits=%, credits=%`, raised by the trigger. -/
  | postingsDoNotBalance (debits credits : ℚ)
  /-- `ledger % is append-only; edits are not allowed`. -/
  | appendOnlyEdit (ledger : Uuid)
  /-- `ledger % is append-only; deletes are not allowed`. -/
  | appendOnlyDelete (ledger : Uuid)
  /-- `RowNotFound` from `fetch_one`. -/
  | rowNotFound
deriving DecidableEq

/-- A posting as an `INSERT` names it, before the constraints. -/
structure PostingRow where
  id : Uuid
  transactionId : Uuid
  accountId : Uuid
  amount : ℚ
  direction : Direction
  memo : Option String := none
  foreignAmount : Option ℚ := none
  foreignCurrency : Option String := none
  costCenterId : Option Uuid := none
  projectId : Option Uuid := none

/-- The column type of every amount, `NUMERIC(20,4)`. -/
def amountColumn (x : ℚ) : Option ℚ := numeric 20 4 x

namespace Db

/-! ## Transactions -/

/-- `uq_transactions_number` and `uq_txn_template_due` allow the row. -/
def TxnUnique (db : Db) (t : Transaction) : Prop :=
  ∀ s ∈ db.books.transactions,
    ¬ (t.number.isSome ∧ s.ledgerId = t.ledgerId ∧
        Transaction.numberYear s.txnDate = Transaction.numberYear t.txnDate ∧
        s.number = t.number) ∧
    ¬ (t.templateId.isSome ∧ s.templateId = t.templateId ∧ s.txnDate = t.txnDate)

instance (db : Db) (t : Transaction) : Decidable (db.TxnUnique t) := by
  unfold TxnUnique
  infer_instance

def insertTransaction (db : Db) (t : Transaction) : Except SqlError Db := do
  ensure (db.HasLedger t.ledgerId) (.notNullViolation "currency")
  ensure (∃ u ∈ db.users, u.id = t.createdBy) (.foreignKeyViolation "created_by")
  ensure (t.reversesId.all fun r => r ∈ db.books.txnIds) (.foreignKeyViolation "reverses_id")
  ensure (t.templateId.all fun r => ∃ tpl ∈ db.templates, tpl.id = r)
    (.foreignKeyViolation "template_id")
  ensure (db.TxnUnique t) (.uniqueViolation "transactions")
  if h : t.id ∈ db.books.txnIds then .error (.uniqueViolation "transactions_pkey")
  else .ok { db with books := db.books.addTxn t h }

/-- `UPDATE transactions SET … WHERE …`, blocked by `trg_block_txn_edit` when the
ledger of a touched row is append-only. -/
def updateTransactions (db : Db) (touched : Transaction → Bool)
    (f : Transaction → Transaction) (hf : ∀ t, (f t).id = t.id) : Except SqlError Db := do
  ensure (∀ t ∈ db.books.transactions, touched t →
      ∀ l ∈ db.ledgers, l.id = t.ledgerId → l.appendOnly = false)
    (.appendOnlyEdit 0)
  .ok { db with
    books := db.books.mapTxns (fun t => if touched t then f t else t) (by
      intro t
      by_cases h : touched t <;> simp [h, hf]) }

/-- `UPDATE transactions SET kind = … WHERE id = $1`. -/
def setKind (db : Db) (txn : Uuid) (kind : TxnKind) : Except SqlError Db :=
  db.updateTransactions (fun t => t.id = txn) (fun t => { t with kind := kind }) (fun _ => rfl)

/-- `UPDATE transactions SET kind = … WHERE id = $1 AND ledger_id = $2`. -/
def setKindIn (db : Db) (txn ledger : Uuid) (kind : TxnKind) : Except SqlError Db :=
  db.updateTransactions (fun t => t.id = txn ∧ t.ledgerId = ledger)
    (fun t => { t with kind := kind }) (fun _ => rfl)

/-- `DELETE FROM transactions WHERE id = $1`, blocked by `trg_block_txn_delete`
when the ledger is append-only.  Postings with their tax links, approvals and tags
of the row go with it, and a reversal or a bank-feed record of it loses its link. -/
def deleteTransaction (db : Db) (txn : Uuid) : Except SqlError Db := do
  ensure (∀ t ∈ db.books.transactions, t.id = txn →
      ∀ l ∈ db.ledgers, l.id = t.ledgerId → l.appendOnly = false)
    (.appendOnlyDelete 0)
  let db ← db.updateTransactions (fun t => t.reversesId = some txn)
    (fun t => { t with reversesId := none }) (fun _ => rfl)
  .ok { db with
    books := db.books.removeTxn txn
    postingTaxes := db.postingTaxes.filter fun x =>
      ∀ p ∈ db.books.postingsOf txn, p.id ≠ x.postingId
    approvals := db.approvals.filter fun a => a.txnId ≠ txn
    transactionTags := db.transactionTags.filter fun g => g.transactionId ≠ txn
    bankFeedTransactions := db.bankFeedTransactions.map fun r =>
      if r.transactionId = some txn then { r with transactionId := none } else r }

/-! ## Accounts -/

def insertAccount (db : Db) (a : Account) : Except SqlError Db := do
  ensure (db.HasLedger a.ledgerId) (.foreignKeyViolation "ledger_id")
  ensure (∀ c ∈ db.books.accounts, ¬ (c.ledgerId = a.ledgerId ∧ c.name = a.name))
    (.uniqueViolation "accounts_ledger_id_name_key")
  if h : a.id ∈ db.books.accountIds then .error (.uniqueViolation "accounts_pkey")
  else .ok { db with books := db.books.addAccount a h }

/-! ## Postings -/

def checkPostingBalance (b : Books) (txn : Uuid) : Except SqlError Unit := do
  let drTotal ← okOr (amountColumn (Posting.sumOn .debit (b.postingsOf txn))) .numericFieldOverflow
  let crTotal ← okOr (amountColumn (Posting.sumOn .credit (b.postingsOf txn)))
    .numericFieldOverflow
  ensure (¬ (2 ≤ (b.postingsOf txn).length ∧ drTotal ≠ crTotal))
    (.postingsDoNotBalance drTotal crTotal)

/-- One row of an `INSERT INTO postings`, without the trigger. -/
def insertPostingRow (b : Books) (r : PostingRow) : Except SqlError Books := do
  ensure (amountColumn r.amount).isSome .numericFieldOverflow
  ensure (∀ x ∈ r.foreignAmount, (amountColumn x).isSome) .numericFieldOverflow
  ensure (∀ p ∈ b.postings, p.id ≠ r.id) (.uniqueViolation "postings_pkey")
  if hpos : 0 < roundDp 4 r.amount then
    if ht : r.transactionId ∈ b.txnIds then
      if ha : r.accountId ∈ b.accountIds then
        .ok (b.addPosting
          { id := r.id, transactionId := r.transactionId, accountId := r.accountId,
            amount := roundDp 4 r.amount, direction := r.direction, memo := r.memo,
            foreignAmount := r.foreignAmount.bind amountColumn,
            foreignCurrency := r.foreignCurrency, costCenterId := r.costCenterId,
            projectId := r.projectId, amount_pos := hpos,
            amount_scale := hasScale_roundDp 4 r.amount } ht ha)
      else .error (.foreignKeyViolation "account_id")
    else .error (.foreignKeyViolation "transaction_id")
  else .error (.checkViolation "postings_amount_check")

/-- The rows of one statement, in order. -/
def insertPostingRows (b : Books) : List PostingRow → Except SqlError Books
  | [] => .ok b
  | r :: rs => do
    let b ← insertPostingRow b r
    insertPostingRows b rs

/-- The trigger for every row of a statement. -/
def fireBalanceTrigger (b : Books) : List PostingRow → Except SqlError Unit
  | [] => .ok ()
  | r :: rs => do
    checkPostingBalance b r.transactionId
    fireBalanceTrigger b rs

/-- `INSERT INTO postings` of the given rows as one statement. -/
def insertPostings (db : Db) (rows : List PostingRow) : Except SqlError Db := do
  let b ← insertPostingRows db.books rows
  -- A disabled trigger fires for no row.
  fireBalanceTrigger b (if db.balanceTrigger then rows else [])
  .ok { db with books := b }

def insertPostingsEach (db : Db) : List PostingRow → Except SqlError Db
  | [] => .ok db
  | r :: rs => do
    let db ← db.insertPostings [r]
    db.insertPostingsEach rs

/-- A transaction row followed by its postings, one statement each. -/
def insertEntry (db : Db) (t : Transaction) (rows : List PostingRow) : Except SqlError Db := do
  let db ← db.insertTransaction t
  db.insertPostingsEach rows

end Db

/-! ## What the statements do -/

structure PostingRow.Stored (r : PostingRow) (p : Posting) : Prop where
  transactionId : p.transactionId = r.transactionId
  accountId : p.accountId = r.accountId
  amount : p.amount = roundDp 4 r.amount
  direction : p.direction = r.direction
  foreignAmount : p.foreignAmount = r.foreignAmount.bind amountColumn

namespace Db

/-- An inserted transaction has a fresh id and changes nothing but the books. -/
theorem insertTransaction_spec {db db' : Db} {t : Transaction}
    (h : db.insertTransaction t = .ok db') :
    db.HasLedger t.ledgerId ∧ ∃ hfresh : t.id ∉ db.books.txnIds,
      db' = { db with books := db.books.addTxn t hfresh } := by
  simp only [insertTransaction, bind_eq_ok, ensure_eq_ok] at h
  obtain ⟨-, hledger, -, -, -, -, -, -, -, -, h⟩ := h
  split at h
  · cases h
  · next hfresh =>
      cases h
      exact ⟨hledger, hfresh, rfl⟩

/-- An inserted account has a fresh id and changes nothing but the books. -/
theorem insertAccount_spec {db db' : Db} {a : Account} (h : db.insertAccount a = .ok db') :
    ∃ hfresh : a.id ∉ db.books.accountIds,
      db' = { db with books := db.books.addAccount a hfresh } := by
  simp only [insertAccount, bind_eq_ok, ensure_eq_ok] at h
  obtain ⟨-, -, -, -, h⟩ := h
  split at h
  · cases h
  · next hfresh =>
      cases h
      exact ⟨hfresh, rfl⟩

theorem insertPostingRow_spec {b b' : Books} {r : PostingRow}
    (h : insertPostingRow b r = .ok b') :
    ∃ (p : Posting) (ht : p.transactionId ∈ b.txnIds) (ha : p.accountId ∈ b.accountIds),
      r.Stored p ∧ b' = b.addPosting p ht ha := by
  simp only [insertPostingRow, bind_eq_ok, ensure_eq_ok] at h
  obtain ⟨-, -, -, -, -, -, h⟩ := h
  split at h
  · next hpos =>
      split at h
      · next ht =>
          split at h
          · next ha =>
              cases h
              exact ⟨_, ht, ha, ⟨rfl, rfl, rfl, rfl, rfl⟩, rfl⟩
          · cases h
      · cases h
  · cases h

theorem insertPostingRows_posts {b₀ : Books} {t : Transaction} :
    ∀ {rows : List PostingRow} {b b' : Books} {ps : List Posting},
      Books.Posts b₀ b t ps → (∀ r ∈ rows, r.transactionId = t.id) →
      insertPostingRows b rows = .ok b' →
      ∃ qs, Books.Posts b₀ b' t (ps ++ qs) ∧ List.Forall₂ PostingRow.Stored rows qs
  | [], b, b', ps, hposts, _, h => by
    cases h
    exact ⟨[], by simpa using hposts, .nil⟩
  | r :: rows, b, b', ps, hposts, howned, h => by
    simp only [insertPostingRows, bind_eq_ok] at h
    obtain ⟨b₁, hr, hrows⟩ := h
    obtain ⟨p, ht, ha, hstored, rfl⟩ := insertPostingRow_spec hr
    have hp : p.transactionId = t.id := by
      rw [hstored.transactionId]
      exact howned r List.mem_cons_self
    obtain ⟨qs, hqs, hall⟩ := insertPostingRows_posts (hposts.add hp ht ha)
      (fun s hs => howned s (List.mem_cons_of_mem _ hs)) hrows
    exact ⟨p :: qs, by simpa using hqs, .cons hstored hall⟩

theorem checkPostingBalance_spec {b : Books} {txn : Uuid} {u : Unit}
    (h : checkPostingBalance b txn = .ok u) (hlen : 2 ≤ (b.postingsOf txn).length)
    (hdr : HasScale 4 (Posting.sumOn .debit (b.postingsOf txn)))
    (hcr : HasScale 4 (Posting.sumOn .credit (b.postingsOf txn))) : b.Balanced txn := by
  simp only [checkPostingBalance, bind_eq_ok, okOr_eq_ok, ensure_eq_ok] at h
  obtain ⟨dr, hdrs, cr, hcrs, hcheck⟩ := h
  have hdr' := numeric_of_hasScale hdr hdrs
  have hcr' := numeric_of_hasScale hcr hcrs
  refine ⟨hlen, ?_⟩
  by_contra hne
  exact hcheck ⟨hlen, by rw [hdr', hcr']; exact hne⟩

theorem fireBalanceTrigger_spec {b : Books} {r : PostingRow} {rows : List PostingRow} {u : Unit}
    (hr : r ∈ rows) (h : fireBalanceTrigger b rows = .ok u) :
    ∃ v, checkPostingBalance b r.transactionId = .ok v := by
  induction rows with
  | nil => cases hr
  | cons s rows ih =>
    simp only [fireBalanceTrigger, bind_eq_ok] at h
    obtain ⟨v, hs, hrest⟩ := h
    rcases List.mem_cons.mp hr with rfl | hr
    · exact ⟨v, hs⟩
    · exact ih hr hrest

end Db

/-! ## Stored amounts -/

namespace PostingRow

/-- The sum of the rows of one side, as they are stored. -/
def sumOn (d : Direction) (rows : List PostingRow) : ℚ :=
  (rows.map fun r => if r.direction = d then roundDp 4 r.amount else 0).sum

@[simp] theorem sumOn_cons (d : Direction) (r : PostingRow) (rows : List PostingRow) :
    sumOn d (r :: rows) = (if r.direction = d then roundDp 4 r.amount else 0) + sumOn d rows := by
  simp [sumOn]

theorem Stored.sumOn_eq {rows : List PostingRow} {ps : List Posting}
    (h : List.Forall₂ Stored rows ps) (d : Direction) : Posting.sumOn d ps = sumOn d rows := by
  induction h with
  | nil => rfl
  | cons hr _ ih =>
    rw [Posting.sumOn_cons, ih, hr.direction, hr.amount]
    simp [sumOn]

theorem hasScale_sumOn (d : Direction) (rows : List PostingRow) : HasScale 4 (sumOn d rows) := by
  induction rows with
  | nil => exact ⟨0, by simp [sumOn]⟩
  | cons r rows ih =>
    obtain ⟨k, hk⟩ := ih
    obtain ⟨m, hm⟩ := hasScale_roundDp 4 r.amount
    by_cases hd : r.direction = d
    · refine ⟨m + k, ?_⟩
      simp only [sumOn, List.map_cons, List.sum_cons, hd, if_true] at hk ⊢
      rw [hk, hm]
      push_cast
      ring
    · refine ⟨k, ?_⟩
      simp only [sumOn, List.map_cons, List.sum_cons, hd, if_false, zero_add] at hk ⊢
      exact hk

end PostingRow

/-! ## Entries -/

namespace Db

variable {db db' : Db} {rows : List PostingRow} {t : Transaction} {txn : Uuid} {b' : Books}

/-- The entry of a transaction whose rows were written by one statement. -/
theorem insertPostings_posts {b₀ : Books} {ps : List Posting}
    (hposts : Books.Posts b₀ db.books t ps) (howned : ∀ r ∈ rows, r.transactionId = t.id)
    (h : db.insertPostings rows = .ok db') :
    ∃ b' qs, db' = { db with books := b' } ∧ Books.Posts b₀ b' t (ps ++ qs) ∧
      List.Forall₂ PostingRow.Stored rows qs ∧
      (db.balanceTrigger = true → rows ≠ [] → ∃ v, checkPostingBalance b' t.id = .ok v) := by
  simp only [insertPostings, bind_eq_ok] at h
  obtain ⟨b', hrows, u, hfire, hdb⟩ := h
  cases hdb
  obtain ⟨qs, hqs, hall⟩ := insertPostingRows_posts hposts howned hrows
  refine ⟨b', qs, rfl, hqs, hall, ?_⟩
  intro htrigger hne
  obtain ⟨r, hr⟩ := List.exists_mem_of_ne_nil rows hne
  rw [htrigger, if_pos rfl] at hfire
  have := fireBalanceTrigger_spec hr hfire
  rwa [howned r hr] at this

theorem insertPostingsEach_posts {b₀ : Books} :
    ∀ {rows : List PostingRow} {db db' : Db} {ps : List Posting},
      Books.Posts b₀ db.books t ps → (∀ r ∈ rows, r.transactionId = t.id) →
      db.insertPostingsEach rows = .ok db' →
      ∃ b' qs, db' = { db with books := b' } ∧ Books.Posts b₀ b' t (ps ++ qs) ∧
        List.Forall₂ PostingRow.Stored rows qs ∧
        (db.balanceTrigger = true → rows ≠ [] → ∃ v, checkPostingBalance b' t.id = .ok v)
  | [], db, db', ps, hposts, _, h => by
    cases h
    exact ⟨db.books, [], rfl, by simpa using hposts, .nil, fun _ hne => absurd rfl hne⟩
  | r :: rows, db, db', ps, hposts, howned, h => by
    simp only [insertPostingsEach, bind_eq_ok] at h
    obtain ⟨db₁, hr, hrows⟩ := h
    obtain ⟨b₁, qs₁, rfl, hposts₁, hall₁, hcheck₁⟩ := insertPostings_posts hposts
      (fun s hs => howned s (by rw [List.mem_singleton] at hs; simp [hs])) hr
    obtain ⟨b₂, qs₂, rfl, hposts₂, hall₂, hcheck₂⟩ := insertPostingsEach_posts hposts₁
      (fun s hs => howned s (List.mem_cons_of_mem _ hs)) hrows
    refine ⟨b₂, qs₁ ++ qs₂, rfl, by simpa using hposts₂, ?_, ?_⟩
    · have := List.rel_append hall₁ hall₂
      simpa using this
    · intro htrigger _
      -- The last statement decides: its check saw every posting of the entry.
      cases rows with
      | nil =>
        cases hall₂
        simp only [insertPostingsEach] at hrows
        have hb : b₁ = b₂ := by
          have := congrArg Db.books (Except.ok.inj hrows)
          simpa using this
        rw [← hb]
        exact hcheck₁ htrigger (by simp)
      | cons s rest => exact hcheck₂ htrigger (by simp)

/-- Writing an entry: the books gain `t` with the stored postings of `rows`, and
nothing else changes.  With the trigger enabled, two or more postings balance. -/
theorem insertEntry_spec (howned : ∀ r ∈ rows, r.transactionId = t.id)
    (h : db.insertEntry t rows = .ok db') :
    db.HasLedger t.ledgerId ∧
    ∃ b' ps, db' = { db with books := b' } ∧ Books.Posts db.books b' t ps ∧
      List.Forall₂ PostingRow.Stored rows ps ∧
      (db.balanceTrigger = true → 2 ≤ rows.length → b'.Balanced t.id) := by
  simp only [insertEntry, bind_eq_ok] at h
  obtain ⟨db₁, htxn, hrows⟩ := h
  obtain ⟨hledger, hfresh, rfl⟩ := insertTransaction_spec htxn
  obtain ⟨b', ps, rfl, hposts, hall, hcheck⟩ :=
    insertPostingsEach_posts (Books.posts_addTxn hfresh) howned hrows
  refine ⟨hledger, b', ps, rfl, by simpa using hposts, hall, ?_⟩
  intro htrigger hlen
  obtain ⟨v, hv⟩ := hcheck htrigger (by rintro rfl; simp at hlen)
  have hself : b'.postingsOf t.id = ps := by
    have := hposts.postingsOf_self
    simpa using this
  refine checkPostingBalance_spec hv ?_ ?_ ?_
  · rw [hself, ← hall.length_eq]
    exact hlen
  · rw [hself, PostingRow.Stored.sumOn_eq hall]
    exact PostingRow.hasScale_sumOn _ _
  · rw [hself, PostingRow.Stored.sumOn_eq hall]
    exact PostingRow.hasScale_sumOn _ _

/-! ## Kinds and removals -/

theorem updateTransactions_spec {touched : Transaction → Bool} {f : Transaction → Transaction}
    {hf : ∀ t, (f t).id = t.id} (h : db.updateTransactions touched f hf = .ok db') :
    ∃ hf', db' = { db with
      books := db.books.mapTxns (fun t => if touched t then f t else t) hf' } := by
  simp only [updateTransactions, bind_eq_ok] at h
  obtain ⟨-, -, h⟩ := h
  exact ⟨_, (Except.ok.inj h).symm⟩

theorem header_mapTxns {b : Books} {f : Transaction → Transaction} {hf : ∀ t, (f t).id = t.id}
    (s : Uuid) : (b.mapTxns f hf).header s = (b.findTxn s).map fun t => (f t).header := by
  have hmap : (b.mapTxns f hf).findTxn s = (b.findTxn s).map f := by
    show (b.transactions.map f).find? _ = _
    rw [List.find?_map]
    simp only [Function.comp_def, hf]
    rfl
  rw [Books.header, hmap, Option.map_map]
  rfl

theorem setKind_spec {kind : TxnKind} (h : db.setKind txn kind = .ok db') :
    ∃ b', db' = { db with books := b' } ∧ Books.Wrote db.books b' (.setKind txn kind) := by
  obtain ⟨hf', rfl⟩ := updateTransactions_spec h
  refine ⟨_, rfl, .setKind ?_ rfl⟩
  intro s
  rw [header_mapTxns, Books.header]
  cases hs : db.books.findTxn s with
  | none => simp
  | some t =>
    have hid := (Books.findTxn_spec hs).2
    by_cases heq : s = txn
    · simp [heq, hid, Transaction.header]
    · simp [heq, hid]

/-- With the ledger in the `WHERE` clause, a transaction of another ledger is not
touched. -/
theorem setKindIn_spec {ledger : Uuid} {kind : TxnKind}
    (h : db.setKindIn txn ledger kind = .ok db') :
    db' = db ∨ ∃ t ∈ db.books.findTxnIn txn ledger, ∃ b', db' = { db with books := b' } ∧
      Books.Wrote db.books b' (.setKind txn kind) := by
  obtain ⟨hf', rfl⟩ := updateTransactions_spec h
  cases hin : db.books.findTxnIn txn ledger with
  | none =>
    left
    have hnone : ∀ t ∈ db.books.transactions, ¬ (t.id = txn ∧ t.ledgerId = ledger) := by
      intro t ht
      have := List.find?_eq_none.mp hin t ht
      simpa using this
    have hsame : db.books.transactions.map (fun t => if decide (t.id = txn ∧ t.ledgerId = ledger)
        then { t with kind := kind } else t) = db.books.transactions := by
      conv_rhs => rw [← List.map_id db.books.transactions]
      refine List.map_congr_left ?_
      intro t ht
      simp [hnone t ht]
    have hbooks : db.books.mapTxns _ hf' = db.books := by
      unfold Books.mapTxns
      congr
    rw [hbooks]
  | some t =>
    right
    obtain ⟨ht, hid, hledger⟩ := Books.findTxnIn_spec hin
    refine ⟨t, rfl, _, rfl, .setKind ?_ rfl⟩
    intro s
    rw [header_mapTxns, Books.header]
    cases hs : db.books.findTxn s with
    | none => simp
    | some u =>
      obtain ⟨hu, huid⟩ := Books.findTxn_spec hs
      by_cases heq : s = txn
      · have hut : u = t := Books.txn_eq_of_id_eq hu ht (by rw [huid, heq, hid])
        simp [hut, heq, hid, hledger, Transaction.header]
      · simp [heq, huid]

theorem deleteTransaction_spec (h : db.deleteTransaction txn = .ok db') :
    db'.ledgers = db.ledgers ∧ db'.balanceTrigger = db.balanceTrigger ∧
      db'.closedPeriods = db.closedPeriods ∧
      db'.approvals = db.approvals.filter (fun a => a.txnId ≠ txn) ∧
      Books.Wrote db.books db'.books (.remove txn) := by
  simp only [deleteTransaction, bind_eq_ok] at h
  obtain ⟨-, -, db₁, hupdate, h⟩ := h
  obtain ⟨hf', rfl⟩ := updateTransactions_spec hupdate
  cases h
  refine ⟨rfl, rfl, rfl, rfl, .remove ?_ rfl⟩
  intro s
  -- Clearing the link of a reversal leaves its header as it is.
  have hheader : ∀ u, (db.books.mapTxns _ hf').header u = db.books.header u := by
    intro u
    rw [header_mapTxns, Books.header]
    congr 1
    funext t
    by_cases hr : t.reversesId = some txn <;> simp [hr, Transaction.header]
  by_cases heq : s = txn
  · rw [if_pos heq, Books.header_eq_none]
    intro hmem
    obtain ⟨t, ht, hid⟩ := List.mem_map.mp hmem
    have := (List.mem_filter.mp ht).2
    simp [hid, heq] at this
  · rw [if_neg heq, ← hheader s, Books.header, Books.header, Books.findTxn]
    show ((List.filter _ _).find? _).map _ = _
    rw [List.find?_filter]
    congr 1
    refine List.find?_congr ?_
    intro t _
    by_cases hid : t.id = s <;> simp [hid, heq]

theorem deleteTransaction_rows (h : db.deleteTransaction txn = .ok db') :
    ∃ f : Transaction → Transaction,
      (∀ t, (f t).ledgerId = t.ledgerId ∧ (f t).txnDate = t.txnDate ∧ (f t).number = t.number) ∧
      db'.books.transactions = (db.books.transactions.filter fun t => t.id ≠ txn).map f := by
  simp only [deleteTransaction, bind_eq_ok] at h
  obtain ⟨-, -, db₁, hupdate, h⟩ := h
  obtain ⟨hf', rfl⟩ := updateTransactions_spec hupdate
  cases h
  refine ⟨fun t => if t.reversesId = some txn then { t with reversesId := none } else t, ?_, ?_⟩
  · intro t
    by_cases ht : t.reversesId = some txn <;> simp [ht]
  · show ((db.books.transactions.map _).filter _) = _
    rw [List.filter_map]
    congr 1
    · funext t
      by_cases ht : t.reversesId = some txn <;> simp [ht]
    · refine List.filter_congr ?_
      intro t _
      by_cases ht : t.reversesId = some txn <;> simp [ht]

/-! ## An entry with and without a number -/

/-- What the statements on postings read of the books. -/
structure SameKeys (b b' : Books) : Prop where
  accounts : b'.accounts = b.accounts
  txnIds : b'.txnIds = b.txnIds
  postings : b'.postings = b.postings

theorem insertPostingRow_sameKeys {b c : Books} {r : PostingRow} (hsame : SameKeys b b')
    (h : insertPostingRow b r = .ok c) :
    ∃ c', insertPostingRow b' r = .ok c' ∧ SameKeys c c' := by
  obtain ⟨haccounts, htxns, hpostings⟩ := hsame
  have hids : b'.accountIds = b.accountIds := by rw [Books.accountIds, haccounts, Books.accountIds]
  simp only [insertPostingRow, bind_eq_ok, ensure_eq_ok] at h
  obtain ⟨u, hamount, v, hforeign, w, hfresh, h⟩ := h
  split at h
  · next hpos =>
      split at h
      · next ht =>
          split at h
          · next ha =>
              cases h
              simp only [insertPostingRow, bind_eq_ok, ensure_eq_ok]
              refine ⟨_, ⟨u, hamount, v, hforeign, w, by rwa [hpostings], by
                rw [dif_pos hpos, dif_pos (htxns ▸ ht), dif_pos (hids ▸ ha)]⟩, ?_⟩
              exact ⟨haccounts, htxns, by simp only [Books.addPosting, hpostings]⟩
          · cases h
      · cases h
  · cases h

theorem insertPostingRows_sameKeys {b c : Books} (hsame : SameKeys b b')
    (h : insertPostingRows b rows = .ok c) :
    ∃ c', insertPostingRows b' rows = .ok c' ∧ SameKeys c c' := by
  induction rows generalizing b b' with
  | nil =>
    cases h
    exact ⟨b', rfl, hsame⟩
  | cons r rows ih =>
    simp only [insertPostingRows, bind_eq_ok] at h ⊢
    obtain ⟨b₁, hr, hrows⟩ := h
    obtain ⟨b₁', hr', hsame₁⟩ := insertPostingRow_sameKeys hsame hr
    obtain ⟨c', hrows', hsame'⟩ := ih hsame₁ hrows
    exact ⟨c', ⟨b₁', hr', hrows'⟩, hsame'⟩

theorem fireBalanceTrigger_sameKeys {b : Books} (hsame : SameKeys b b') (rows : List PostingRow) :
    fireBalanceTrigger b' rows = fireBalanceTrigger b rows := by
  induction rows with
  | nil => rfl
  | cons r rows ih =>
    have hof : b'.postingsOf r.transactionId = b.postingsOf r.transactionId := by
      rw [Books.postingsOf, hsame.postings, Books.postingsOf]
    simp only [fireBalanceTrigger, checkPostingBalance, hof, ih]

theorem insertPostingsEach_sameKeys {db₁ : Db} (h : db.insertPostingsEach rows = .ok db₁)
    (hsame : SameKeys db.books b') :
    ∃ c', ({ db with books := b' } : Db).insertPostingsEach rows =
      .ok { db₁ with books := c' } := by
  induction rows generalizing db b' with
  | nil =>
    cases h
    exact ⟨b', rfl⟩
  | cons r rows ih =>
    simp only [insertPostingsEach, insertPostings, bind_eq_ok] at h ⊢
    obtain ⟨db₂, ⟨c, hr, u, hfire, hdb₂⟩, hrows⟩ := h
    cases hdb₂
    obtain ⟨c', hr', hsame'⟩ := insertPostingRows_sameKeys hsame hr
    obtain ⟨d, hd⟩ := ih hrows hsame'
    exact ⟨d, _, ⟨c', hr', u, by rwa [fireBalanceTrigger_sameKeys hsame'], rfl⟩, hd⟩

/-- A number that is free in its year does not keep an entry from being written. -/
theorem insertEntry_numbered {db₁ : Db} {number : String}
    (hfree : ∀ s ∈ db.books.transactions, ¬ (s.ledgerId = t.ledgerId ∧
      Transaction.numberYear s.txnDate = Transaction.numberYear t.txnDate ∧
      s.number = some number)) (h : db.insertEntry t rows = .ok db₁) :
    ∃ b', db.insertEntry { t with number := some number } rows = .ok { db₁ with books := b' } := by
  simp only [insertEntry, insertTransaction, bind_eq_ok, ensure_eq_ok] at h ⊢
  obtain ⟨db₂, ⟨u₁, hledger, u₂, huser, u₃, hreverses, u₄, htemplate, u₅, hunique, h⟩, hrows⟩ := h
  split at h
  · cases h
  · next hid =>
      cases h
      have hsame : SameKeys (db.books.addTxn t hid)
          (db.books.addTxn { t with number := some number } hid) :=
        ⟨rfl, by simp [Books.txnIds, Books.addTxn], rfl⟩
      obtain ⟨c', hc'⟩ := insertPostingsEach_sameKeys hrows hsame
      refine ⟨c', _, ⟨u₁, hledger, u₂, huser, u₃, hreverses, u₄, htemplate, u₅, ?_, ?_⟩, hc'⟩
      · intro s hs
        exact ⟨fun hnumber => hfree s hs hnumber.2, (hunique s hs).2⟩
      · rw [dif_neg hid]

end Db

end OpenAccounting
