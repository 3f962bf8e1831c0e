import OpenAccounting.System.Reversals

/-!
# The rows of `posting_taxes`

The posting service is the only writer of tax links.  It writes one row for each link of the entry
it creates, on the posting of that line.  A reversal appends postings and writes no tax link.
-/

namespace OpenAccounting

open Calendar Commit Rounding

/-! ## Appended entries -/

/-- Entries were appended, and the ids of the postings are distinct if they were before. -/
structure Books.Appends (b b' : Books) : Prop where
  transactions : ∃ ts, b'.transactions = b.transactions ++ ts
  postings : ∃ ps, b'.postings = b.postings ++ ps
  posting_ids : (b.postings.map Posting.id).Nodup → (b'.postings.map Posting.id).Nodup

namespace Books.Appends

variable {b b₁ b' : Books}

theorem refl (b : Books) : b.Appends b := ⟨⟨[], by simp⟩, ⟨[], by simp⟩, id⟩

theorem trans (h : b.Appends b₁) (h' : b₁.Appends b') : b.Appends b' := by
  obtain ⟨ts, hts⟩ := h.transactions
  obtain ⟨ts', hts'⟩ := h'.transactions
  obtain ⟨ps, hps⟩ := h.postings
  obtain ⟨ps', hps'⟩ := h'.postings
  exact
    { transactions := ⟨ts ++ ts', by rw [hts', hts, List.append_assoc]⟩
      postings := ⟨ps ++ ps', by rw [hps', hps, List.append_assoc]⟩
      posting_ids := fun hids => h'.posting_ids (h.posting_ids hids) }

theorem mem_postings (h : b.Appends b') {p : Posting} (hp : p ∈ b.postings) : p ∈ b'.postings := by
  obtain ⟨ps, hps⟩ := h.postings
  rw [hps]
  exact List.mem_append_left _ hp

theorem mem_transactions (h : b.Appends b') {t : Transaction} (ht : t ∈ b.transactions) :
    t ∈ b'.transactions := by
  obtain ⟨ts, hts⟩ := h.transactions
  rw [hts]
  exact List.mem_append_left _ ht

end Books.Appends

namespace Db

theorem insertPostingRow_appends {b b' : Books} {r : PostingRow}
    (h : insertPostingRow b r = .ok b') : b.Appends b' := by
  simp only [insertPostingRow, bind_eq_ok, ensure_eq_ok] at h
  obtain ⟨_, -, _, -, _, hnew, h⟩ := h
  split at h
  · split at h
    · split at h
      · cases h
        refine ⟨⟨[], by simp [Books.addPosting]⟩, ⟨[_], rfl⟩, fun hids => ?_⟩
        exact Relational.nodup_map_concat.mpr ⟨hids, hnew⟩
      · cases h
    · cases h
  · cases h

variable {rows : List PostingRow}

theorem insertPostingRows_appends :
    ∀ {b b' : Books}, insertPostingRows b rows = .ok b' → b.Appends b' := by
  induction rows with
  | nil =>
    intro b b' h
    cases h
    exact .refl b
  | cons r rows ih =>
    intro b b' h
    simp only [insertPostingRows, bind_eq_ok] at h
    obtain ⟨b₁, hr, hrows⟩ := h
    exact (insertPostingRow_appends hr).trans (ih hrows)

theorem insertPostings_appends {db db' : Db} (h : db.insertPostings rows = .ok db') :
    db.books.Appends db'.books := by
  simp only [insertPostings, bind_eq_ok] at h
  obtain ⟨b', hrows, _, -, h⟩ := h
  cases h
  exact insertPostingRows_appends hrows

theorem insertPostingsEach_appends :
    ∀ {db db' : Db}, db.insertPostingsEach rows = .ok db' → db.books.Appends db'.books := by
  induction rows with
  | nil =>
    intro db db' h
    cases h
    exact .refl db.books
  | cons r rows ih =>
    intro db db' h
    simp only [insertPostingsEach, bind_eq_ok] at h
    obtain ⟨db₁, hr, hrows⟩ := h
    exact (insertPostings_appends hr).trans (ih hrows)

theorem insertTransaction_appends {db db' : Db} {t : Transaction}
    (h : db.insertTransaction t = .ok db') : db.books.Appends db'.books := by
  obtain ⟨-, hfresh, rfl⟩ := insertTransaction_spec h
  exact ⟨⟨[t], rfl⟩, ⟨[], by simp [Books.addTxn]⟩, id⟩

theorem insertEntry_appends {db db' : Db} {t : Transaction} (h : db.insertEntry t rows = .ok db') :
    db.books.Appends db'.books := by
  simp only [insertEntry, bind_eq_ok] at h
  obtain ⟨db₁, htxn, hrows⟩ := h
  exact (insertTransaction_appends htxn).trans (insertPostingsEach_appends hrows)

/-- Entries were appended, and the tax links `xs`. -/
structure Enters (db db' : Db) (xs : List PostingTax) : Prop where
  appends : db.books.Appends db'.books
  taxRates : db'.taxRates = db.taxRates
  postingTaxes : db'.postingTaxes = db.postingTaxes ++ xs

end Db

/-! ## The links of a new entry -/

/-- The row `x` is the link as the table keeps it. -/
structure TaxLink.Stored (link : TaxLink) (x : PostingTax) : Prop where
  taxRateId : x.taxRateId = link.taxRateId
  taxAmount : x.taxAmount = roundDp 4 link.taxAmount
  baseAmount : x.baseAmount = roundDp 4 link.baseAmount

namespace PostingService

theorem insertTaxLinks_stored {ids : List Uuid} :
    ∀ {links : List TaxLink} {db db' : Db}, insertTaxLinks ids db links = .ok db' →
      ∃ xs, db' = { db with postingTaxes := db.postingTaxes ++ xs } ∧
        List.Forall₂ TaxLink.Stored links xs ∧
        List.Forall₂ (fun link x => ids[link.postingIdx]? = some x.postingId) links xs
  | [], db, db', h => by
    cases h
    exact ⟨[], by rw [List.append_nil], .nil, .nil⟩
  | link :: links, db, db', h => by
    simp only [insertTaxLinks, insertPostingTax, bind_eq_ok, okOr_eq_ok, mapError_eq_ok] at h
    obtain ⟨posting, hposting, db₁, ⟨_, -, _, -, tax, htax, base, hbase, hdb₁⟩, h⟩ := h
    cases hdb₁
    obtain ⟨xs, rfl, hstored, hpostings⟩ := insertTaxLinks_stored h
    refine ⟨_ :: xs, by rw [List.append_assoc]; rfl, .cons ?_ hstored, .cons hposting hpostings⟩
    exact ⟨rfl, numeric_eq_some htax, numeric_eq_some hbase⟩

theorem mem_of_postingIdx {ids : List Uuid} {links : List TaxLink} {xs : List PostingTax}
    (h : List.Forall₂ (fun link x => ids[link.postingIdx]? = some x.postingId) links xs) :
    ∀ x ∈ xs, x.postingId ∈ ids := by
  induction h with
  | nil => simp
  | cons hx _ ih => exact List.forall_mem_cons.mpr ⟨List.mem_of_getElem? hx, ih⟩

/-- What an answered call wrote: the entry `t` and one tax link for each of the request, all on
postings of the entry. -/
theorem createWithKind_enters {db db' : Db} {req : Request} {new : NewTransaction} {isDraft : Bool}
    {created : CreatedTransaction} (h : createWithKind db req new isDraft = (.ok created, db')) :
    ∃ t xs, t ∈ db'.books.transactions ∧ t.id = created.id ∧ t.txnDate = new.txnDate ∧
      db.Enters db' xs ∧ List.Forall₂ TaxLink.Stored new.taxLinks xs ∧
      ∀ x ∈ xs, ∃ p ∈ db'.books.postings, p.id = x.postingId ∧ p.transactionId = t.id := by
  obtain ⟨effective, isPending, db₁, rows, -, hwrite, rfl⟩ := createWithKind_eq_ok h
  simp only [writeTransaction, bind_eq_ok, okOr_eq_ok, ensure_eq_ok, mapError_eq_ok] at hwrite
  obtain ⟨ledger, -, -, -, -, -, -, -, number, -, kind, -, db₂, hentry, db₃, htaxes,
    hmade⟩ := hwrite
  have happends := Db.insertEntry_appends hentry
  obtain ⟨b', ps, rfl, hposts, hwritten⟩ :=
    Db.insertEntry_written (fun r hr => lineRows_transactionId r hr) hentry
  obtain ⟨xs, rfl, hstored, hindices⟩ := insertTaxLinks_stored htaxes
  cases hmade
  refine ⟨txnRow req ledger new kind number, xs, ?_, rfl, rfl, ⟨happends, rfl, rfl⟩, hstored, ?_⟩
  · exact hposts.mem_transactions.mpr (Or.inr rfl)
  · have hids : (lineRows req 0 new.lines effective).map PostingRow.id = ps.map Posting.id := by
      rw [← List.forall₂_eq_eq_eq, List.forall₂_map_left_iff, List.forall₂_map_right_iff]
      exact hwritten.imp fun _ _ hp => hp.id.symm
    intro x hx
    have hmem := mem_of_postingIdx hindices x hx
    rw [hids, List.mem_map] at hmem
    obtain ⟨p, hp, hid⟩ := hmem
    refine ⟨p, ?_, hid, hposts.owned p hp⟩
    rw [hposts.postings]
    exact List.mem_append_right _ hp

end PostingService

/-! ## Reversals -/

theorem TransactionsEdit.reverse_enters {db db' : Db} {req : Request} {auth : Option Uuid}
    {ledger txn : Uuid} (h : reverse db req auth ledger txn = (.ok (), db')) :
    db.Enters db' [] := by
  have hbody := commit_eq_ok.mp h
  simp only [insertReversal, bind_eq_ok, okOr_eq_ok, ensure_eq_ok, mapError_eq_ok] at hbody
  obtain ⟨user, -, -, -, original, -, -, -, -, -, db₁, ⟨l, -, hentry⟩, hdb⟩ := hbody
  cases hdb
  have happends := Db.insertEntry_appends hentry
  obtain ⟨b', ps, rfl, -, -⟩ :=
    Db.insertEntry_written (fun r hr => flippedRows_transactionId r hr) hentry
  exact ⟨happends, rfl, (List.append_nil _).symm⟩

theorem Api.Transactions.reverse_enters {db db' : Db} {req : Request} {user ledger txn : Uuid}
    {answer : ReverseResponse} (h : reverse db req user ledger txn = (.ok answer, db')) :
    db.Enters db' [] := by
  rw [reverse] at h
  cases hlines : reverseLines db user ledger txn with
  | error e =>
    rw [hlines] at h
    cases congrArg Prod.fst h
  | ok found =>
    rw [hlines] at h
    dsimp only at h
    split at h
    · next created db₁ hcreate =>
        cases h
        obtain ⟨t, xs, -, -, -, henters, hstored, -⟩ :=
          PostingService.createWithKind_enters hcreate
        cases hstored
        exact henters
    · cases congrArg Prod.fst h

namespace TransactionsBulk

theorem reverseAll_enters {req : Request} {user ledger : Uuid} {ids : List Uuid} :
    ∀ {n : ℕ} {db db' : Db}, reverseAll req user ledger n db ids = .ok db' →
      db.Enters db' [] := by
  induction ids with
  | nil =>
    intro n db db' h
    cases h
    exact ⟨.refl db.books, rfl, (List.append_nil _).symm⟩
  | cons id ids ih =>
    intro n db db' h
    rw [reverseAll] at h
    split at h
    · exact ih h
    · next original hfound =>
        simp only [reverseOne, bind_eq_ok] at h
        obtain ⟨db₁, ⟨db₂, htxn, hrows⟩, hrest⟩ := h
        have hlast := ih hrest
        have hfirst := (Db.insertTransaction_appends htxn).trans (Db.insertPostings_appends hrows)
        obtain ⟨-, hfresh, rfl⟩ := Db.insertTransaction_spec htxn
        obtain ⟨b', ps, rfl, -, -, -⟩ := Db.insertPostings_posts
          (Books.posts_addTxn hfresh) (fun r hr => flippedRows_transactionId r hr) hrows
        exact ⟨hfirst.trans hlast.appends, hlast.taxRates, hlast.postingTaxes⟩

theorem bulkDelete_enters {db db' : Db} {req : Request} {auth : Option Uuid} {ledger : Uuid}
    {form : BulkForm} (haction : form.action = .delete)
    (h : bulkAction db req auth ledger form = (.ok .done, db')) : db.Enters db' [] := by
  obtain ⟨user, hall⟩ := bulkDelete_eq_done haction h
  exact reverseAll_enters hall

end TransactionsBulk

theorem Reversal.Did.enters {op : Reversal} {db db' : Db} {req : Request} {ledger r : Uuid}
    {t : Transaction} (h : op.Did db db' req ledger t r) : db.Enters db' [] := by
  cases op with
  | reverse auth => exact TransactionsEdit.reverse_enters h.1
  | apiReverse user =>
    obtain ⟨answer, hdone, -⟩ := h
    exact Api.Transactions.reverse_enters hdone
  | bulkDelete auth form i => exact TransactionsBulk.bulkDelete_enters h.2.1 h.1

end OpenAccounting
