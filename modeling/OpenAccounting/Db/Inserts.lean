import OpenAccounting.Db.Statements

/-!
# When an entry can be written

`Db.insertEntry` writes a transaction row and then its postings, one statement each.  The
conditions are those of the schema: the foreign keys, the unique keys, the ranges of the
columns, and after every posting the balance trigger, which looks at the postings the
transaction has so far.  `Db.insertEntry_ok_iff` puts them together.
-/

namespace OpenAccounting

open Calendar Commit Rounding

/-! ## The conditions -/

/-- The amounts of the row fit their columns, and the stored one is positive. -/
structure PostingRow.FitsColumns (r : PostingRow) : Prop where
  amount : (amountColumn r.amount).isSome
  positive : 0 < roundDp 4 r.amount
  foreign : ∀ x ∈ r.foreignAmount, (amountColumn x).isSome

/-- `check_posting_balance` lets these rows of one transaction pass. -/
structure PostingRow.TriggerPasses (rows : List PostingRow) : Prop where
  debit : (amountColumn (sumOn .debit rows)).isSome
  credit : (amountColumn (sumOn .credit rows)).isSome
  balance : 2 ≤ rows.length → sumOn .debit rows = sumOn .credit rows

/-- The posting `p` is the row `r`, with every column. -/
structure PostingRow.Written (r : PostingRow) (p : Posting) : Prop where
  stored : r.Stored p
  id : p.id = r.id
  memo : p.memo = r.memo
  costCenterId : p.costCenterId = r.costCenterId
  projectId : p.projectId = r.projectId

/-- The row refers to no other row but its ledger and its author, and has no number. -/
structure Transaction.Plain (t : Transaction) : Prop where
  number : t.number = none
  reverses : t.reversesId = none
  template : t.templateId = none

/-- A `TEXT` has no null character. -/
def TextFits (s : String) : Prop := Char.ofNat 0 ∉ s.toList

/-- A `DATE` is not before November 24, 4714 BC. -/
def DateFits (d : NaiveDate) : Prop :=
  -4713 < d.year ∨ d.year = -4713 ∧ (11 < d.month ∨ d.month = 11 ∧ 24 ≤ d.day)

instance (s : String) : Decidable (TextFits s) := by
  unfold TextFits
  infer_instance

instance (d : NaiveDate) : Decidable (DateFits d) := by
  unfold DateFits
  infer_instance

namespace Db

/-- Nothing is in the way of the row in `transactions`. -/
structure TxnInsertable (db : Db) (t : Transaction) : Prop where
  ledger : db.HasLedger t.ledgerId
  creator : ∃ u ∈ db.users, u.id = t.createdBy
  reverses : t.reversesId.all fun r => r ∈ db.books.txnIds
  template : t.templateId.all fun r => ∃ tpl ∈ db.templates, tpl.id = r
  unique : db.TxnUnique t
  fresh : t.id ∉ db.books.txnIds

/-- Nothing is in the way of these rows in `postings`, where `done` are there already. -/
structure LegsInsertable (db : Db) (done rows : List PostingRow) : Prop where
  columns : ∀ r ∈ rows, r.FitsColumns
  accounts : ∀ r ∈ rows, r.accountId ∈ db.books.accountIds
  new_ids : ∀ r ∈ rows, ∀ p ∈ db.books.postings, p.id ≠ r.id
  ids_nodup : (rows.map PostingRow.id).Nodup
  balances : db.balanceTrigger = true → ∀ k < rows.length,
    PostingRow.TriggerPasses (done ++ rows.take (k + 1))

/-! ## One statement -/

variable {db db' : Db} {t : Transaction} {r : PostingRow} {rows : List PostingRow}

theorem insertTransaction_ok_iff :
    (∃ db', db.insertTransaction t = .ok db') ↔ db.TxnInsertable t := by
  simp only [insertTransaction, bind_eq_ok, ensure_eq_ok]
  constructor
  · rintro ⟨db', -, hledger, -, hcreator, -, hreverses, -, htemplate, -, hunique, h⟩
    split at h
    · cases h
    · next hfresh => exact ⟨hledger, hcreator, hreverses, htemplate, hunique, hfresh⟩
  · rintro ⟨hledger, hcreator, hreverses, htemplate, hunique, hfresh⟩
    rw [dif_neg hfresh]
    exact ⟨_, (), hledger, (), hcreator, (), hreverses, (), htemplate, (), hunique, rfl⟩

theorem insertPostingRow_ok_iff {b : Books} :
    (∃ b', insertPostingRow b r = .ok b') ↔ r.FitsColumns ∧ r.transactionId ∈ b.txnIds ∧
      r.accountId ∈ b.accountIds ∧ ∀ p ∈ b.postings, p.id ≠ r.id := by
  simp only [insertPostingRow, bind_eq_ok, ensure_eq_ok]
  constructor
  · rintro ⟨b', -, hamount, -, hforeign, -, hfresh, h⟩
    split at h
    · next hpos =>
        split at h
        · next ht =>
            split at h
            · next ha => exact ⟨⟨hamount, hpos, hforeign⟩, ht, ha, hfresh⟩
            · cases h
        · cases h
    · cases h
  · rintro ⟨⟨hamount, hpos, hforeign⟩, ht, ha, hfresh⟩
    rw [dif_pos hpos, dif_pos ht, dif_pos ha]
    exact ⟨_, (), hamount, (), hforeign, (), hfresh, rfl⟩

theorem insertPostingRow_written {b b' : Books} (h : insertPostingRow b r = .ok b') :
    ∃ (p : Posting) (ht : p.transactionId ∈ b.txnIds) (ha : p.accountId ∈ b.accountIds),
      r.Written p ∧ b' = b.addPosting p ht ha := by
  simp only [insertPostingRow, bind_eq_ok, ensure_eq_ok] at h
  obtain ⟨-, -, -, -, -, -, h⟩ := h
  split at h
  · next hpos =>
      split at h
      · next ht =>
          split at h
          · next ha =>
              cases h
              exact ⟨_, ht, ha, ⟨⟨rfl, rfl, rfl, rfl, rfl⟩, rfl, rfl, rfl, rfl⟩, rfl⟩
          · cases h
      · cases h
  · cases h

theorem insertPostingRow_id {b b' : Books} (h : insertPostingRow b r = .ok b') :
    ∃ (p : Posting) (ht : p.transactionId ∈ b.txnIds) (ha : p.accountId ∈ b.accountIds),
      r.Stored p ∧ p.id = r.id ∧ b' = b.addPosting p ht ha := by
  obtain ⟨p, ht, ha, hwritten, hb⟩ := insertPostingRow_written h
  exact ⟨p, ht, ha, hwritten.stored, hwritten.id, hb⟩

theorem checkPostingBalance_ok_iff {b : Books} {txn : Uuid}
    (h : List.Forall₂ PostingRow.Stored rows (b.postingsOf txn)) :
    checkPostingBalance b txn = .ok () ↔ PostingRow.TriggerPasses rows := by
  have hscale := PostingRow.hasScale_sumOn
  rw [checkPostingBalance, PostingRow.Stored.sumOn_eq h, PostingRow.Stored.sumOn_eq h,
    ← h.length_eq]
  simp only [bind_eq_ok, okOr_eq_ok, ensure_eq_ok]
  constructor
  · rintro ⟨dr, hdr, cr, hcr, hcheck⟩
    refine ⟨Option.isSome_of_eq_some hdr, Option.isSome_of_eq_some hcr, fun hlen => ?_⟩
    rw [numeric_of_hasScale (hscale .debit rows) hdr, numeric_of_hasScale (hscale .credit rows) hcr]
      at hcheck
    by_contra hne
    exact hcheck ⟨hlen, hne⟩
  · rintro ⟨hdr, hcr, hbalance⟩
    obtain ⟨dr, hdr⟩ := Option.isSome_iff_exists.mp hdr
    obtain ⟨cr, hcr⟩ := Option.isSome_iff_exists.mp hcr
    refine ⟨dr, hdr, cr, hcr, ?_⟩
    rw [numeric_of_hasScale (hscale .debit rows) hdr, numeric_of_hasScale (hscale .credit rows) hcr]
    rintro ⟨hlen, hne⟩
    exact hne (hbalance hlen)

/-! ## The postings of an entry -/

section

variable {b₀ : Books} {t : Transaction} {db db' : Db} {ps : List Posting} {done : List PostingRow}
  {r : PostingRow}

theorem insertPosting_spec (hposts : Books.Posts b₀ db.books t ps) (howned : r.transactionId = t.id)
    (h : db.insertPostings [r] = .ok db') :
    ∃ b' p, db' = { db with books := b' } ∧ Books.Posts b₀ b' t (ps ++ [p]) ∧ r.Stored p ∧
      b'.accounts = db.books.accounts ∧ b'.postings = db.books.postings ++ [p] ∧ p.id = r.id := by
  simp only [insertPostings, insertPostingRows, bind_eq_ok] at h
  obtain ⟨b₁, ⟨b', hrow, hb⟩, -, -, h⟩ := h
  cases hb
  cases h
  obtain ⟨p, ht, ha, hstored, hid, rfl⟩ := insertPostingRow_id hrow
  exact ⟨_, p, rfl, hposts.add (hstored.transactionId.trans howned) ht ha, hstored, rfl, rfl, hid⟩

theorem insertPosting_ok_iff (hposts : Books.Posts b₀ db.books t ps)
    (hstored : List.Forall₂ PostingRow.Stored done ps) (howned : r.transactionId = t.id) :
    (∃ db', db.insertPostings [r] = .ok db') ↔ r.FitsColumns ∧ r.accountId ∈ db.books.accountIds ∧
      (∀ p ∈ db.books.postings, p.id ≠ r.id) ∧
      (db.balanceTrigger = true → PostingRow.TriggerPasses (done ++ [r])) := by
  have htxn : r.transactionId ∈ db.books.txnIds := by
    rw [howned]
    exact Books.mem_txnIds (hposts.mem_transactions.mpr (Or.inr rfl))
  have htrigger : ∀ {b' : Books}, insertPostingRow db.books r = .ok b' →
      ((∃ u, fireBalanceTrigger b' (if db.balanceTrigger then [r] else []) = .ok u) ↔
        (db.balanceTrigger = true → PostingRow.TriggerPasses (done ++ [r]))) := by
    intro b' hrow
    obtain ⟨p, ht, ha, hrowStored, -, rfl⟩ := insertPostingRow_id hrow
    have hself := (hposts.add (hrowStored.transactionId.trans howned) ht ha).postingsOf_self
    have hall : List.Forall₂ PostingRow.Stored (done ++ [r])
        ((db.books.addPosting p ht ha).postingsOf t.id) := by
      rw [hself]
      exact List.rel_append hstored (.cons hrowStored .nil)
    cases db.balanceTrigger with
    | false => exact ⟨fun _ hon => (nomatch hon), fun _ => ⟨(), rfl⟩⟩
    | true =>
      rw [← checkPostingBalance_ok_iff hall, ← howned]
      rw [if_pos rfl]
      simp only [fireBalanceTrigger, bind_eq_ok]
      constructor
      · rintro ⟨_, _, hcheck, _⟩ _
        exact hcheck
      · intro hcheck
        exact ⟨(), (), hcheck trivial, trivial⟩
  constructor
  · rintro ⟨db', h⟩
    simp only [insertPostings, insertPostingRows, bind_eq_ok] at h
    obtain ⟨b₁, ⟨b', hrow, hb⟩, u, hfire, -⟩ := h
    cases hb
    obtain ⟨hfits, -, haccount, hfresh⟩ := insertPostingRow_ok_iff.mp ⟨b₁, hrow⟩
    exact ⟨hfits, haccount, hfresh, (htrigger hrow).mp ⟨u, hfire⟩⟩
  · rintro ⟨hfits, haccount, hfresh, hpasses⟩
    obtain ⟨b', hrow⟩ := insertPostingRow_ok_iff.mpr ⟨hfits, htxn, haccount, hfresh⟩
    obtain ⟨u, hfire⟩ := (htrigger hrow).mpr hpasses
    simp only [insertPostings, insertPostingRows, bind_eq_ok]
    exact ⟨_, b', ⟨b', hrow, rfl⟩, u, hfire, rfl⟩

end

theorem legsInsertable_cons {done : List PostingRow} {p : Posting} {b' : Books}
    (haccounts : b'.accounts = db.books.accounts)
    (hpostings : b'.postings = db.books.postings ++ [p]) (hid : p.id = r.id) :
    db.LegsInsertable done (r :: rows) ↔
      (r.FitsColumns ∧ r.accountId ∈ db.books.accountIds ∧
        (∀ p ∈ db.books.postings, p.id ≠ r.id) ∧
        (db.balanceTrigger = true → PostingRow.TriggerPasses (done ++ [r]))) ∧
      LegsInsertable { db with books := b' } (done ++ [r]) rows := by
  have hids : b'.accountIds = db.books.accountIds := by
    rw [Books.accountIds, haccounts, Books.accountIds]
  constructor
  · intro h
    have hnodup := List.nodup_cons.mp h.ids_nodup
    refine ⟨⟨h.columns r List.mem_cons_self, h.accounts r List.mem_cons_self,
      h.new_ids r List.mem_cons_self, fun hon => ?_⟩, ?_⟩
    · simpa using h.balances hon 0 (by simp)
    · constructor
      · exact fun s hs => h.columns s (List.mem_cons_of_mem _ hs)
      · intro s hs
        show s.accountId ∈ b'.accountIds
        rw [hids]
        exact h.accounts s (List.mem_cons_of_mem _ hs)
      · intro s hs q hq
        rw [show ({ db with books := b' } : Db).books.postings = db.books.postings ++ [p] from
          hpostings] at hq
        rcases List.mem_append.mp hq with hq | hq
        · exact h.new_ids s (List.mem_cons_of_mem _ hs) q hq
        · rw [List.mem_singleton.mp hq, hid]
          exact fun heq => hnodup.1 (heq ▸ List.mem_map_of_mem hs)
      · exact hnodup.2
      · intro hon k hk
        simpa using h.balances hon (k + 1) (by simpa using hk)
  · rintro ⟨⟨hfits, haccount, hfresh, hpasses⟩, h⟩
    have hnew : ∀ s ∈ rows, ∀ q ∈ db.books.postings ++ [p], q.id ≠ s.id := by
      intro s hs q hq
      rw [← hpostings] at hq
      exact h.new_ids s hs q hq
    constructor
    · exact List.forall_mem_cons.mpr ⟨hfits, h.columns⟩
    · refine List.forall_mem_cons.mpr ⟨haccount, fun s hs => ?_⟩
      rw [← hids]
      exact h.accounts s hs
    · refine List.forall_mem_cons.mpr ⟨hfresh, fun s hs q hq => ?_⟩
      exact hnew s hs q (List.mem_append_left _ hq)
    · refine List.nodup_cons.mpr ⟨fun hmem => ?_, h.ids_nodup⟩
      obtain ⟨s, hs, hsid⟩ := List.mem_map.mp hmem
      exact hnew s hs p (List.mem_append_right _ (List.mem_singleton_self p)) (hid.trans hsid.symm)
    · intro hon k hk
      cases k with
      | zero => simpa using hpasses hon
      | succ k => simpa using h.balances hon k (by simpa using hk)

/-- The rows behind `done` can be written exactly when nothing is in their way. -/
theorem insertPostingsEach_ok_iff {b₀ : Books} (rows : List PostingRow) :
    ∀ {db : Db} {ps : List Posting} {done : List PostingRow}, Books.Posts b₀ db.books t ps →
      List.Forall₂ PostingRow.Stored done ps → (∀ r ∈ rows, r.transactionId = t.id) →
      ((∃ db', db.insertPostingsEach rows = .ok db') ↔ db.LegsInsertable done rows) := by
  induction rows with
  | nil =>
    intro db ps done _ _ _
    refine ⟨fun _ => ⟨?_, ?_, ?_, List.nodup_nil, ?_⟩, fun _ => ⟨db, rfl⟩⟩
    · simp
    · simp
    · simp
    · intro _ k hk
      cases hk
  | cons r rows ih =>
    intro db ps done hposts hstored howned
    obtain ⟨hr, hrows⟩ := List.forall_mem_cons.mp howned
    have hstep := insertPosting_ok_iff hposts hstored hr
    simp only [insertPostingsEach, bind_eq_ok]
    constructor
    · rintro ⟨db', db₁, hone, hrest⟩
      obtain ⟨b', p, rfl, hposts', hp, haccounts, hpostings, hid⟩ :=
        insertPosting_spec hposts hr hone
      refine (legsInsertable_cons haccounts hpostings hid).mpr ⟨hstep.mp ⟨_, hone⟩, ?_⟩
      exact (ih hposts' (List.rel_append hstored (.cons hp .nil)) hrows).mp ⟨db', hrest⟩
    · intro h
      have hfirst : r.FitsColumns ∧ r.accountId ∈ db.books.accountIds ∧
          (∀ p ∈ db.books.postings, p.id ≠ r.id) ∧
          (db.balanceTrigger = true → PostingRow.TriggerPasses (done ++ [r])) :=
        ⟨h.columns r List.mem_cons_self, h.accounts r List.mem_cons_self,
          h.new_ids r List.mem_cons_self, fun hon => by simpa using h.balances hon 0 (by simp)⟩
      obtain ⟨db₁, hone⟩ := hstep.mpr hfirst
      obtain ⟨b', p, rfl, hposts', hp, haccounts, hpostings, hid⟩ :=
        insertPosting_spec hposts hr hone
      obtain ⟨db', hrest⟩ := (ih hposts' (List.rel_append hstored (.cons hp .nil)) hrows).mpr
        ((legsInsertable_cons haccounts hpostings hid).mp h).2
      exact ⟨db', _, hone, hrest⟩

/-- An entry can be written exactly when nothing is in the way of its rows. -/
theorem insertEntry_ok_iff (howned : ∀ r ∈ rows, r.transactionId = t.id) :
    (∃ db', db.insertEntry t rows = .ok db') ↔
      db.TxnInsertable t ∧ db.LegsInsertable [] rows := by
  have hkeep : ∀ b' : Books, b'.accounts = db.books.accounts →
      b'.postings = db.books.postings →
      (LegsInsertable { db with books := b' } [] rows ↔ db.LegsInsertable [] rows) := by
    intro b' haccounts hpostings
    have hids : b'.accountIds = db.books.accountIds := by
      rw [Books.accountIds, haccounts, Books.accountIds]
    constructor
    · rintro ⟨hcolumns, haccts, hnew, hnodup, hbalances⟩
      exact ⟨hcolumns, hids ▸ haccts, hpostings ▸ hnew, hnodup, hbalances⟩
    · rintro ⟨hcolumns, haccts, hnew, hnodup, hbalances⟩
      exact ⟨hcolumns, hids.symm ▸ haccts, hpostings.symm ▸ hnew, hnodup, hbalances⟩
  simp only [insertEntry, bind_eq_ok]
  constructor
  · rintro ⟨db', db₁, htxn, hrows⟩
    refine ⟨insertTransaction_ok_iff.mp ⟨db₁, htxn⟩, ?_⟩
    obtain ⟨-, hfresh, rfl⟩ := insertTransaction_spec htxn
    have hlegs := (insertPostingsEach_ok_iff rows (Books.posts_addTxn hfresh) .nil howned).mp
      ⟨db', hrows⟩
    exact (hkeep (db.books.addTxn t hfresh) rfl rfl).mp hlegs
  · rintro ⟨htxn, hlegs⟩
    obtain ⟨db₁, htxn⟩ := insertTransaction_ok_iff.mpr htxn
    obtain ⟨-, hfresh, rfl⟩ := insertTransaction_spec htxn
    have hiff := @insertPostingsEach_ok_iff _ _ rows
      { db with books := db.books.addTxn t hfresh } _ _ (Books.posts_addTxn hfresh) .nil howned
    obtain ⟨db', hrows⟩ := hiff.mpr ((hkeep (db.books.addTxn t hfresh) rfl rfl).mpr hlegs)
    exact ⟨db', _, htxn, hrows⟩

theorem insertPostingRows_written :
    ∀ {b b' : Books}, insertPostingRows b rows = .ok b' →
      ∃ ps, b'.postings = b.postings ++ ps ∧ List.Forall₂ PostingRow.Written rows ps := by
  induction rows with
  | nil =>
    intro b b' h
    cases h
    exact ⟨[], by simp, .nil⟩
  | cons r rows ih =>
    intro b b' h
    simp only [insertPostingRows, bind_eq_ok] at h
    obtain ⟨b₁, hrow, hrest⟩ := h
    obtain ⟨p, ht, ha, hp, rfl⟩ := insertPostingRow_written hrow
    obtain ⟨ps, hps, hall⟩ := ih hrest
    refine ⟨p :: ps, ?_, .cons hp hall⟩
    rw [hps]
    exact List.append_assoc b.postings [p] ps

theorem insertPostings_written (h : db.insertPostings rows = .ok db') :
    ∃ ps, db'.books.postings = db.books.postings ++ ps ∧
      List.Forall₂ PostingRow.Written rows ps := by
  simp only [insertPostings, bind_eq_ok] at h
  obtain ⟨b', hrows, -, -, h⟩ := h
  cases h
  exact insertPostingRows_written hrows

theorem insertPostingsEach_written :
    ∀ {db db' : Db}, db.insertPostingsEach rows = .ok db' →
      ∃ ps, db'.books.postings = db.books.postings ++ ps ∧
        List.Forall₂ PostingRow.Written rows ps := by
  induction rows with
  | nil =>
    intro db db' h
    cases h
    exact ⟨[], by simp, .nil⟩
  | cons r rows ih =>
    intro db db' h
    simp only [insertPostingsEach, bind_eq_ok] at h
    obtain ⟨db₁, hone, hrest⟩ := h
    obtain ⟨ps₁, hps₁, hone⟩ := insertPostings_written hone
    obtain ⟨ps, hps, hall⟩ := ih hrest
    refine ⟨ps₁ ++ ps, by rw [hps, hps₁, List.append_assoc], ?_⟩
    simpa using List.rel_append hone hall

theorem insertPostingsEach_fits :
    ∀ {db db' : Db}, db.insertPostingsEach rows = .ok db' → ∀ r ∈ rows, r.FitsColumns := by
  induction rows with
  | nil =>
    intro db db' _ r hr
    cases hr
  | cons r rows ih =>
    intro db db' h
    simp only [insertPostingsEach, insertPostings, insertPostingRows, bind_eq_ok] at h
    obtain ⟨db₁, ⟨b', ⟨b₁, hrow, -⟩, -⟩, hrest⟩ := h
    exact List.forall_mem_cons.mpr ⟨(insertPostingRow_ok_iff.mp ⟨b₁, hrow⟩).1, ih hrest⟩

theorem insertEntry_fits (h : db.insertEntry t rows = .ok db') : ∀ r ∈ rows, r.FitsColumns := by
  simp only [insertEntry, bind_eq_ok] at h
  obtain ⟨db₁, -, hrows⟩ := h
  exact insertPostingsEach_fits hrows

theorem insertPostingsEach_ids (h : db.insertPostingsEach rows = .ok db') :
    ∃ ps, db'.books.postings = db.books.postings ++ ps ∧
      ps.map Posting.id = rows.map PostingRow.id := by
  obtain ⟨ps, hps, hall⟩ := insertPostingsEach_written h
  refine ⟨ps, hps, ?_⟩
  clear h hps
  induction hall with
  | nil => rfl
  | cons hp _ ih => rw [List.map_cons, List.map_cons, hp.id, ih]

theorem insertEntry_ids (h : db.insertEntry t rows = .ok db') :
    ∃ ps, db'.books.postings = db.books.postings ++ ps ∧
      ps.map Posting.id = rows.map PostingRow.id := by
  simp only [insertEntry, bind_eq_ok] at h
  obtain ⟨db₁, htxn, hrows⟩ := h
  obtain ⟨-, hfresh, rfl⟩ := insertTransaction_spec htxn
  obtain ⟨ps, hps, hids⟩ := insertPostingsEach_ids hrows
  exact ⟨ps, hps, hids⟩

theorem insertEntry_written (howned : ∀ r ∈ rows, r.transactionId = t.id)
    (h : db.insertEntry t rows = .ok db') :
    ∃ b' ps, db' = { db with books := b' } ∧ Books.Posts db.books b' t ps ∧
      List.Forall₂ PostingRow.Written rows ps := by
  obtain ⟨-, b', ps, rfl, hposts, -, -⟩ := insertEntry_spec howned h
  simp only [insertEntry, bind_eq_ok] at h
  obtain ⟨db₁, htxn, hrows⟩ := h
  obtain ⟨-, hfresh, rfl⟩ := insertTransaction_spec htxn
  obtain ⟨qs, hqs, hall⟩ := insertPostingsEach_written hrows
  have hsame : db.books.postings ++ ps = db.books.postings ++ qs := hposts.postings.symm.trans hqs
  obtain rfl := List.append_cancel_left hsame
  exact ⟨b', ps, rfl, hposts, hall⟩

theorem triggerPasses_singleton (h : r.FitsColumns) : PostingRow.TriggerPasses [r] := by
  have hamount : (amountColumn (roundDp 4 r.amount)).isSome := by
    have hcolumn := h.amount
    rw [amountColumn, numeric] at hcolumn ⊢
    rw [roundDp_of_hasScale (hasScale_roundDp 4 r.amount)]
    exact hcolumn
  have hzero : (amountColumn 0).isSome := by
    rw [amountColumn, numeric, roundDp_of_hasScale ⟨0, by simp⟩]
    simp
  refine ⟨?_, ?_, by simp⟩
  · cases hd : r.direction <;> simp [PostingRow.sumOn, hd, hamount, hzero]
  · cases hd : r.direction <;> simp [PostingRow.sumOn, hd, hamount, hzero]

/-- Row by row the trigger lets two rows pass that balance, and no longer list. -/
theorem triggerPasses_take_iff (hfits : ∀ r ∈ rows, r.FitsColumns) (hlen : 2 ≤ rows.length) :
    (∀ k < rows.length, PostingRow.TriggerPasses (rows.take (k + 1))) ↔
      rows.length = 2 ∧ PostingRow.sumOn .debit rows = PostingRow.sumOn .credit rows := by
  cases rows with
  | nil => cases hlen
  | cons r rows =>
    cases rows with
    | nil => simp at hlen
    | cons s rest =>
      obtain ⟨hr, hfits⟩ := List.forall_mem_cons.mp hfits
      obtain ⟨hs, hfits⟩ := List.forall_mem_cons.mp hfits
      have hrpos := hr.positive
      have hspos := hs.positive
      constructor
      · intro h
        have htwo := (h 1 (by simp)).balance (by simp)
        cases rest with
        | nil => exact ⟨rfl, by simpa using htwo⟩
        | cons t rest =>
          -- The third row counts on one side only.
          have hthree := (h 2 (by simp)).balance (by simp)
          have htpos := (hfits t List.mem_cons_self).positive
          simp only [List.take_succ_cons, List.take_zero, PostingRow.sumOn_cons]
            at htwo hthree
          have hnil : ∀ e, PostingRow.sumOn e [] = 0 := fun _ => rfl
          rw [hnil, hnil] at htwo hthree
          cases ht : t.direction with
          | debit =>
            simp only [ht, if_true, reduceCtorEq, if_false] at hthree
            linarith
          | credit =>
            simp only [ht, if_true, reduceCtorEq, if_false] at hthree
            linarith
      · rintro ⟨hlength, hbalance⟩
        obtain rfl : rest = [] := by simpa using hlength
        have hrpass := triggerPasses_singleton hr
        have hspass := triggerPasses_singleton hs
        have hnil : ∀ e, PostingRow.sumOn e [] = 0 := fun _ => rfl
        have hne : r.direction ≠ s.direction := by
          intro heq
          simp only [PostingRow.sumOn_cons, hnil, heq] at hbalance
          cases hs : s.direction with
          | debit =>
            simp only [hs, if_true, reduceCtorEq, if_false] at hbalance
            linarith
          | credit =>
            simp only [hs, if_true, reduceCtorEq, if_false] at hbalance
            linarith
        -- On each side there is one of the two rows.
        have hcolumn : ∀ e, (amountColumn (PostingRow.sumOn e [r, s])).isSome := by
          intro e
          by_cases he : r.direction = e
          · have hsum : PostingRow.sumOn e [r, s] = PostingRow.sumOn e [r] := by
              simp [PostingRow.sumOn, he, (he ▸ hne).symm]
            rw [hsum]
            cases e with
            | debit => exact hrpass.debit
            | credit => exact hrpass.credit
          · have hsum : PostingRow.sumOn e [r, s] = PostingRow.sumOn e [s] := by
              simp [PostingRow.sumOn, he]
            rw [hsum]
            cases e with
            | debit => exact hspass.debit
            | credit => exact hspass.credit
        have hpair : PostingRow.TriggerPasses [r, s] :=
          ⟨hcolumn .debit, hcolumn .credit, fun _ => hbalance⟩
        intro k hk
        cases k with
        | zero => simpa using hrpass
        | succ k =>
          obtain rfl : k = 0 := by
            simp only [List.length_cons, List.length_nil] at hk
            omega
          simpa using hpair

theorem legsInsertable_of_short (hshort : rows.length ≤ 1) :
    db.LegsInsertable [] rows ↔ (∀ r ∈ rows, r.FitsColumns) ∧
      (∀ r ∈ rows, r.accountId ∈ db.books.accountIds) ∧
      ∀ r ∈ rows, ∀ p ∈ db.books.postings, p.id ≠ r.id := by
  constructor
  · intro h
    exact ⟨h.columns, h.accounts, h.new_ids⟩
  · rintro ⟨hcolumns, haccounts, hnew⟩
    cases rows with
    | nil =>
      exact ⟨hcolumns, haccounts, hnew, List.nodup_nil, fun _ k hk => absurd hk k.not_lt_zero⟩
    | cons r rest =>
      obtain rfl : rest = [] :=
        List.length_eq_zero_iff.mp (Nat.le_zero.mp (Nat.le_of_succ_le_succ hshort))
      refine ⟨hcolumns, haccounts, hnew, List.nodup_singleton _, ?_⟩
      intro _ k hk
      simpa using triggerPasses_singleton (hcolumns r List.mem_cons_self)

/-! ## Entries one after another -/

/-- Nothing is in the way of these entries, each with its rows in `postings`. -/
structure EntriesInsertable (db : Db) (entries : List (Transaction × List PostingRow)) : Prop where
  ledgers : ∀ e ∈ entries, db.HasLedger e.1.ledgerId
  creators : ∀ e ∈ entries, ∃ u ∈ db.users, u.id = e.1.createdBy
  txn_ids : (entries.map fun e => e.1.id).Nodup
  new_txn_ids : ∀ e ∈ entries, e.1.id ∉ db.books.txnIds
  columns : ∀ e ∈ entries, ∀ r ∈ e.2, r.FitsColumns
  accounts : ∀ e ∈ entries, ∀ r ∈ e.2, r.accountId ∈ db.books.accountIds
  leg_ids : ((entries.flatMap Prod.snd).map PostingRow.id).Nodup
  new_leg_ids : ∀ e ∈ entries, ∀ r ∈ e.2, ∀ p ∈ db.books.postings, p.id ≠ r.id
  balances : db.balanceTrigger = true → ∀ e ∈ entries, ∀ k < e.2.length,
    PostingRow.TriggerPasses (e.2.take (k + 1))

section

variable {db db' : Db} {t : Transaction} {rows : List PostingRow}
  {entries : List (Transaction × List PostingRow)}

theorem entriesInsertable_nil : db.EntriesInsertable [] := by
  constructor <;> simp

theorem EntriesInsertable.head (hplain : t.Plain) (howned : ∀ r ∈ rows, r.transactionId = t.id)
    (h : db.EntriesInsertable ((t, rows) :: entries)) : ∃ db', db.insertEntry t rows = .ok db' := by
  have hmem : (t, rows) ∈ (t, rows) :: entries := List.mem_cons_self
  have hids := h.leg_ids
  rw [List.flatMap_cons, List.map_append] at hids
  refine (insertEntry_ok_iff howned).mpr ⟨⟨h.ledgers _ hmem, h.creators _ hmem, ?_, ?_, ?_,
    h.new_txn_ids _ hmem⟩, h.columns _ hmem, h.accounts _ hmem, h.new_leg_ids _ hmem,
    (List.nodup_append.mp hids).1, fun hon k hk => ?_⟩
  · rw [hplain.reverses]
    rfl
  · rw [hplain.template]
    rfl
  · intro s _
    simp [hplain.number, hplain.template]
  · simpa using h.balances hon _ hmem k hk

theorem entriesInsertable_cons (howned : ∀ r ∈ rows, r.transactionId = t.id)
    (h : db.insertEntry t rows = .ok db') :
    db.EntriesInsertable ((t, rows) :: entries) ↔ db'.EntriesInsertable entries := by
  obtain ⟨htxn, hlegs⟩ := (insertEntry_ok_iff howned).mp ⟨db', h⟩
  obtain ⟨qs, hpostings, hids⟩ := insertEntry_ids h
  obtain ⟨-, b', ps, rfl, hposts, -, -⟩ := insertEntry_spec howned h
  have haccounts : ({ db with books := b' } : Db).books.accountIds = db.books.accountIds := by
    rw [Books.accountIds, hposts.accounts, Books.accountIds]
  have htxns : ({ db with books := b' } : Db).books.txnIds = db.books.txnIds ++ [t.id] :=
    hposts.txnIds
  constructor
  · intro hall
    have hleg := hall.leg_ids
    rw [List.flatMap_cons, List.map_append, List.nodup_append] at hleg
    constructor
    · exact fun e he => hall.ledgers e (List.mem_cons_of_mem _ he)
    · exact fun e he => hall.creators e (List.mem_cons_of_mem _ he)
    · exact (List.nodup_cons.mp hall.txn_ids).2
    · intro e he hmem
      rw [htxns, List.mem_append, List.mem_singleton] at hmem
      rcases hmem with hmem | heq
      · exact hall.new_txn_ids e (List.mem_cons_of_mem _ he) hmem
      · exact (List.nodup_cons.mp hall.txn_ids).1 (List.mem_map.mpr ⟨e, he, heq⟩)
    · exact fun e he => hall.columns e (List.mem_cons_of_mem _ he)
    · intro e he r hr
      rw [haccounts]
      exact hall.accounts e (List.mem_cons_of_mem _ he) r hr
    · exact hleg.2.1
    · intro e he r hr p hp heq
      rw [hpostings, List.mem_append] at hp
      rcases hp with hp | hp
      · exact hall.new_leg_ids e (List.mem_cons_of_mem _ he) r hr p hp heq
      · refine hleg.2.2 p.id (hids ▸ List.mem_map_of_mem hp) r.id ?_ heq
        exact List.mem_map_of_mem (List.mem_flatMap.mpr ⟨e, he, hr⟩)
    · exact fun hon e he => hall.balances hon e (List.mem_cons_of_mem _ he)
  · intro hrest
    have hnew : ∀ e ∈ entries, ∀ r ∈ e.2, ∀ p ∈ db.books.postings ++ qs, p.id ≠ r.id := by
      intro e he r hr p hp
      rw [← hpostings] at hp
      exact hrest.new_leg_ids e he r hr p hp
    have hused : ∀ e ∈ entries, e.1.id ∉ db.books.txnIds ++ [t.id] := by
      intro e he
      rw [← htxns]
      exact hrest.new_txn_ids e he
    constructor
    · exact List.forall_mem_cons.mpr ⟨htxn.ledger, hrest.ledgers⟩
    · exact List.forall_mem_cons.mpr ⟨htxn.creator, hrest.creators⟩
    · refine List.nodup_cons.mpr ⟨fun hmem => ?_, hrest.txn_ids⟩
      obtain ⟨e, he, heq⟩ := List.mem_map.mp hmem
      exact hused e he (List.mem_append_right _ (List.mem_singleton.mpr heq))
    · refine List.forall_mem_cons.mpr ⟨htxn.fresh, fun e he hmem => ?_⟩
      exact hused e he (List.mem_append_left _ hmem)
    · exact List.forall_mem_cons.mpr ⟨hlegs.columns, hrest.columns⟩
    · refine List.forall_mem_cons.mpr ⟨hlegs.accounts, fun e he r hr => ?_⟩
      rw [← haccounts]
      exact hrest.accounts e he r hr
    · rw [List.flatMap_cons, List.map_append, List.nodup_append]
      refine ⟨hlegs.ids_nodup, hrest.leg_ids, fun x hx y hy heq => ?_⟩
      rw [← hids] at hx
      obtain ⟨p, hp, rfl⟩ := List.mem_map.mp hx
      obtain ⟨r, hr, rfl⟩ := List.mem_map.mp hy
      obtain ⟨e, he, hr⟩ := List.mem_flatMap.mp hr
      exact hnew e he r hr p (List.mem_append_right _ hp) heq
    · refine List.forall_mem_cons.mpr ⟨hlegs.new_ids, fun e he r hr p hp => ?_⟩
      exact hnew e he r hr p (List.mem_append_left _ hp)
    · intro hon
      refine List.forall_mem_cons.mpr ⟨fun k hk => ?_, hrest.balances hon⟩
      simpa using hlegs.balances hon k hk

end

end Db

end OpenAccounting
