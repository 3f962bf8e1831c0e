import OpenAccounting.Handlers.Import
import OpenAccounting.System.JournalOps
import OpenAccounting.Workers.Sync

/-!
# What the two imports commit

The import wizard and the bank-feed sync write transactions of their own, past the service
that checks that an entry balances.  A row of the wizard and a provider transaction become
one posting at most, and the balance trigger looks at transactions with two postings or
more, so nothing stops them.

`doubleEntered_iff` says when the transactions they commit are double entries: exactly when
they commit none.  What lets them commit is spelled out on the database and the input, in
`ImportWizard.Accepted` and in `Sync.Commits`.
-/

namespace OpenAccounting

open Commit

namespace Books

/-- Every transaction that has been added has two postings or more, and they balance. -/
def DoubleEntered (b b' : Books) : Prop :=
  ∀ t ∈ b'.transactions, t.id ∉ b.txnIds → b'.Balanced t.id

/-- No transaction has been taken away, and those added have one posting at most. -/
structure OneLegged (b b' : Books) : Prop where
  kept : ∀ txn ∈ b.txnIds, txn ∈ b'.txnIds
  short : ∀ t ∈ b'.transactions, t.id ∉ b.txnIds → (b'.postingsOf t.id).length ≤ 1

variable {b₀ b b' : Books}

theorem OneLegged.refl (b : Books) : b.OneLegged b where
  kept := fun _ h => h
  short := fun _ ht hnew => absurd (mem_txnIds ht) hnew

theorem OneLegged.posts {t : Transaction} {ps : List Posting} (h : b₀.OneLegged b)
    (hposts : Posts b b' t ps) (hlen : ps.length ≤ 1) : b₀.OneLegged b' where
  kept := fun txn htxn => by
    rw [hposts.txnIds]
    exact List.mem_append_left _ (h.kept txn htxn)
  short := by
    intro s hs hnew
    rcases hposts.mem_transactions.mp hs with hs | rfl
    · rw [hposts.postingsOf_of_ne (hposts.ne_of_mem hs)]
      exact h.short s hs hnew
    · rw [hposts.postingsOf_self]
      exact hlen

theorem OneLegged.doubleEntered_iff (h : b.OneLegged b') :
    b.DoubleEntered b' ↔ ∀ t ∈ b'.transactions, t.id ∈ b.txnIds := by
  constructor
  · intro hdouble t ht
    by_contra hnew
    have htwo := (hdouble t ht hnew).1
    have hone := h.short t ht hnew
    omega
  · intro hall t ht hnew
    exact absurd (hall t ht) hnew

end Books

/-! ## The wizard -/

namespace ImportWizard

/-- The postings of all rows from the `n`-th on. -/
def allLegs (req : Request) (cash : Uuid) : ℕ → List TransformedRow → List PostingRow
  | _, [] => []
  | n, row :: rows => rowLegs req cash n row ++ allLegs req cash (n + 1) rows

/-- The rows from the `n`-th on can be written: the user is there, the amounts fit their
column and stay positive in it, and the drawn ids are new. -/
structure RowsFit (db : Db) (req : Request) (user cash : Uuid) (n : ℕ)
    (rows : List TransformedRow) : Prop where
  creator : rows ≠ [] → ∃ u ∈ db.users, u.id = user
  txn_ids : ((List.range' n rows.length).map req.txnId).Nodup
  txn_ids_new : ∀ k ∈ List.range' n rows.length, req.txnId k ∉ db.books.txnIds
  leg_columns : ∀ r ∈ allLegs req cash n rows, r.FitsColumns
  leg_ids : ((allLegs req cash n rows).map PostingRow.id).Nodup
  leg_ids_new : ∀ r ∈ allLegs req cash n rows, ∀ p ∈ db.books.postings, p.id ≠ r.id

def Accepted (lib : Readers) (db : Db) (req : Request) (auth : Option Uuid) (ledgerId : Uuid)
    (form : CommitForm) : Prop :=
  ∃ user ledger rows cash, auth = some user ∧ db.ensureOwner user ledgerId = .ok ledger ∧
    transform lib form.csvContent form.map = some rows ∧ rows ≠ [] ∧
    bankAccount db ledgerId = some cash ∧ RowsFit db req user cash.id 0 rows

theorem rowLegs_length (req : Request) (cash : Uuid) (n : ℕ) (row : TransformedRow) :
    (rowLegs req cash n row).length ≤ 1 := by
  rw [rowLegs]
  split <;> simp

theorem rowLegs_owned {req : Request} {cash : Uuid} {n : ℕ} {row : TransformedRow} :
    ∀ r ∈ rowLegs req cash n row, r.transactionId = req.txnId n ∧ r.accountId = cash := by
  intro r hr
  rw [rowLegs] at hr
  split at hr
  · cases hr
  · rw [List.mem_singleton.mp hr]
    exact ⟨rfl, rfl⟩

section

variable {db : Db} {req : Request} {user cash : Uuid} {ledger : Ledger} {n : ℕ}
  {row : TransformedRow} {rows : List TransformedRow}

/-- Rows fit if the first one does and the others fit behind it. -/
theorem rowsFit_cons {t : Transaction} {b' : Books} {ps qs : List Posting}
    (hposts : Books.Posts db.books b' t ps) (ht : t.id = req.txnId n)
    (hpostings : b'.postings = db.books.postings ++ qs)
    (hids : qs.map Posting.id = (rowLegs req cash n row).map PostingRow.id) :
    RowsFit db req user cash n (row :: rows) ↔
      ((∃ u ∈ db.users, u.id = user) ∧ req.txnId n ∉ db.books.txnIds ∧
        (∀ r ∈ rowLegs req cash n row, r.FitsColumns) ∧
        ∀ r ∈ rowLegs req cash n row, ∀ p ∈ db.books.postings, p.id ≠ r.id) ∧
      RowsFit { db with books := b' } req user cash (n + 1) rows := by
  have hmem : ∀ {r : PostingRow}, r ∈ allLegs req cash n (row :: rows) ↔
      r ∈ rowLegs req cash n row ∨ r ∈ allLegs req cash (n + 1) rows := List.mem_append
  constructor
  · intro h
    have htxns := h.txn_ids
    have hnew := h.txn_ids_new
    have hlegs := h.leg_ids
    rw [List.length_cons, List.range'_succ, List.map_cons, List.nodup_cons] at htxns
    rw [List.length_cons, List.range'_succ, List.forall_mem_cons] at hnew
    rw [allLegs, List.map_append, List.nodup_append] at hlegs
    refine ⟨⟨h.creator (List.cons_ne_nil _ _), hnew.1,
      fun r hr => h.leg_columns r (hmem.mpr (Or.inl hr)),
      fun r hr => h.leg_ids_new r (hmem.mpr (Or.inl hr))⟩, ?_⟩
    constructor
    · exact fun _ => h.creator (List.cons_ne_nil _ _)
    · exact htxns.2
    · intro k hk hused
      rw [show ({ db with books := b' } : Db).books.txnIds = db.books.txnIds ++ [t.id] from
        hposts.txnIds, ht] at hused
      rcases List.mem_append.mp hused with hused | hused
      · exact hnew.2 k hk hused
      · exact htxns.1 (List.mem_singleton.mp hused ▸ List.mem_map_of_mem hk)
    · exact fun r hr => h.leg_columns r (hmem.mpr (Or.inr hr))
    · exact hlegs.2.1
    · intro r hr p hp
      rw [show ({ db with books := b' } : Db).books.postings = db.books.postings ++ qs from
        hpostings] at hp
      rcases List.mem_append.mp hp with hp | hp
      · exact h.leg_ids_new r (hmem.mpr (Or.inr hr)) p hp
      · exact hlegs.2.2 _ (hids ▸ List.mem_map_of_mem hp) _ (List.mem_map_of_mem hr)
  · rintro ⟨⟨hcreator, hfresh, hcolumns, hids_new⟩, h⟩
    have hused : ∀ k ∈ List.range' (n + 1) rows.length,
        req.txnId k ∉ db.books.txnIds ++ [req.txnId n] := by
      intro k hk
      rw [← ht, ← hposts.txnIds]
      exact h.txn_ids_new k hk
    have hlater : ∀ r ∈ allLegs req cash (n + 1) rows, ∀ p ∈ db.books.postings ++ qs,
        p.id ≠ r.id := by
      intro r hr
      rw [← hpostings]
      exact h.leg_ids_new r hr
    constructor
    · exact fun _ => hcreator
    · rw [List.length_cons, List.range'_succ, List.map_cons, List.nodup_cons]
      refine ⟨fun hmem => ?_, h.txn_ids⟩
      obtain ⟨k, hk, heq⟩ := List.mem_map.mp hmem
      exact hused k hk (List.mem_append_right _ (List.mem_singleton.mpr heq))
    · rw [List.length_cons, List.range'_succ, List.forall_mem_cons]
      exact ⟨hfresh, fun k hk hold => hused k hk (List.mem_append_left _ hold)⟩
    · intro r hr
      rcases hmem.mp hr with hr | hr
      · exact hcolumns r hr
      · exact h.leg_columns r hr
    · rw [allLegs, List.map_append, List.nodup_append]
      refine ⟨?_, h.leg_ids, ?_⟩
      · rcases Nat.le_one_iff_eq_zero_or_eq_one.mp (rowLegs_length req cash n row) with hlen | hlen
        · rw [List.length_eq_zero_iff.mp hlen]
          exact List.nodup_nil
        · obtain ⟨r, hr⟩ := List.length_eq_one_iff.mp hlen
          rw [hr]
          exact List.nodup_singleton _
      · intro x hx y hy heq
        rw [← hids] at hx
        obtain ⟨p, hp, rfl⟩ := List.mem_map.mp hx
        obtain ⟨r, hr, rfl⟩ := List.mem_map.mp hy
        exact hlater r hr p (List.mem_append_right _ hp) heq
    · intro r hr p hp
      rcases hmem.mp hr with hr | hr
      · exact hids_new r hr p hp
      · exact hlater r hr p (List.mem_append_left _ hp)

theorem insertRow_ok_iff (hledger : db.HasLedger ledger.id) (hcash : cash ∈ db.books.accountIds) :
    (∃ db', db.insertEntry (rowTxn req user ledger n row) (rowLegs req cash n row) = .ok db') ↔
      (∃ u ∈ db.users, u.id = user) ∧ req.txnId n ∉ db.books.txnIds ∧
        (∀ r ∈ rowLegs req cash n row, r.FitsColumns) ∧
        ∀ r ∈ rowLegs req cash n row, ∀ p ∈ db.books.postings, p.id ≠ r.id := by
  rw [Db.insertEntry_ok_iff fun r hr => (rowLegs_owned r hr).1,
    Db.legsInsertable_of_short (rowLegs_length req cash n row)]
  constructor
  · rintro ⟨htxn, hcolumns, -, hnew⟩
    exact ⟨htxn.creator, htxn.fresh, hcolumns, hnew⟩
  · rintro ⟨hcreator, hfresh, hcolumns, hnew⟩
    refine ⟨⟨hledger, hcreator, rfl, rfl, ?_, hfresh⟩, hcolumns, ?_, hnew⟩
    · intro s _
      simp [rowTxn]
    · intro r hr
      rw [(rowLegs_owned r hr).2]
      exact hcash

/-- The rows are committed if and only if they fit. -/
theorem commitRows_ok_iff (rows : List TransformedRow) :
    ∀ {db : Db} {n : ℕ}, db.HasLedger ledger.id → cash ∈ db.books.accountIds →
      ((∃ db', commitRows req user ledger cash n db rows = .ok db') ↔
        RowsFit db req user cash n rows) := by
  induction rows with
  | nil =>
    intro db n _ _
    refine ⟨fun _ => ?_, fun _ => ⟨db, rfl⟩⟩
    constructor
    · exact fun h => absurd rfl h
    · exact List.nodup_nil
    · exact fun _ hk => nomatch hk
    · exact fun _ hr => nomatch hr
    · exact List.nodup_nil
    · exact fun _ hr => nomatch hr
  | cons row rows ih =>
    intro db n hledger hcash
    have hone := @insertRow_ok_iff _ req user _ _ n row hledger hcash
    simp only [commitRows, bind_eq_ok]
    constructor
    · rintro ⟨db', db₁, hentry, hrest⟩
      obtain ⟨qs, hpostings, hids⟩ := Db.insertEntry_ids hentry
      have hfirst := hone.mp ⟨db₁, hentry⟩
      obtain ⟨-, b', ps, rfl, hposts, -, -⟩ :=
        Db.insertEntry_spec (fun r hr => (rowLegs_owned r hr).1) hentry
      have hcash' : cash ∈ b'.accountIds := by
        rw [Books.accountIds, hposts.accounts]
        exact hcash
      have hlater := (@ih { db with books := b' } _ hledger hcash').mp ⟨db', hrest⟩
      exact (rowsFit_cons hposts rfl hpostings hids).mpr ⟨hfirst, hlater⟩
    · intro h
      have hfirst : (∃ u ∈ db.users, u.id = user) ∧ req.txnId n ∉ db.books.txnIds ∧
          (∀ r ∈ rowLegs req cash n row, r.FitsColumns) ∧
          ∀ r ∈ rowLegs req cash n row, ∀ p ∈ db.books.postings, p.id ≠ r.id :=
        ⟨h.creator (List.cons_ne_nil _ _), h.txn_ids_new n (by simp),
          fun r hr => h.leg_columns r (List.mem_append_left _ hr),
          fun r hr => h.leg_ids_new r (List.mem_append_left _ hr)⟩
      obtain ⟨db₁, hentry⟩ := hone.mpr hfirst
      obtain ⟨qs, hpostings, hids⟩ := Db.insertEntry_ids hentry
      obtain ⟨-, b', ps, rfl, hposts, -, -⟩ :=
        Db.insertEntry_spec (fun r hr => (rowLegs_owned r hr).1) hentry
      have hcash' : cash ∈ b'.accountIds := by
        rw [Books.accountIds, hposts.accounts]
        exact hcash
      obtain ⟨db', hrest⟩ := (@ih { db with books := b' } _ hledger hcash').mpr
        ((rowsFit_cons hposts rfl hpostings hids).mp h).2
      exact ⟨db', _, hentry, hrest⟩

/-- What is committed has a single leg in each entry. -/
theorem commitRows_spec (rows : List TransformedRow) :
    ∀ {db db' : Db} {n : ℕ} {b₀ : Books}, b₀.OneLegged db.books →
      commitRows req user ledger cash n db rows = .ok db' →
      b₀.OneLegged db'.books ∧ (∀ txn ∈ db.books.txnIds, txn ∈ db'.books.txnIds) ∧
        (rows ≠ [] → ∃ t ∈ db'.books.transactions, t.id ∉ db.books.txnIds) := by
  induction rows with
  | nil =>
    intro db db' n b₀ hb₀ h
    cases h
    exact ⟨hb₀, fun _ h => h, fun h => absurd rfl h⟩
  | cons row rows ih =>
    intro db db' n b₀ hb₀ h
    simp only [commitRows, bind_eq_ok] at h
    obtain ⟨db₁, hentry, hrest⟩ := h
    obtain ⟨-, b', ps, rfl, hposts, hstored, -⟩ :=
      Db.insertEntry_spec (fun r hr => (rowLegs_owned r hr).1) hentry
    have hlen : ps.length ≤ 1 := hstored.length_eq ▸ rowLegs_length req cash n row
    obtain ⟨hlegged, hkept, -⟩ := ih (hb₀.posts hposts hlen) hrest
    refine ⟨hlegged, fun txn htxn => hkept txn ?_, fun _ => ?_⟩
    · show txn ∈ b'.txnIds
      rw [hposts.txnIds]
      exact List.mem_append_left _ htxn
    · have hmem : req.txnId n ∈ db'.books.txnIds := by
        refine hkept _ ?_
        show req.txnId n ∈ b'.txnIds
        rw [hposts.txnIds]
        exact List.mem_append_right _ (List.mem_singleton.mpr rfl)
      obtain ⟨t, ht, hid⟩ := List.mem_map.mp hmem
      exact ⟨t, ht, hid ▸ hposts.fresh⟩

end

theorem commitForm_ok_iff {lib : Readers} {db : Db} {req : Request} {auth : Option Uuid}
    {ledgerId : Uuid} {form : CommitForm} :
    (∃ r, commitForm lib db req auth ledgerId form = .ok r) ↔
      Accepted lib db req auth ledgerId form := by
  have hloop : ∀ {user ledger rows cash}, db.ensureOwner user ledgerId = .ok ledger →
      bankAccount db ledgerId = some cash →
      ((∃ db', commitRows req user ledger cash.id 0 db rows = .ok db') ↔
        RowsFit db req user cash.id 0 rows) := by
    intro user ledger rows cash hledger hcash
    refine commitRows_ok_iff rows ?_ (Books.mem_accountIds (List.mem_of_find?_eq_some hcash))
    rw [Db.ensureOwner, okOr_eq_ok] at hledger
    exact ⟨ledger, List.mem_of_find?_eq_some hledger, rfl⟩
  simp only [commitForm, bind_eq_ok, okOr_eq_ok, ensure_eq_ok, mapError_eq_ok]
  constructor
  · rintro ⟨r, user, hauth, ledger, hledger, rows, hrows, -, hne, cash, hcash, db', hcommit, -⟩
    exact ⟨user, ledger, rows, cash, hauth, hledger, hrows, hne, hcash,
      (hloop hledger hcash).mp ⟨db', hcommit⟩⟩
  · rintro ⟨user, ledger, rows, cash, hauth, hledger, hrows, hne, hcash, hfit⟩
    obtain ⟨db', hcommit⟩ := (hloop hledger hcash).mpr hfit
    exact ⟨_, user, hauth, ledger, hledger, rows, hrows, (), hne, cash, hcash, db', hcommit, rfl⟩

theorem commitForm_spec {lib : Readers} {db db' : Db} {req : Request} {auth : Option Uuid}
    {ledgerId : Uuid} {form : CommitForm}
    (h : commitForm lib db req auth ledgerId form = .ok ((), db')) :
    db.books.OneLegged db'.books ∧ ∃ t ∈ db'.books.transactions, t.id ∉ db.books.txnIds := by
  simp only [commitForm, bind_eq_ok, okOr_eq_ok, ensure_eq_ok, mapError_eq_ok] at h
  obtain ⟨user, -, ledger, -, rows, -, -, hne, cash, -, db₁, hcommit, h⟩ := h
  cases h
  obtain ⟨hlegged, -, hnew⟩ := commitRows_spec rows (.refl db.books) hcommit
  exact ⟨hlegged, hnew hne⟩

/-- The wizard keeps double entry only where it commits nothing. -/
theorem handleCommit_doubleEntered_iff (lib : Readers) (db : Db) (req : Request)
    (auth : Option Uuid) (ledgerId : Uuid) (form : CommitForm) :
    db.books.DoubleEntered (handleCommit lib db req auth ledgerId form).2.books ↔
      ¬ Accepted lib db req auth ledgerId form := by
  rw [← commitForm_ok_iff, handleCommit]
  cases hbody : commitForm lib db req auth ledgerId form with
  | error e =>
    refine ⟨fun _ ⟨r, hr⟩ => (nomatch hr), fun _ => ?_⟩
    exact (Books.OneLegged.refl db.books).doubleEntered_iff.mpr fun t ht => Books.mem_txnIds ht
  | ok r =>
    obtain ⟨⟨⟩, db'⟩ := r
    obtain ⟨hlegged, t, ht, hnew⟩ := commitForm_spec hbody
    refine ⟨fun hdouble => ?_, fun h => absurd ⟨_, rfl⟩ h⟩
    exact absurd (hlegged.doubleEntered_iff.mp hdouble t ht) hnew

end ImportWizard

/-! ## The sync -/

namespace Sync

/-- Nothing is in the way of the provider transaction as the `n`-th of a sync. -/
structure Importable (db : Db) (req : Request) (n : ℕ) (link : BankFeedLink)
    (t : RemoteTransaction) : Prop where
  user : db.users ≠ []
  ledger : db.HasLedger link.ledgerId
  txn_id : req.txnId n ∉ db.books.txnIds
  account : ∀ a ∈ link.accountIdInLedger, a ∈ db.books.accountIds
  columns : ∀ r ∈ remoteLegs req n link t, r.FitsColumns
  posting_id : ∀ r ∈ remoteLegs req n link t, ∀ p ∈ db.books.postings, p.id ≠ r.id
  link_row : ∃ l ∈ db.bankFeedLinks, l.id = link.id
  record_id : ∀ s ∈ db.bankFeedTransactions, s.id ≠ req.rowId n

/-- The first of the transactions, numbered from `n` on, that is not imported yet. -/
def firstNew (db : Db) (link : BankFeedLink) (n : ℕ) (txns : List RemoteTransaction) :
    Option (RemoteTransaction × ℕ) :=
  (txns.zipIdx n).find? fun x => ¬ Imported db link.id x.1.providerTxnId

/-- The provider answers with a transaction that can be imported. -/
def Commits (db : Db) (req : Request) (link : BankFeedLink)
    (fetched : Except BankFeedError Fetched) : Prop :=
  ∃ txns cursor, fetched = .ok (txns, cursor) ∧
    ∃ x ∈ firstNew db link 0 txns, Importable db req x.2 link x.1

variable {db db' : Db} {req : Request} {n : ℕ} {link : BankFeedLink} {t : RemoteTransaction}

/-- A new provider transaction is inserted exactly if it can be. -/
theorem insertRemote_ok_iff (hnew : ¬ Imported db link.id t.providerTxnId) :
    (∃ db', insertRemote db req n link t = .ok db') ↔ Importable db req n link t := by
  have haccount : (∀ r ∈ remoteLegs req n link t, r.accountId ∈ db.books.accountIds) ↔
      ∀ a ∈ link.accountIdInLedger, a ∈ db.books.accountIds := by
    cases hlink : link.accountIdInLedger <;> simp [remoteLegs, hlink]
  have hentry : ∀ {user : User} {ledger : Ledger}, db.users.head? = some user →
      db.findLedger link.ledgerId = some ledger →
      ((∃ db₁, db.insertEntry (remoteTxn req n user.id ledger t) (remoteLegs req n link t) =
        .ok db₁) ↔ req.txnId n ∉ db.books.txnIds ∧
          (∀ r ∈ remoteLegs req n link t, r.FitsColumns) ∧
          (∀ a ∈ link.accountIdInLedger, a ∈ db.books.accountIds) ∧
          ∀ r ∈ remoteLegs req n link t, ∀ p ∈ db.books.postings, p.id ≠ r.id) := by
    intro user ledger huser hledger
    rw [Db.insertEntry_ok_iff fun r hr => remoteLegs_owned r hr,
      Db.legsInsertable_of_short (remoteLegs_length req n link t), haccount]
    constructor
    · rintro ⟨htxn, hrest⟩
      exact ⟨htxn.fresh, hrest⟩
    · rintro ⟨hfresh, hrest⟩
      refine ⟨⟨⟨ledger, List.mem_of_find?_eq_some hledger, rfl⟩,
        ⟨user, List.mem_of_head? huser, rfl⟩, rfl, rfl, ?_, hfresh⟩, hrest⟩
      intro s _
      simp [remoteTxn]
  simp only [insertRemote, bind_eq_ok, okOr_eq_ok, mapError_eq_ok]
  constructor
  · rintro ⟨db', user, huser, ledger, hledger, db₁, hone, hrecord⟩
    obtain ⟨hfresh, hcolumns, haccounts, hids⟩ := (hentry huser hledger).mp ⟨db₁, hone⟩
    obtain ⟨-, b', ps, rfl, -⟩ := Db.insertEntry_spec (fun r hr => remoteLegs_owned r hr) hone
    obtain ⟨hlink, -, hid, -⟩ := insertRecord_ok_iff.mp hrecord
    have hidLedger : ledger.id = link.ledgerId := by simpa using List.find?_some hledger
    refine ⟨?_, ⟨ledger, List.mem_of_find?_eq_some hledger, hidLedger⟩, hfresh, haccounts, hcolumns,
      hids, hlink, hid⟩
    intro hnil
    rw [hnil] at huser
    cases huser
  · intro h
    obtain ⟨user, huser⟩ : ∃ user, db.users.head? = some user := by
      cases husers : db.users with
      | nil => exact absurd husers h.user
      | cons user users => exact ⟨user, rfl⟩
    obtain ⟨ledger, hledger⟩ : ∃ ledger, db.findLedger link.ledgerId = some ledger := by
      obtain ⟨l, hl, hid⟩ := h.ledger
      exact Option.isSome_iff_exists.mp (List.find?_isSome.mpr ⟨l, hl, by simpa using hid⟩)
    obtain ⟨db₁, hone⟩ := (hentry huser hledger).mpr ⟨h.txn_id, h.columns, h.account, h.posting_id⟩
    obtain ⟨-, b', ps, rfl, hposts, -⟩ :=
      Db.insertEntry_spec (fun r hr => remoteLegs_owned r hr) hone
    have htxn : req.txnId n ∈ b'.txnIds := by
      rw [hposts.txnIds]
      exact List.mem_append_right _ (List.mem_singleton.mpr rfl)
    exact ⟨_, user, huser, ledger, hledger, _, hone, insertRecord_ok_iff.mpr
      ⟨h.link_row, by simpa using htxn, h.record_id, hnew, rfl⟩⟩

/-- What is there already stays, and what the loop adds has one posting at most. -/
theorem importAll_oneLegged {b₀ : Books} (txns : List RemoteTransaction) :
    ∀ {db : Db} {n : ℕ}, b₀.OneLegged db.books →
      b₀.OneLegged (importAll req link n db txns).2.books ∧
        ∀ txn ∈ db.books.txnIds, txn ∈ (importAll req link n db txns).2.books.txnIds := by
  induction txns with
  | nil =>
    intro db n hb₀
    exact ⟨hb₀, fun _ h => h⟩
  | cons t ts ih =>
    intro db n hb₀
    rw [importAll, importTransaction]
    by_cases himported : Imported db link.id t.providerTxnId
    · rw [if_pos himported]
      exact ih hb₀
    · rw [if_neg himported]
      cases hinsert : insertRemote db req n link t with
      | error e => exact ⟨hb₀, fun _ h => h⟩
      | ok db' =>
        obtain ⟨row, ps, hwrote⟩ := insertRemote_spec hinsert
        obtain ⟨hlegged, hkept⟩ := ih (n := n + 1) (hb₀.posts hwrote.posts hwrote.short)
        refine ⟨hlegged, fun txn htxn => hkept txn ?_⟩
        rw [hwrote.posts.txnIds]
        exact List.mem_append_left _ htxn

/-- The loop adds a transaction exactly when the first new one can be imported. -/
theorem importAll_adds_iff (txns : List RemoteTransaction) :
    ∀ {n : ℕ}, (∃ t ∈ (importAll req link n db txns).2.books.transactions,
        t.id ∉ db.books.txnIds) ↔
      ∃ x ∈ firstNew db link n txns, Importable db req x.2 link x.1 := by
  induction txns with
  | nil =>
    intro n
    refine ⟨?_, fun ⟨x, hx, _⟩ => (nomatch hx)⟩
    rintro ⟨t, ht, hnew⟩
    exact absurd (Books.mem_txnIds ht) hnew
  | cons t ts ih =>
    intro n
    rw [importAll, importTransaction, firstNew, List.zipIdx_cons]
    by_cases himported : Imported db link.id t.providerTxnId
    · rw [if_pos himported, List.find?_cons_of_neg (by simpa using himported)]
      exact ih
    · rw [if_neg himported, List.find?_cons_of_pos (by simpa using himported)]
      have hiff := @insertRemote_ok_iff _ req n _ _ himported
      cases hinsert : insertRemote db req n link t with
      | error e =>
        rw [hinsert] at hiff
        constructor
        · rintro ⟨s, hs, hnew⟩
          exact absurd (Books.mem_txnIds hs) hnew
        · rintro ⟨x, hx, himportable⟩
          cases Option.mem_some.mp hx
          obtain ⟨db', hdb'⟩ := hiff.mpr himportable
          cases hdb'
      | ok db' =>
        obtain ⟨row, ps, hwrote⟩ := insertRemote_spec hinsert
        refine ⟨fun _ => ⟨_, rfl, hiff.mp ⟨db', hinsert⟩⟩, fun _ => ?_⟩
        have hrow : row.id ∈ db'.books.txnIds := by
          rw [hwrote.posts.txnIds]
          exact List.mem_append_right _ (List.mem_singleton_self _)
        have hkept := (@importAll_oneLegged req link _ ts db' (n + 1) (.refl db'.books)).2 _ hrow
        obtain ⟨s, hs, hid⟩ := List.mem_map.mp hkept
        exact ⟨s, hs, hid ▸ hwrote.posts.fresh⟩

theorem syncOne_books (txns : List RemoteTransaction) (cursor : Option String) :
    (syncOne db req link (.ok (txns, cursor))).2.books = (importAll req link 0 db txns).2.books := by
  rw [syncOne]
  obtain ⟨answer, db'⟩ := importAll req link 0 db txns
  cases answer with
  | error e => rfl
  | ok u => rfl

/-- The sync keeps double entry only where it imports nothing. -/
theorem syncOne_doubleEntered_iff (db : Db) (req : Request) (link : BankFeedLink)
    (fetched : Except BankFeedError Fetched) :
    db.books.DoubleEntered (syncOne db req link fetched).2.books ↔
      ¬ Commits db req link fetched := by
  cases fetched with
  | error e =>
    refine ⟨?_, fun _ => ?_⟩
    · rintro - ⟨txns, cursor, h, -⟩
      cases h
    · exact (Books.OneLegged.refl db.books).doubleEntered_iff.mpr fun t ht => Books.mem_txnIds ht
  | ok answer =>
    obtain ⟨txns, cursor⟩ := answer
    have hlegged := (@importAll_oneLegged req link _ txns db 0 (.refl db.books)).1
    have hadds := @importAll_adds_iff db req link txns 0
    rw [syncOne_books, hlegged.doubleEntered_iff]
    constructor
    · rintro hall ⟨txns', cursor', h, hcommits⟩
      cases h
      obtain ⟨t, ht, hnew⟩ := hadds.mpr hcommits
      exact hnew (hall t ht)
    · intro hnone t ht
      by_contra hnew
      exact hnone ⟨txns, cursor, rfl, hadds.mp ⟨t, ht, hnew⟩⟩

end Sync

/-! ## Both imports -/

/-- The transactions that the wizard and the sync commit are double entries exactly when
there are none.  Each of them has one posting at most. -/
theorem imports_doubleEntered_iff (db : Db) (req : Request) :
    (∀ (lib : ImportWizard.Readers) (auth : Option Uuid) (ledgerId : Uuid)
        (form : ImportWizard.CommitForm),
      db.books.DoubleEntered (ImportWizard.handleCommit lib db req auth ledgerId form).2.books ↔
        ¬ ImportWizard.Accepted lib db req auth ledgerId form) ∧
      ∀ (link : BankFeedLink) (fetched : Except BankFeedError Sync.Fetched),
        db.books.DoubleEntered (Sync.syncOne db req link fetched).2.books ↔
          ¬ Sync.Commits db req link fetched :=
  ⟨fun lib auth ledgerId form =>
      ImportWizard.handleCommit_doubleEntered_iff lib db req auth ledgerId form,
    fun link fetched => Sync.syncOne_doubleEntered_iff db req link fetched⟩

namespace Sample

/-- The sample ledger with a bank account. -/
def withBank : Db :=
  { db with
    books := db.books.addAccount
      { id := 13, ledgerId := ledgerId, name := "Bank Account", type := .asset,
        subtype := .currentAsset, subtype_valid := AccountType.currentAsset_valid } (by decide)
    bankFeedLinks := [{ id := 50, ledgerId := ledgerId, accountIdInLedger := some 13 }] }

/-- The two texts of the form below, read as the libraries read them. -/
def readers : ImportWizard.Readers where
  parseFromStr s format :=
    if s = "2026-03-10" ∧ format = "%Y-%m-%d" then some (march 10) else none
  parseDecimal s := if s = "1500.00" then some 1500 else none
  sub a b := some (a - b)

/-- One line, with the amount in the third column. -/
def salary : ImportWizard.CommitForm where
  csvContent := "date,description,amount\n2026-03-10,Salary,1500.00\n"
  map := { date := 0, description := 1, amountIn := 2 }

/-- A provider transaction of the same amount. -/
def transferIn : RemoteTransaction where
  providerTxnId := "p-1"
  date := march 10
  amount := 1500
  description := "Salary"

/-- The wizard and the sync each commit an entry with a single debit. -/
theorem imports_not_doubleEntered :
    ¬ withBank.books.DoubleEntered
        (ImportWizard.handleCommit readers withBank (request 1) (some owner) ledgerId salary).2.books ∧
      ∀ link ∈ withBank.bankFeedLinks, ¬ withBank.books.DoubleEntered
        (Sync.syncOne withBank (request 1) link (.ok ([transferIn], some "c-1"))).2.books := by
  unfold Books.DoubleEntered
  decide +kernel

end Sample

end OpenAccounting
