import OpenAccounting.System.LedgerIsolation

/-!
# Append-only ledgers

A ledger with `append_only` set is corrected by further entries alone.  Two triggers of
migration `0044_add_ledger_append_only.sql` guard the table `transactions`: no `UPDATE`
and no `DELETE` touches a row of such a ledger.  The table `postings` has no trigger of
this kind.

`LedgerAction` collects the operations that write journals, change their kind, label them or
take them away.  Each of them but one leaves every row of an append-only ledger as it is.
The `categorize_transaction` action of an automation rule updates postings alone, and
`Recategorizes` is the exact condition under which it rewrites one of the ledger.
-/

namespace OpenAccounting

open Commit

/-! ## Rows that stay -/

/-- The transactions of the ledger are corrected by further entries alone. -/
def Db.AppendOnly (db : Db) (ledger : Uuid) : Prop :=
  ∃ l ∈ db.ledgers, l.id = ledger ∧ l.appendOnly = true

/-- Every row of the ledger is still there, with all its columns. -/
structure Db.Unchanged (db db' : Db) (ledger : Uuid) : Prop where
  transactions : ∀ t ∈ db.books.transactions, t.ledgerId = ledger → t ∈ db'.books.transactions
  postings : ∀ p ∈ db.books.postings, db.books.InLedger ledger p → p ∈ db'.books.postings

namespace Db

variable {db db₁ db₂ db' : Db} {ledger : Uuid}

theorem Unchanged.refl (db : Db) (ledger : Uuid) : db.Unchanged db ledger where
  transactions := fun _ ht _ => ht
  postings := fun _ hp _ => hp

theorem Unchanged.inLedger (h : db.Unchanged db' ledger) {p : Posting}
    (hp : db.books.InLedger ledger p) : db'.books.InLedger ledger p := by
  obtain ⟨head, hhead, rfl⟩ := hp
  obtain ⟨t, ht, hid, rfl⟩ := Books.header_eq_some.mp hhead
  have hkept := h.transactions t ht rfl
  exact ⟨t.header, hid ▸ Books.header_of_mem hkept, rfl⟩

theorem Unchanged.trans (h : db.Unchanged db₁ ledger) (h' : db₁.Unchanged db₂ ledger) :
    db.Unchanged db₂ ledger where
  transactions := fun t ht hledger => h'.transactions t (h.transactions t ht hledger) hledger
  postings := fun p hp hin => h'.postings p (h.postings p hp hin) (h.inLedger hin)

theorem unchanged_of_books (h : db'.books = db.books) (ledger : Uuid) :
    db.Unchanged db' ledger where
  transactions := fun t ht _ => by rw [h]; exact ht
  postings := fun p hp _ => by rw [h]; exact hp

theorem unchanged_of_rowsOf (h : db'.rowsOf ledger = db.rowsOf ledger) :
    db.Unchanged db' ledger where
  transactions := by
    intro t ht hledger
    have hmem : t ∈ db.books.transactionsIn ledger := by
      simp [Books.transactionsIn, ht, hledger]
    have hsame : db'.books.transactionsIn ledger = db.books.transactionsIn ledger :=
      congrArg LedgerRows.transactions h
    rw [← hsame] at hmem
    exact (List.mem_filter.mp hmem).1
  postings := by
    intro p hp hin
    have hmem : p ∈ db.books.postingsIn ledger := by
      simp [Books.postingsIn, hp, hin]
    have hsame : db'.books.postingsIn ledger = db.books.postingsIn ledger :=
      congrArg LedgerRows.postings h
    rw [← hsame] at hmem
    exact (List.mem_filter.mp hmem).1

theorem unchanged_of_posts {t : Transaction} {ps : List Posting}
    (h : Books.Posts db.books db'.books t ps) (ledger : Uuid) : db.Unchanged db' ledger where
  transactions := fun s hs _ => h.mem_transactions.mpr (Or.inl hs)
  postings := fun p hp _ => by
    rw [h.postings]
    exact List.mem_append_left ps hp

/-! ## The two triggers -/

/-- An accepted `UPDATE transactions` touches no row of an append-only ledger. -/
theorem updateTransactions_unchanged (hledger : db.AppendOnly ledger)
    {touched : Transaction → Bool} {f : Transaction → Transaction} {hf : ∀ t, (f t).id = t.id}
    (h : db.updateTransactions touched f hf = .ok db') : db.Unchanged db' ledger := by
  obtain ⟨l, hl, hid, hon⟩ := hledger
  obtain ⟨hf', rfl⟩ := updateTransactions_spec h
  simp only [updateTransactions, bind_eq_ok, ensure_eq_ok] at h
  obtain ⟨-, hguard, -⟩ := h
  refine ⟨?_, fun p hp _ => hp⟩
  intro t ht hin
  refine List.mem_map.mpr ⟨t, ht, if_neg ?_⟩
  intro htouched
  have hoff := hguard t ht htouched l hl (hid.trans hin.symm)
  rw [hon] at hoff
  cases hoff

/-- The row that goes, and its postings with it, are of another ledger. -/
theorem removeTxn_unchanged {txn : Uuid}
    (hother : ∀ t ∈ db.books.transactions, t.ledgerId = ledger → t.id ≠ txn)
    (h : db'.books = db.books.removeTxn txn) : db.Unchanged db' ledger := by
  constructor
  · intro t ht hin
    rw [h]
    exact List.mem_filter.mpr ⟨ht, by simpa using hother t ht hin⟩
  · intro p hp hin
    obtain ⟨head, hhead, rfl⟩ := hin
    obtain ⟨t, ht, hid, rfl⟩ := Books.header_eq_some.mp hhead
    rw [h]
    refine List.mem_filter.mpr ⟨hp, ?_⟩
    simpa [← hid] using hother t ht rfl

/-- An accepted `DELETE FROM transactions` takes no row of an append-only ledger, nor one
of its postings. -/
theorem deleteTransaction_unchanged (hledger : db.AppendOnly ledger) {txn : Uuid}
    (h : db.deleteTransaction txn = .ok db') : db.Unchanged db' ledger := by
  obtain ⟨l, hl, hid, hon⟩ := id hledger
  simp only [deleteTransaction, bind_eq_ok, ensure_eq_ok] at h
  obtain ⟨-, hguard, db₁, hunlink, h⟩ := h
  cases h
  have hother : ∀ t ∈ db.books.transactions, t.ledgerId = ledger → t.id ≠ txn := by
    intro t ht hin heq
    have hoff := hguard t ht heq l hl (hid.trans hin.symm)
    rw [hon] at hoff
    cases hoff
  -- The reversal of a deleted row loses its link first.
  refine (updateTransactions_unchanged hledger hunlink).trans (removeTxn_unchanged ?_ rfl)
  obtain ⟨hf', rfl⟩ := updateTransactions_spec hunlink
  intro t ht
  obtain ⟨s, hs, rfl⟩ := List.mem_map.mp ht
  by_cases hr : s.reversesId = some txn
  · simpa [hr] using hother s hs
  · simpa [hr] using hother s hs

end Db

/-! ## The operations -/

/-- An operation on journals with its inputs. -/
inductive LedgerAction where
  | create (req : Request) (new : NewTransaction)
  | createDraft (req : Request) (new : NewTransaction)
  | postDraft (ledger txn : Uuid)
  | deleteDraft (ledger txn : Uuid)
  | approveJournal (ledger txn checker : Uuid)
  | rejectJournal (ledger txn checker : Uuid)
  | reverse (req : Request) (auth : Option Uuid) (ledger txn : Uuid)
  | edit (req : Request) (auth : Option Uuid) (ledger txn : Uuid)
      (form : TransactionsEdit.EditForm)
  | bulk (req : Request) (auth : Option Uuid) (ledger : Uuid) (form : TransactionsBulk.BulkForm)
  | automation (req : Request) (payload : Automation.Payload)

namespace LedgerAction

/-- The database after the operation, accepted or not. -/
def run (db : Db) : LedgerAction → Db
  | .create req new => (PostingService.create db req new).2
  | .createDraft req new => (PostingService.createDraft db req new).2
  | .postDraft ledger txn => (PostingService.postDraft db ledger txn).2
  | .deleteDraft ledger txn => (PostingService.deleteDraft db ledger txn).2
  | .approveJournal ledger txn checker => (PostingService.approveJournal db ledger txn checker).2
  | .rejectJournal ledger txn checker => (PostingService.rejectJournal db ledger txn checker).2
  | .reverse req auth ledger txn => (TransactionsEdit.reverse db req auth ledger txn).2
  | .edit req auth ledger txn form => (TransactionsEdit.edit db req auth ledger txn form).2
  | .bulk req auth ledger form => (TransactionsBulk.bulkAction db req auth ledger form).2
  | .automation req payload => (Automation.run db req payload).2

/-- The job of an enabled rule categorizes a transaction which has, in `ledger`, a posting
without a cost center.  The transaction is looked up by its id alone, so the ledger of the
rule need not be this one. -/
structure Categorizes (db : Db) (req : Request) (payload : Automation.Payload) (ledger rule
    ruleLedger : Uuid) (name : String) (txn : Uuid) : Prop where
  read : Automation.readPayload payload =
    .ok (rule, ruleLedger, .categorizeTransaction (.ok name) (some txn))
  enabled : (db.automationRules.find? fun r => r.id = rule).map (·.isEnabled) = some true
  center : Automation.CostCenterReady db req ruleLedger name
  /-- The balance trigger, where it is on, lets the update of the postings pass. -/
  balances : db.balanceTrigger = true → Db.checkPostingBalance db.books txn = .ok ()
  uncategorized : ∃ p ∈ db.books.postings, Automation.Uncategorized txn p ∧
    db.books.InLedger ledger p

/-- The operation rewrites a posting of the ledger. -/
def Recategorizes (db : Db) (ledger : Uuid) : LedgerAction → Prop
  | .automation req payload => ∃ rule ruleLedger name txn,
      Categorizes db req payload ledger rule ruleLedger name txn
  | _ => False

/-! ## Entries and their kinds -/

variable {db : Db} {ledger : Uuid}

theorem createWithKind_unchanged (db : Db) (ledger : Uuid) (req : Request) (new : NewTransaction)
    (isDraft : Bool) :
    db.Unchanged (PostingService.createWithKind db req new isDraft).2 ledger := by
  rcases PostingService.createWithKind_cases db req new isDraft with
    h | ⟨effective, t, ps, hcreated⟩
  · rw [h]
    exact .refl db ledger
  · exact Db.unchanged_of_posts hcreated.posts ledger

theorem postDraft_unchanged (hledger : db.AppendOnly ledger) (owner txn : Uuid) :
    db.Unchanged (PostingService.postDraft db owner txn).2 ledger := by
  refine commit_invariant (P := fun db' => db.Unchanged db' ledger) (.refl db ledger) ?_
  intro created db' h
  simp only [bind_eq_ok, mapError_eq_ok] at h
  obtain ⟨-, -, draft, -, -, -, -, -, db₁, hset, h⟩ := h
  cases h
  exact Db.updateTransactions_unchanged hledger hset

theorem deleteDraft_unchanged (hledger : db.AppendOnly ledger) (owner txn : Uuid) :
    db.Unchanged (PostingService.deleteDraft db owner txn).2 ledger := by
  rcases PostingService.deleteDraft_cases db owner txn with h | ⟨draft, db', -, -, hdelete, h⟩
  · rw [h]
    exact .refl db ledger
  · rw [h]
    exact Db.deleteTransaction_unchanged hledger hdelete

theorem decideApproval_unchanged {db' : Db} (h : db.Unchanged db' ledger) (txn checker : Uuid)
    (status : ApprovalStatus) :
    db.Unchanged (PostingService.decideApproval db' txn checker status) ledger := by
  have hbooks : (PostingService.decideApproval db' txn checker status).books = db'.books := rfl
  exact h.trans (Db.unchanged_of_books hbooks ledger)

theorem approveJournal_unchanged (hledger : db.AppendOnly ledger) (owner txn checker : Uuid) :
    db.Unchanged (PostingService.approveJournal db owner txn checker).2 ledger := by
  refine commit_invariant (P := fun db' => db.Unchanged db' ledger) (.refl db ledger) ?_
  intro u db' h
  simp only [bind_eq_ok, mapError_eq_ok] at h
  obtain ⟨-, -, db₁, hset, h⟩ := h
  cases h
  exact decideApproval_unchanged (Db.updateTransactions_unchanged hledger hset) txn checker _

theorem rejectJournal_unchanged (hledger : db.AppendOnly ledger) (owner txn checker : Uuid) :
    db.Unchanged (PostingService.rejectJournal db owner txn checker).2 ledger := by
  refine commit_invariant (P := fun db' => db.Unchanged db' ledger) (.refl db ledger) ?_
  intro u db' h
  simp only [bind_eq_ok, mapError_eq_ok] at h
  obtain ⟨-, -, db₁, hset, h⟩ := h
  cases h
  exact decideApproval_unchanged (Db.updateTransactions_unchanged hledger hset) txn checker _

theorem reverse_unchanged (db : Db) (ledger : Uuid) (req : Request) (auth : Option Uuid)
    (owner txn : Uuid) : db.Unchanged (TransactionsEdit.reverse db req auth owner txn).2 ledger := by
  rcases TransactionsEdit.reverse_cases db req auth owner txn with
    h | ⟨original, t, ps, b', -, -, -, -, h, hposts, -⟩
  · rw [h]
    exact .refl db ledger
  · rw [h]
    exact Db.unchanged_of_posts hposts ledger

theorem edit_unchanged (db : Db) (ledger : Uuid) (req : Request) (auth : Option Uuid)
    (owner txn : Uuid) (form : TransactionsEdit.EditForm) :
    db.Unchanged (TransactionsEdit.edit db req auth owner txn form).2 ledger := by
  rcases TransactionsEdit.edit_cases db req auth owner txn form with
    h | ⟨date, inputs, original, t, u, ps, qs, hedited⟩
  · rw [h]
    exact .refl db ledger
  · obtain ⟨b₁, b₂, hreversal, hcorrected, h, -⟩ := hedited.writes
    rw [h]
    have hreversed : db.Unchanged { db with books := b₁ } ledger :=
      Db.unchanged_of_posts hreversal ledger
    exact hreversed.trans (Db.unchanged_of_posts hcorrected ledger)

/-! ## Bulk actions -/

theorem setContacts_unchanged {owner contact : Uuid} (ids : List Uuid) :
    ∀ {db : Db}, db.AppendOnly ledger →
      db.Unchanged (TransactionsBulk.setContacts owner contact db ids).2 ledger := by
  induction ids with
  | nil =>
    intro db _
    exact .refl db ledger
  | cons id ids ih =>
    intro db hledger
    rw [TransactionsBulk.setContacts]
    cases hset : TransactionsBulk.setContact db owner contact id with
    | error e => exact .refl db ledger
    | ok db₁ =>
      have hfirst := Db.updateTransactions_unchanged hledger hset
      obtain ⟨hf, rfl⟩ := Db.updateTransactions_spec hset
      exact hfirst.trans (ih hledger)

theorem deleteAction_unchanged {db' : Db} {req : Request} {user owner : Uuid} {ids : List Uuid}
    (h : TransactionsBulk.deleteAction db req user owner ids = .ok db') :
    db.Unchanged db' ledger := by
  rw [TransactionsBulk.deleteAction, mapError_eq_ok] at h
  obtain ⟨b', rfl, hb'⟩ := TransactionsBulk.reverseAll_invariant
    (P := fun b => db.Unchanged { db with books := b } ledger)
    (fun hb _ _ _ hposts _ => hb.trans (Db.unchanged_of_posts hposts ledger))
    (.refl db ledger) h
  exact hb'

/-- No bulk action changes a row of an append-only ledger. -/
theorem bulk_unchanged (hledger : db.AppendOnly ledger) (req : Request) (auth : Option Uuid)
    (owner : Uuid) (form : TransactionsBulk.BulkForm) :
    db.Unchanged (TransactionsBulk.bulkAction db req auth owner form).2 ledger := by
  rcases TransactionsBulk.bulkAction_cases db req auth owner form with h | ⟨user, -, -, h⟩
  · rw [h]
    exact .refl db ledger
  · have hcommit : ∀ body : Except AppError Db, (∀ db', body = .ok db' → db.Unchanged db' ledger) →
        db.Unchanged (commit db (body.map fun db' => ((), db'))).2 ledger := by
      intro body hbody
      rcases TransactionsBulk.commit_map_cases db body with hsame | ⟨db', hok, hdb'⟩
      · rw [hsame]
        exact .refl db ledger
      · rw [hdb']
        exact hbody db' hok
    rw [h, TransactionsBulk.runAction]
    cases form.action with
    | tag =>
      refine hcommit _ ?_
      intro db' hok
      exact Db.unchanged_of_rowsOf (TenantOp.tagAction_rowsOf hok ledger)
    | untag =>
      refine hcommit _ ?_
      intro db' hok
      exact Db.unchanged_of_rowsOf (TenantOp.untagAction_rowsOf hok ledger)
    | contact =>
      dsimp only
      rw [TransactionsBulk.contactAction]
      split
      · exact .refl db ledger
      · exact setContacts_unchanged form.txnIds hledger
    | delete =>
      refine hcommit _ ?_
      intro db' hok
      exact deleteAction_unchanged hok
    | other name => exact .refl db ledger

/-! ## Automation -/

/-- The postings of the ledger stay exactly if none of them gets a cost center. -/
theorem categorized_unchanged_iff {b : Books} {db' : Db} {txn center : Uuid}
    (hb : b = db.books.mapPostings (Automation.withCostCenter txn center)
      (Automation.withCostCenter_transactionId txn center)
      (Automation.withCostCenter_accountId txn center)) (hdb' : db'.books = b) :
    db.Unchanged db' ledger ↔
      ¬ ∃ p ∈ db.books.postings, Automation.Uncategorized txn p ∧ db.books.InLedger ledger p := by
  constructor
  · rintro h ⟨p, hp, huncat, hin⟩
    have hmem := h.postings p hp hin
    rw [hdb', hb] at hmem
    obtain ⟨q, -, hq⟩ := List.mem_map.mp hmem
    rw [Automation.withCostCenter] at hq
    split at hq
    · have hnone := huncat.2
      rw [← hq] at hnone
      cases hnone
    · next hcat => exact hcat (hq ▸ huncat)
  · intro h
    constructor
    · intro t ht _
      rw [hdb', hb]
      exact ht
    · intro p hp hin
      rw [hdb', hb]
      have hcat : ¬ Automation.Uncategorized txn p := fun huncat => h ⟨p, hp, huncat, hin⟩
      exact List.mem_map.mpr ⟨p, hp, if_neg hcat⟩

/-- The action on a transaction, with the cost center and the trigger in its way. -/
theorem perform_unchanged_iff (db : Db) (req : Request) (ledger ruleLedger txn : Uuid)
    (name : String) :
    db.Unchanged (Automation.perform db req ruleLedger
        (.categorizeTransaction (.ok name) (some txn))).2 ledger ↔
      ¬ (Automation.CostCenterReady db req ruleLedger name ∧
        (db.balanceTrigger = true → Db.checkPostingBalance db.books txn = .ok ()) ∧
        ∃ p ∈ db.books.postings, Automation.Uncategorized txn p ∧ db.books.InLedger ledger p) := by
  rw [Automation.upsertCostCenter_ready]
  cases hupsert : Automation.upsertCostCenter db req ruleLedger name with
  | error e =>
    simp only [Automation.perform, hupsert]
    refine ⟨fun _ h => ?_, fun _ => .refl db ledger⟩
    obtain ⟨⟨r, hr⟩, -⟩ := h
    cases hr
  | ok r =>
    obtain ⟨centers, hr⟩ := Automation.upsertCostCenter_spec hupsert
    have hbooks : r.2.books = db.books := by rw [hr]
    cases hcat : Automation.categorize r.2 txn r.1 with
    | error e =>
      simp only [Automation.perform, hupsert, hcat]
      refine ⟨?_, fun _ => Db.unchanged_of_books hbooks ledger⟩
      rintro - ⟨-, hcheck, huncat⟩
      obtain ⟨p, hp, huncat, -⟩ := huncat
      have hon : r.2.balanceTrigger = db.balanceTrigger := by rw [hr]
      rw [Automation.categorize, Automation.checkPostingBalance_withCostCenter, hbooks,
        hon] at hcat
      by_cases htrigger : db.balanceTrigger = true
      · rw [if_pos ⟨htrigger, p, hp, huncat⟩, hcheck htrigger] at hcat
        cases hcat
      · rw [if_neg (fun h => htrigger h.1)] at hcat
        cases hcat
    | ok db' =>
      simp only [Automation.perform, hupsert, hcat]
      have hdb' := Automation.categorize_spec hcat
      have hiff := @categorized_unchanged_iff db ledger _ db' _ _ rfl (by rw [hdb', ← hbooks])
      rw [hiff, not_iff_not]
      refine ⟨fun huncat => ⟨⟨r, rfl⟩, fun htrigger => ?_, huncat⟩, fun h => h.2.2⟩
      obtain ⟨p, hp, huncat, -⟩ := huncat
      have hon : r.2.balanceTrigger = true := by rw [hr]; exact htrigger
      rw [Automation.categorize, Automation.checkPostingBalance_withCostCenter,
        if_pos ⟨hon, p, by rw [hbooks]; exact hp, huncat⟩, bind_eq_ok, hbooks] at hcat
      obtain ⟨u, hcheck, -⟩ := hcat
      exact hcheck

theorem perform_unchanged (db : Db) (req : Request) (ledger ruleLedger : Uuid)
    {action : Automation.Action}
    (haction : ∀ name txn, action ≠ .categorizeTransaction (.ok name) (some txn)) :
    db.Unchanged (Automation.perform db req ruleLedger action).2 ledger := by
  rcases Automation.perform_cases db req ruleLedger action with
    ⟨centers, hdb, -⟩ | ⟨name, txn, center, centers, rfl, -⟩
  · have hbooks : (Automation.perform db req ruleLedger action).2.books = db.books := by rw [hdb]
    exact Db.unchanged_of_books hbooks ledger
  · exact absurd rfl (haction name txn)

/-- An automation leaves the rows of the ledger unless it categorizes a transaction there. -/
theorem automation_unchanged_iff (db : Db) (req : Request) (ledger : Uuid)
    (payload : Automation.Payload) :
    db.Unchanged (Automation.run db req payload).2 ledger ↔
      ¬ ∃ rule ruleLedger name txn, Categorizes db req payload ledger rule ruleLedger name txn := by
  -- Without the right payload of an enabled rule there is nothing to rewrite.
  have hidle : ∀ {db' : Db}, db.Unchanged db' ledger →
      (∀ rule ruleLedger name txn, Automation.readPayload payload =
        .ok (rule, ruleLedger, .categorizeTransaction (.ok name) (some txn)) →
        ¬ (db.automationRules.find? fun r => r.id = rule).map (·.isEnabled) = some true) →
      (db.Unchanged db' ledger ↔ ¬ ∃ rule ruleLedger name txn,
        Categorizes db req payload ledger rule ruleLedger name txn) := by
    intro db' hsame hnone
    refine ⟨fun _ => ?_, fun _ => hsame⟩
    rintro ⟨rule, ruleLedger, name, txn, h⟩
    exact hnone rule ruleLedger name txn h.read h.enabled
  rw [Automation.run]
  cases hread : Automation.readPayload payload with
  | error e =>
    refine hidle (.refl db ledger) ?_
    intro rule ruleLedger name txn hok
    rw [hread] at hok
    cases hok
  | ok fields =>
    obtain ⟨rule, ruleLedger, action⟩ := fields
    dsimp only
    split
    · next henabled =>
        by_cases haction : ∃ name txn, action = .categorizeTransaction (.ok name) (some txn)
        · obtain ⟨name, txn, rfl⟩ := haction
          rw [perform_unchanged_iff, not_iff_not]
          constructor
          · rintro ⟨hcenter, hbalances, huncat⟩
            exact ⟨rule, ruleLedger, name, txn, hread, henabled, hcenter, hbalances, huncat⟩
          · rintro ⟨rule', ruleLedger', name', txn', h⟩
            cases hread.symm.trans h.read
            exact ⟨h.center, h.balances, h.uncategorized⟩
        · refine hidle (perform_unchanged db req ledger ruleLedger ?_) ?_
          · intro name txn heq
            exact haction ⟨name, txn, heq⟩
          · intro rule' ruleLedger' name txn hok
            cases hread.symm.trans hok
            exact absurd ⟨name, txn, rfl⟩ haction
    · next hdisabled =>
        refine hidle (.refl db ledger) ?_
        intro rule' ruleLedger' name txn hok
        cases hread.symm.trans hok
        exact hdisabled

/-! ## All operations -/

/-- With the two triggers in force, an operation leaves every row of an append-only ledger
as it is, accepted or not, exactly when it is no `categorize_transaction` job that gets to
a posting of the ledger. -/
theorem unchanged_iff (db : Db) (ledger : Uuid) (op : LedgerAction) (hledger : db.AppendOnly ledger) :
    db.Unchanged (op.run db) ledger ↔ ¬ op.Recategorizes db ledger := by
  have hkept : ∀ {db' : Db}, db.Unchanged db' ledger → (db.Unchanged db' ledger ↔ ¬ False) :=
    fun h => ⟨fun _ hfalse => hfalse, fun _ => h⟩
  cases op with
  | create req new => exact hkept (createWithKind_unchanged db ledger req _ false)
  | createDraft req new => exact hkept (createWithKind_unchanged db ledger req _ true)
  | postDraft owner txn => exact hkept (postDraft_unchanged hledger owner txn)
  | deleteDraft owner txn => exact hkept (deleteDraft_unchanged hledger owner txn)
  | approveJournal owner txn checker =>
    exact hkept (approveJournal_unchanged hledger owner txn checker)
  | rejectJournal owner txn checker =>
    exact hkept (rejectJournal_unchanged hledger owner txn checker)
  | reverse req auth owner txn => exact hkept (reverse_unchanged db ledger req auth owner txn)
  | edit req auth owner txn form => exact hkept (edit_unchanged db ledger req auth owner txn form)
  | bulk req auth owner form => exact hkept (bulk_unchanged hledger req auth owner form)
  | automation req payload => exact automation_unchanged_iff db req ledger payload

/-- The sample ledger made append-only after a sale, with an enabled rule. -/
def archived : Db where
  users := Sample.db.users
  ledgers := [{ id := Sample.ledgerId, ownerId := Sample.owner, appendOnly := true }]
  books := (PostingService.create Sample.db (Sample.request 1) (Sample.sale 100)).2.books
  automationRules := [{ id := 40, ledgerId := Sample.ledgerId }]

/-- A job of the rule for the sale. -/
def labelSale : LedgerAction :=
  .automation (Sample.request 2)
    { ruleId := .ok 40, ledgerId := .ok Sample.ledgerId, eventType := .ok "transaction.created"
      action := .ok (.categorizeTransaction (.ok "Shop") (some ((Sample.request 1).txnId 0))) }

theorem archived_appendOnly : archived.AppendOnly Sample.ledgerId :=
  ⟨{ id := Sample.ledgerId, ownerId := Sample.owner, appendOnly := true },
    List.mem_singleton.mpr rfl, rfl, rfl⟩

/-- The job rewrites both postings of the sale. -/
theorem labelSale_rewrites :
    archived.AppendOnly Sample.ledgerId ∧
      ¬ archived.Unchanged (labelSale.run archived) Sample.ledgerId := by
  refine ⟨archived_appendOnly, ?_⟩
  intro h
  have hpostings : ∀ p ∈ archived.books.postings, archived.books.InLedger Sample.ledgerId p →
      p ∈ (labelSale.run archived).books.postings := h.postings
  revert hpostings
  decide +kernel

/-- Deleting the sale is refused. -/
theorem unchanged_iff_archived :
    archived.Unchanged ((LedgerAction.deleteDraft Sample.ledgerId ((Sample.request 1).txnId 0)).run
        archived) Sample.ledgerId ↔
      ¬ (LedgerAction.deleteDraft Sample.ledgerId ((Sample.request 1).txnId 0)).Recategorizes archived
        Sample.ledgerId :=
  unchanged_iff archived Sample.ledgerId _ archived_appendOnly

end LedgerAction

end OpenAccounting
