import OpenAccounting.System.JournalOps
import OpenAccounting.Handlers.Reimbursement
import OpenAccounting.Handlers.Transfers
import OpenAccounting.Handlers.Transactions

/-!
# The period lock over whole runs

Once a ledger is closed through a date, the reportable postings up to that date are
final: only a reopening or the audited override may change them, and only after
lowering the watermark.

`create`, `post_draft` and `reverse` test every date they write.  The other paths
leave a gap.  `approve_journal`, the bulk delete, the API, the recurring job, the
approval of a claim and the inter-ledger transfer test no date at all, and `edit`
does not test today, the date of the reversal it writes.  In a run in which these
paths write open dates only, closed figures stay as they are.
-/

namespace OpenAccounting

open Calendar Commit

/-- The operations that post, and those that move the watermark. -/
inductive LedgerOp where
  | create (req : Request) (new : NewTransaction)
  | postDraft (ledger txn : Uuid)
  | approveJournal (ledger txn checker : Uuid)
  | reverse (req : Request) (auth : Option Uuid) (ledger txn : Uuid)
  | edit (req : Request) (auth : Option Uuid) (ledger txn : Uuid)
      (form : TransactionsEdit.EditForm)
  | bulkDelete (req : Request) (auth : Option Uuid) (ledger : Uuid) (txnIds : List Uuid)
  | apiCreate (req : Request) (user ledger : Uuid)
      (body : Api.Transactions.CreateTransactionBody)
  | runOccurrence (req : Request) (o : TemplateRun.Occurrence)
  | approveClaim (req : Request) (auth : Option Uuid) (ledger claim : Uuid)
      (violation : Option String) (level : Option ℤ)
  | transfer (req : Request) (auth : Option Uuid) (form : Transfers.TransferForm)
  | closePeriod (auth : Option Uuid) (ledger : Uuid) (through : Option NaiveDate)
  | reopenPeriod (auth : Option Uuid) (ledger : Uuid) (form : Closing.ReopenForm)
  /-- `transactions::create`, which may override the lock. -/
  | submit (req retry : Request) (auth : Option Uuid) (s : Transactions.Submission)

namespace LedgerOp

/-- The database after the operation. -/
def run (db : Db) : LedgerOp → Db
  | .create req new => (PostingService.create db req new).2
  | .postDraft ledger txn => (PostingService.postDraft db ledger txn).2
  | .approveJournal ledger txn checker => (PostingService.approveJournal db ledger txn checker).2
  | .reverse req auth ledger txn => (TransactionsEdit.reverse db req auth ledger txn).2
  | .edit req auth ledger txn form => (TransactionsEdit.edit db req auth ledger txn form).2
  | .bulkDelete req auth ledger ids =>
    (TransactionsBulk.bulkAction db req auth ledger { txnIds := ids, action := .delete }).2
  | .apiCreate req user ledger body => (Api.Transactions.create db req user ledger body).2
  | .runOccurrence req o => (TemplateRun.runOccurrence db req o).2
  | .approveClaim req auth ledger claim violation level =>
    (Reimbursement.approve db req auth ledger claim violation level).2
  | .transfer req auth form => (Transfers.create db req auth form).2
  | .closePeriod auth ledger through => (Closing.closePeriod db auth ledger through).2
  | .reopenPeriod auth ledger form => (Closing.reopenPeriod db auth ledger form).2
  | .submit req retry auth s => (Transactions.create db req retry auth s).2

/-- The paths that do not test a date write an open one. -/
def RespectsClose (db : Db) : LedgerOp → Prop
  | .approveJournal ledger txn _ =>
    ∀ t ∈ db.books.findTxnIn txn ledger,
      t.kind.reportable = true ∨ ¬ db.Closed ledger t.txnDate
  | .edit req _ ledger _ _ => ¬ db.Closed ledger req.today
  | .bulkDelete _ _ ledger ids =>
    ∀ t ∈ db.books.transactions, t.id ∈ ids → t.ledgerId = ledger →
      ¬ db.Closed ledger t.txnDate
  | .apiCreate _ _ ledger body =>
    (∃ kind ∈ TxnKind.fromDb (body.kind.getD "standard"), kind.reportable = false) ∨
      ¬ db.Closed ledger body.date
  | .runOccurrence _ o => ¬ db.Closed o.ledgerId o.dueDate
  | .approveClaim _ _ ledger claim _ _ =>
    ∀ l ∈ Reimbursement.linesOf db claim, ¬ db.Closed ledger l.txnDate
  | .transfer _ _ form =>
    ¬ db.Closed form.fromLedgerId form.date ∧ ¬ db.Closed form.toLedgerId form.date
  | _ => True

end LedgerOp

/-! ## Open dates do not enter closed figures -/

/-- The figures of every closed date are those of `db`. -/
def KeepsClosed (db db' : Db) : Prop :=
  ∀ ledger d, db.Closed ledger d → db'.books.frozen ledger d = db.books.frozen ledger d

variable {d : NaiveDate} {ledger : Uuid}

theorem closed_of_le {db : Db} {e : NaiveDate} (h : db.Closed ledger e) (hle : d ≤ e) :
    db.Closed ledger d := by
  unfold Db.Closed at h ⊢
  cases hw : db.closedThrough ledger with
  | none => rw [hw] at h; cases h
  | some w =>
    rw [hw, CloseControls.isClosed_some] at h
    exact (CloseControls.isClosed_some w d).mpr (hle.trans h)

theorem not_frozen_of_open {db : Db} {h : Header} (hopen : ¬ db.Closed h.ledgerId h.txnDate)
    (hd : db.Closed ledger d) :
    ¬ h.Frozen ledger d := by
  rintro ⟨rfl, -, hle⟩
  exact hopen (closed_of_le hd hle)

theorem not_frozen_of_kind {h : Header} (hkind : h.kind.reportable = false) :
    ¬ h.Frozen ledger d := by
  rintro ⟨-, hreportable, -⟩
  rw [hkind] at hreportable
  cases hreportable

theorem Books.Posts.keepsClosed {db db' : Db} {t : Transaction} {ps : List Posting}
    (h : Books.Posts db.books db'.books t ps) (hopen : ¬ db.Closed t.ledgerId t.txnDate) :
    KeepsClosed db db' := by
  intro ledger d hd
  exact h.frozen (not_frozen_of_open hopen hd)

theorem keepsClosed_refl (db : Db) : KeepsClosed db db := fun _ _ _ => rfl

/-! ## The posting service -/

theorem create_keepsClosed (db : Db) (req : Request) (new : NewTransaction) :
    KeepsClosed db (PostingService.create db req new).2 := by
  rcases PostingService.createWithKind_cases db req new false with h | ⟨_, t, ps, h⟩
  · rw [PostingService.create, h]
    exact keepsClosed_refl db
  · refine h.posts.keepsClosed ?_
    rw [h.ledgerId, h.txnDate]
    rcases h.period_open with hdraft | hopen
    · cases hdraft
    · exact hopen

theorem create_closedPeriods (db : Db) (req : Request) (new : NewTransaction) :
    (PostingService.create db req new).2.closedPeriods = db.closedPeriods := by
  rcases PostingService.createWithKind_cases db req new false with h | ⟨_, t, ps, h⟩
  · rw [PostingService.create, h]
  · exact h.closedPeriods

theorem createDraft_keepsClosed (db : Db) (req : Request) (new : NewTransaction) :
    KeepsClosed db (PostingService.createDraft db req new).2 := by
  rcases PostingService.createWithKind_cases db req { new with kind := some "draft" } true
    with h | ⟨_, t, ps, h⟩
  · rw [PostingService.createDraft, h]
    exact keepsClosed_refl db
  · obtain ⟨ledger, -, hkind⟩ := h.kind
    have hdraft : t.kind = .draft := by
      simp only [PostingService.makerChecker, Option.getD_some, Bool.true_eq_false, false_and,
        if_false] at hkind
      exact (Option.some.inj ((show TxnKind.fromDb "draft" = some .draft by decide).symm.trans
        hkind)).symm
    intro l d _
    exact h.posts.frozen (not_frozen_of_kind (by rw [Transaction.header, hdraft]; rfl))

theorem setKind_keepsClosed {db : Db} {b' : Books} {txn : Uuid} {t : Transaction} {kind : TxnKind}
    (hfound : db.books.findTxnIn txn ledger = some t)
    (hsafe : (t.kind.reportable = true ∧ kind.reportable = true) ∨ ¬ db.Closed ledger t.txnDate)
    (hwrote : Books.Wrote db.books b' (.setKind txn kind)) {l : Uuid} (hd : db.Closed l d) :
    b'.frozen l d = db.books.frozen l d := by
  obtain ⟨ht, hid, hledger⟩ := Books.findTxnIn_spec hfound
  have hheader := Books.header_of_mem ht
  rw [hid] at hheader
  refine hwrote.frozen ?_
  intro h hh
  rw [hheader] at hh
  cases hh
  rcases hsafe with ⟨hold, hnew⟩ | hopen
  · constructor
    · rintro ⟨hl, -, hle⟩
      exact ⟨hl, hnew, hle⟩
    · rintro ⟨hl, -, hle⟩
      exact ⟨hl, hold, hle⟩
  · have hopen' : ¬ db.Closed t.ledgerId t.txnDate := by rw [hledger]; exact hopen
    constructor
    · intro hf
      exact absurd hf (not_frozen_of_open (h := t.header) hopen' hd)
    · intro hf
      exact absurd hf (not_frozen_of_open (h := { t.header with kind := kind }) hopen' hd)

/-! ## One step -/

namespace LedgerOp

/-- The override of `transactions::create` may change closed figures, and then the
date is not closed any more. -/
theorem submit_keepsClosed (db : Db) (req retry : Request) (auth : Option Uuid)
    (s : Transactions.Submission) {ledger : Uuid} {d : NaiveDate} (hd : db.Closed ledger d)
    (hafter : (Transactions.create db req retry auth s).2.Closed ledger d) :
    (Transactions.create db req retry auth s).2.books.frozen ledger d =
      db.books.frozen ledger d := by
  rcases Transactions.create_cases db req retry auth s with h | h | h | ⟨user, w, reason, h⟩
  · rw [h]
  · rw [h]
    exact createDraft_keepsClosed db req s.new ledger d hd
  · rw [h]
    exact create_keepsClosed db req s.new ledger d hd
  · rw [h] at hafter ⊢
    rw [Db.closed_congr (create_closedPeriods _ retry s.new)] at hafter
    rw [create_keepsClosed _ retry s.new ledger d hafter]
    exact create_keepsClosed db req s.new ledger d hd

/-- A bulk deletion keeps the figures of the closed dates. -/
theorem bulkDelete_keepsClosed {db : Db} {req : Request} {auth : Option Uuid} {ledger : Uuid}
    {ids : List Uuid} (hrespects : RespectsClose db (.bulkDelete req auth ledger ids)) :
    KeepsClosed db (run db (.bulkDelete req auth ledger ids)) := by
  intro l d hd
  rcases TransactionsBulk.bulkDelete_cases db req auth ledger
    { txnIds := ids, action := .delete } rfl with h | ⟨user, db', hall, h⟩
  · rw [run, h]
  · -- A reversal has the date of its original, so what it writes is open too and
    -- may itself be selected.
    obtain ⟨b', rfl, hfrozen, -⟩ := TransactionsBulk.reverseAll_invariant
      (P := fun b => b.frozen l d = db.books.frozen l d ∧
        ∀ t ∈ b.transactions, t.id ∈ ids → t.ledgerId = ledger → ¬ db.Closed ledger t.txnDate)
      (by
        intro b b' m original t ps hb hid hfound ht hposts _
        obtain ⟨hmem, -, hledger⟩ := Books.findTxnIn_spec hfound
        have hopen := hb.2 original hmem hid hledger
        have hnot : ¬ t.header.Frozen l d := by
          rw [ht]
          exact not_frozen_of_open hopen hd
        refine ⟨(hposts.frozen hnot).trans hb.1, ?_⟩
        intro s hs hsid hsledger
        rcases hposts.mem_transactions.mp hs with hs | rfl
        · exact hb.2 s hs hsid hsledger
        · have hdate : s.txnDate = original.txnDate := congrArg Header.txnDate ht
          rw [hdate]
          exact hopen)
      ⟨rfl, hrespects⟩ hall
    rw [run, h]
    exact hfrozen

/-- A step that respects the close keeps the figures of every date that is closed
before and after it; only `transactions::create` lowers a watermark and posts. -/
theorem run_frozen {db : Db} {op : LedgerOp} (hrespects : RespectsClose db op) {ledger : Uuid}
    {d : NaiveDate} (hd : db.Closed ledger d) :
    (run db op).books.frozen ledger d = db.books.frozen ledger d ∨
      (∃ req retry auth s, op = .submit req retry auth s) ∧ ¬ (run db op).Closed ledger d := by
  cases op with
  | create req new => exact Or.inl (create_keepsClosed db req new ledger d hd)
  | postDraft l txn =>
    left
    rcases PostingService.postDraft_cases db l txn with
      h | ⟨draft, b', hfound, -, hopen, h, hwrote⟩
    · rw [run, h]
    · rw [run, h]
      exact setKind_keepsClosed hfound (Or.inr hopen) hwrote hd
  | approveJournal l txn checker =>
    left
    rcases PostingService.approveJournal_cases db l txn checker with
      h | ⟨db', -, h, rfl | ⟨t, hfound, b', rfl, hwrote⟩⟩
    · rw [run, h]
    · rw [run, h]
      rfl
    · rw [run, h]
      have hsafe := hrespects t hfound
      exact setKind_keepsClosed hfound (hsafe.imp_left fun hr => ⟨hr, rfl⟩) hwrote hd
  | reverse req auth l txn =>
    left
    rcases TransactionsEdit.reverse_cases db req auth l txn with
      h | ⟨_, t, ps, b', -, -, htoday, ht, h, hposts, -⟩
    · rw [run, h]
    · rw [run, h]
      refine hposts.frozen ?_
      rw [ht]
      exact not_frozen_of_open htoday hd
  | edit req auth l txn form =>
    left
    rcases TransactionsEdit.edit_cases db req auth l txn form with
      h | ⟨date, inputs, original, t, u, ps, qs, h⟩
    · rw [run, h]
    · obtain ⟨b₁, b₂, hreversal, hcorrected, hdb, -⟩ := h.writes
      have ht : ¬ t.header.Frozen ledger d := by
        rw [h.reversal]
        exact not_frozen_of_open hrespects hd
      have hu : ¬ u.header.Frozen ledger d := by
        rw [h.corrected]
        exact not_frozen_of_open h.date_open hd
      rw [run, hdb]
      exact (hcorrected.frozen hu).trans (hreversal.frozen ht)
  | bulkDelete req auth l ids => exact Or.inl (bulkDelete_keepsClosed hrespects ledger d hd)
  | apiCreate req user l body =>
    left
    rcases Api.Transactions.create_cases db req user l body with h | ⟨kind, _, t, ps, h⟩
    · rw [run, h]
    · obtain ⟨b', hdb, hposts⟩ := h.writes
      rw [run, hdb]
      refine hposts.frozen ?_
      rw [h.header]
      rcases hrespects with ⟨k, hk, hkind⟩ | hopen
      · rw [h.kind_read] at hk
        cases hk
        exact not_frozen_of_kind hkind
      · exact not_frozen_of_open hopen hd
  | runOccurrence req o =>
    left
    rcases TemplateRun.runOccurrence_cases db req o with h | ⟨t, ps, h⟩
    · rw [run, h]
    · obtain ⟨b', templates, hdb, hposts, -⟩ := h.writes
      rw [run, hdb]
      refine hposts.frozen ?_
      rw [h.header]
      exact not_frozen_of_open hrespects hd
  | approveClaim req auth l claim violation level =>
    left
    obtain ⟨-, h | ⟨date, t, ps, hdate, ht, hposts⟩⟩ :=
      Reimbursement.approve_cases db req auth l claim violation level
    · rw [run, h]
    · obtain ⟨line, hline, rfl⟩ := List.mem_map.mp (List.min?_mem hdate)
      refine hposts.frozen ?_
      rw [ht]
      exact not_frozen_of_open (hrespects line hline) hd
  | transfer req auth form =>
    left
    obtain ⟨-, h | ⟨t, u, ps, qs, b₁, ht, hu, hposts, hposts'⟩⟩ :=
      Transfers.create_cases db req auth form
    · rw [run, h]
    · have ht' : ¬ t.header.Frozen ledger d := by
        rw [ht]
        exact not_frozen_of_open hrespects.1 hd
      have hu' : ¬ u.header.Frozen ledger d := by
        rw [hu]
        exact not_frozen_of_open hrespects.2 hd
      exact (hposts'.frozen hu').trans (hposts.frozen ht')
  | closePeriod auth l through =>
    left
    rw [run, Closing.closePeriod_books]
  | reopenPeriod auth l form =>
    left
    rw [run, Closing.reopenPeriod_books]
  | submit req retry auth s =>
    by_cases hafter : (Transactions.create db req retry auth s).2.Closed ledger d
    · exact Or.inl (submit_keepsClosed db req retry auth s hd hafter)
    · exact Or.inr ⟨⟨req, retry, auth, s, rfl⟩, hafter⟩

/-- In a run that respects the close, every step keeps the figures up to the
watermark it finds, except an override that has lowered the watermark. -/
theorem frozen_of_respectsClose {db : Db} {ops : List LedgerOp}
    (hmeets : Runs.Meets run RespectsClose db ops) {front back : List LedgerOp} {op : LedgerOp}
    (hops : ops = front ++ op :: back) {ledger : Uuid} {w : NaiveDate}
    (hw : (Runs.exec run db front).closedThrough ledger = some w) :
    (run (Runs.exec run db front) op).books.frozen ledger w =
        (Runs.exec run db front).books.frozen ledger w ∨
      (∃ req retry auth s, op = .submit req retry auth s) ∧
        ¬ (run (Runs.exec run db front) op).Closed ledger w := by
  rw [hops] at hmeets
  exact run_frozen (hmeets.of_split front) ((Db.closed_iff hw).mpr le_rfl)

/-- A sale that waits for approval, a close through the end of the month, and the
approval. -/
def approveAfterClose : List LedgerOp :=
  [.create (Sample.request 1) (Sample.sale 20000),
    .closePeriod (some Sample.owner) Sample.ledgerId (some (Sample.march 31))]

/-- The approval brings the sale into the closed period. -/
theorem approveAfterClose_frozen_ne :
    (Runs.exec run Sample.db approveAfterClose).closedThrough Sample.ledgerId =
        some (Sample.march 31) ∧
      (run (Runs.exec run Sample.db approveAfterClose)
          (.approveJournal Sample.ledgerId ((Sample.request 1).txnId 0) Sample.accountant)).books.frozen
            Sample.ledgerId (Sample.march 31) ≠
        (Runs.exec run Sample.db approveAfterClose).books.frozen Sample.ledgerId
          (Sample.march 31) := by
  decide +kernel

/-- A sale over the API after a close through 12 March. -/
def apiCreateAfterClose : LedgerOp :=
  .apiCreate (Sample.request 2) Sample.owner Sample.ledgerId
    { date := Sample.march 14, description := "Sale",
      lines := [{ accountId := Sample.cash, amount := 50, direction := "DEBIT" },
        { accountId := Sample.sales, amount := 50, direction := "CREDIT" }] }

/-- A sale on 10 March, closed on the 12th. -/
def saleThenClose : List LedgerOp :=
  [.create (Sample.request 1) (Sample.sale 100),
    .closePeriod (some Sample.owner) Sample.ledgerId (some (Sample.march 12))]

theorem frozen_of_respectsClose_apiCreate :
    (run (Runs.exec run Sample.db saleThenClose) apiCreateAfterClose).books.frozen
        Sample.ledgerId (Sample.march 12) =
        (Runs.exec run Sample.db saleThenClose).books.frozen Sample.ledgerId (Sample.march 12) ∨
      (∃ req retry auth s, apiCreateAfterClose = .submit req retry auth s) ∧
        ¬ (run (Runs.exec run Sample.db saleThenClose) apiCreateAfterClose).Closed
          Sample.ledgerId (Sample.march 12) := by
  have hmeets : Runs.Meets run RespectsClose Sample.db (saleThenClose ++ [apiCreateAfterClose]) :=
    ⟨trivial, trivial, Or.inr (by decide +kernel), trivial⟩
  exact frozen_of_respectsClose hmeets rfl (by decide +kernel)

end LedgerOp

end OpenAccounting
