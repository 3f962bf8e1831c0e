import OpenAccounting.System.JournalOps

/-!
# Maker and checker over whole runs

A journal at or above the approval threshold of its ledger counts only after someone
other than its maker has approved it.  The posting service tests the threshold in
`create` and nowhere else: `post_draft` promotes a draft of any size (a rejected
journal is a draft again), `edit` writes its corrected entry as `standard`, and the
API takes the kind from the request.  `create` itself compares the total before the
amounts are rounded for storage.

In a run in which these paths stay below the threshold, every journal at or above
it has been approved by a second person.
-/

namespace OpenAccounting

open Calendar Commit

/-- The kinds the gate of `create` looks at. -/
def TxnKind.Gated (k : TxnKind) : Prop := k = .standard ∨ k = .adjusting

instance (k : TxnKind) : Decidable k.Gated := by
  unfold TxnKind.Gated
  infer_instance

/-- Someone other than the maker approved the journal. -/
def HasApproval (approvals : List JournalApproval) (txn : Uuid) : Prop :=
  ∃ a ∈ approvals, a.txnId = txn ∧ a.status = .approved ∧
    (a.checker.any fun c => c ≠ a.maker) = true

instance (approvals : List JournalApproval) (txn : Uuid) :
    Decidable (HasApproval approvals txn) := by
  unfold HasApproval
  infer_instance

/-- Every journal of the ledger at or above the threshold is approved. -/
def AllApproved (ledger : Uuid) (threshold : ℚ) (db : Db) : Prop :=
  ∀ t ∈ db.books.transactions, t.ledgerId = ledger → t.kind.Gated →
    threshold ≤ Posting.sumOn .debit (db.books.postingsOf t.id) → HasApproval db.approvals t.id

instance (ledger : Uuid) (threshold : ℚ) (db : Db) : Decidable (AllApproved ledger threshold db) := by
  unfold AllApproved
  infer_instance

/-! ## Which entries need an approval -/

/-- The entry is of a gated kind and at or above the threshold. -/
def Books.NeedsApproval (b : Books) (ledger : Uuid) (threshold : ℚ) (txn : Uuid) : Prop :=
  ∃ h, b.header txn = some h ∧ h.ledgerId = ledger ∧ h.kind.Gated ∧
    threshold ≤ Posting.sumOn .debit (b.postingsOf txn)

variable {db : Db} {ledger : Uuid} {threshold : ℚ} {ps : List Posting}

theorem allApproved_iff :
    AllApproved ledger threshold db ↔
      ∀ txn, db.books.NeedsApproval ledger threshold txn → HasApproval db.approvals txn := by
  constructor
  · rintro hall txn ⟨h, hh, hledger, hkind, hdebits⟩
    obtain ⟨t, ht, rfl, rfl⟩ := Books.header_eq_some.mp hh
    exact hall t ht hledger hkind hdebits
  · intro hall t ht hledger hkind hdebits
    exact hall t.id ⟨t.header, Books.header_of_mem ht, hledger, hkind, hdebits⟩

section Writes

variable {b b' : Books} {ledger : Uuid} {threshold : ℚ} {txn : Uuid}

theorem Books.Posts.needsApproval {t : Transaction} {ps : List Posting}
    (h : Books.Posts b b' t ps) (hneeds : b'.NeedsApproval ledger threshold txn) :
    b.NeedsApproval ledger threshold txn ∨
      t.ledgerId = ledger ∧ t.kind.Gated ∧ threshold ≤ Posting.sumOn .debit ps := by
  obtain ⟨hd, hh, hledger, hkind, hdebits⟩ := hneeds
  rw [h.header] at hh
  split at hh
  · next heq =>
      cases hh
      rw [heq, h.postingsOf_self] at hdebits
      exact Or.inr ⟨hledger, hkind, hdebits⟩
  · next hne =>
      rw [h.postingsOf_of_ne hne] at hdebits
      exact Or.inl ⟨hd, hh, hledger, hkind, hdebits⟩

/-- After a change of kind the others need what they needed, and the changed one
needs an approval only if its new kind is gated. -/
theorem Books.Wrote.needsApproval_setKind {changed : Uuid} {kind : TxnKind}
    (h : Books.Wrote b b' (.setKind changed kind))
    (hneeds : b'.NeedsApproval ledger threshold txn) :
    (txn ≠ changed ∧ b.NeedsApproval ledger threshold txn) ∨
      (txn = changed ∧ kind.Gated ∧ (∃ h, b.header txn = some h ∧ h.ledgerId = ledger) ∧
        threshold ≤ Posting.sumOn .debit (b.postingsOf txn)) := by
  cases h with
  | setKind header postings =>
    obtain ⟨hd, hh, hledger, hkind, hdebits⟩ := hneeds
    rw [header] at hh
    rw [Books.postingsOf, postings] at hdebits
    split at hh
    · next heq =>
        obtain ⟨h₀, hh₀, rfl⟩ := Option.map_eq_some_iff.mp hh
        exact Or.inr ⟨heq, hkind, ⟨h₀, hh₀, hledger⟩, hdebits⟩
    · next hne => exact Or.inl ⟨hne, hd, hh, hledger, hkind, hdebits⟩

theorem Books.Wrote.needsApproval_remove {removed : Uuid}
    (h : Books.Wrote b b' (.remove removed)) (hneeds : b'.NeedsApproval ledger threshold txn) :
    txn ≠ removed ∧ b.NeedsApproval ledger threshold txn := by
  cases h with
  | remove header postings =>
    obtain ⟨hd, hh, hledger, hkind, hdebits⟩ := hneeds
    rw [header] at hh
    split at hh
    · cases hh
    · next hne =>
        rw [Books.postingsOf_of_removed postings hne] at hdebits
        exact ⟨hne, hd, hh, hledger, hkind, hdebits⟩

end Writes

/-! ## Approvals -/

theorem HasApproval.append {approvals rows : List JournalApproval} {txn : Uuid}
    (h : HasApproval approvals txn) : HasApproval (approvals ++ rows) txn := by
  obtain ⟨a, ha, hrest⟩ := h
  exact ⟨a, List.mem_append_left rows ha, hrest⟩

/-- A decision on one journal leaves the approvals of the others alone. -/
theorem HasApproval.decide_other {txn changed checker : Uuid} {status : ApprovalStatus}
    (h : HasApproval db.approvals txn) (hne : txn ≠ changed) :
    HasApproval (PostingService.decideApproval db changed checker status).approvals txn := by
  obtain ⟨a, ha, hid, hrest⟩ := h
  refine ⟨a, List.mem_map.mpr ⟨a, ha, ?_⟩, hid, hrest⟩
  rw [if_neg (hid ▸ hne)]

theorem hasApproval_decide {txn checker : Uuid}
    (h : PostingService.AwaitsDecision db ledger txn checker) :
    HasApproval (PostingService.decideApproval db txn checker .approved).approvals txn := by
  obtain ⟨a, ha, hid, -, -, hmaker⟩ := h
  refine ⟨{ a with status := .approved, checker := some checker },
    List.mem_map.mpr ⟨a, ha, ?_⟩, hid, rfl, ?_⟩
  · rw [if_pos hid]
  · simpa using hmaker.symm

theorem AllApproved.posts {db' : Db} {t : Transaction} (hall : AllApproved ledger threshold db)
    (hposts : Books.Posts db.books db'.books t ps)
    (happrovals : ∃ rows, db'.approvals = db.approvals ++ rows)
    (hnew : t.ledgerId = ledger → t.kind.Gated → Posting.sumOn .debit ps < threshold) :
    AllApproved ledger threshold db' := by
  rw [allApproved_iff] at hall ⊢
  obtain ⟨rows, hrows⟩ := happrovals
  intro txn hneeds
  rw [hrows]
  rcases hposts.needsApproval hneeds with hold | ⟨hledger, hkind, hdebits⟩
  · exact (hall txn hold).append
  · exact absurd hdebits (not_le.mpr (hnew hledger hkind))

theorem AllApproved.posts_ungated {db' : Db} {t : Transaction} {kind : TxnKind}
    (hall : AllApproved ledger threshold db) (hposts : Books.Posts db.books db'.books t ps)
    (happrovals : ∃ rows, db'.approvals = db.approvals ++ rows) (hread : t.kind = kind)
    (hkind : ¬ kind.Gated) : AllApproved ledger threshold db' :=
  hall.posts hposts happrovals fun _ hgated => absurd (hread ▸ hgated) hkind

theorem TxnKind.reversing_ungated : ¬ TxnKind.reversing.Gated := by
  rintro (h | h) <;> cases h

theorem TxnKind.recurring_ungated : ¬ TxnKind.recurring.Gated := by
  rintro (h | h) <;> cases h

/-! ## The gate of `create` -/

theorem TxnKind.fromDb_gated {s : String} {k : TxnKind} (h : TxnKind.fromDb s = some k)
    (hk : k.Gated) : s = "standard" ∨ s = "adjusting" := by
  unfold TxnKind.fromDb at h
  rcases hk with rfl | rfl
  · left
    grind
  · right
    grind

theorem PostingService.Created.below {db' : Db} {req : Request} {new : NewTransaction}
    {effective : List ℚ} {t : Transaction} {l : Ledger}
    (h : PostingService.Created db db' req new false effective t ps)
    (hl : db.findLedger ledger = some l) (ht : 0 ≤ l.approvalThreshold)
    (hledger : t.ledgerId = ledger) (hkind : t.kind.Gated) :
    PostingService.debitTotal effective < l.approvalThreshold := by
  obtain ⟨l', hl', hread⟩ := h.kind
  have hsame : l' = l := by
    rw [← h.ledgerId, hledger, hl] at hl'
    exact (Option.some.inj hl').symm
  subst hsame
  by_contra hge
  have hge := not_lt.mp hge
  have htext := TxnKind.fromDb_gated hread hkind
  simp only [makerChecker, true_and, ht, hge, and_true] at htext
  split at htext
  · simp at htext
  · next hno => exact hno htext

namespace JournalOp

/-- The paths that do not test the threshold stay below it, and rounding for
storage does not lift what `create` tested across it. -/
def BelowThreshold (ledger : Uuid) (threshold : ℚ) (db : Db) : JournalOp → Prop
  | .create req new => new.ledgerId = ledger →
      ∀ effective ∈ (PostingService.resolveAmounts db req new).toOption,
        threshold ≤ PostingService.storedDebitTotal effective →
          threshold ≤ PostingService.debitTotal effective
  | .postDraft l txn => l = ledger →
      Posting.sumOn .debit (db.books.postingsOf txn) < threshold
  | .edit _ _ l _ form => l = ledger →
      ∀ inputs ∈ (TransactionsEdit.parseLines form.lines).toOption,
        PostingService.storedDebitTotal (inputs.map TxnLineInput.signedAmount) < threshold
  | .apiCreate _ _ l body => l = ledger →
      ¬ (∃ k ∈ TxnKind.fromDb (body.kind.getD "standard"), k.Gated) ∨
        ((body.lines.filter fun line => line.direction = "DEBIT").map fun line =>
          Rounding.roundDp 4 line.amount).sum < threshold
  | _ => True

theorem correctedLines_debits (req : Request) :
    ∀ (k : ℕ) (ls : List TxnLineInput),
      PostingRow.sumOn .debit (TransactionsEdit.correctedLines req k ls) =
        PostingService.storedDebitTotal (ls.map TxnLineInput.signedAmount)
  | _, [] => rfl
  | k, l :: ls => by
    have ih := correctedLines_debits req (k + 1) ls
    simp only [PostingService.storedDebitTotal] at ih
    simp only [TransactionsEdit.correctedLines, PostingRow.sumOn_cons, ih,
      PostingService.storedDebitTotal, List.map_cons, List.sum_cons,
      TransactionsEdit.correctedLine, Direction.ofSigned]
    by_cases hpos : 0 ≤ l.signedAmount
    · simp [hpos, abs_of_nonneg hpos]
    · simp [hpos]

theorem lineRows_debits {req : Request} {k : ℕ} {ls : List Api.Transactions.PostingBody}
    {rows : List PostingRow} (h : Api.Transactions.LineRows req k ls rows) :
    PostingRow.sumOn .debit rows =
      ((ls.filter fun line => line.direction = "DEBIT").map fun line =>
        Rounding.roundDp 4 line.amount).sum := by
  induction h with
  | nil => rfl
  | @cons k l ls d rows hd _ ih =>
    rw [PostingRow.sumOn_cons, ih, List.filter_cons]
    have htext : l.direction = "DEBIT" ↔ d = .debit := by
      unfold Direction.fromDb at hd
      split at hd
      · next hs => cases hd; simp [hs]
      · next hs =>
          split at hd
          · cases hd; simp [hs]
          · cases hd
    by_cases hdebit : d = .debit
    · simp [htext, hdebit, Api.Transactions.lineRow]
    · simp [htext, hdebit, Api.Transactions.lineRow]

/-- The invariant, for one operation.  Each path asks for the approval or stays below the threshold.
-/
theorem run_allApproved {db : Db} {op : JournalOp} {ledger : Uuid} {l : Ledger}
    (hl : db.findLedger ledger = some l) (ht : 0 ≤ l.approvalThreshold)
    (hall : AllApproved ledger l.approvalThreshold db)
    (hbelow : op.BelowThreshold ledger l.approvalThreshold db) :
    (op.run db).ledgers = db.ledgers ∧ AllApproved ledger l.approvalThreshold (op.run db) := by
  have hsame : ∃ rows, db.approvals = db.approvals ++ rows := ⟨[], by simp⟩
  cases op with
  | create req new =>
    rcases PostingService.createWithKind_cases db req new false with h | ⟨effective, t, ps, h⟩
    · rw [run, PostingService.create, h]
      exact ⟨rfl, hall⟩
    · refine ⟨h.ledgers, hall.posts h.posts h.approvals ?_⟩
      intro hledger hkind
      have htested := h.below hl ht hledger hkind
      have hresolved := (PostingService.validate_spec h.valid).2.1
      rw [h.debits]
      by_contra hge
      have hlifted := hbelow (h.ledgerId.symm.trans hledger) effective
        (by rw [hresolved]; rfl) (not_lt.mp hge)
      exact absurd htested (not_lt.mpr hlifted)
  | createDraft req new =>
    rcases PostingService.createWithKind_cases db req { new with kind := some "draft" } true
      with h | ⟨effective, t, ps, h⟩
    · rw [run, PostingService.createDraft, h]
      exact ⟨rfl, hall⟩
    · refine ⟨h.ledgers, hall.posts h.posts h.approvals ?_⟩
      intro _ hkind
      obtain ⟨l', -, hread⟩ := h.kind
      have htext := TxnKind.fromDb_gated hread hkind
      simp [PostingService.makerChecker] at htext
  | postDraft ledger' txn =>
    rcases PostingService.postDraft_cases db ledger' txn with
      h | ⟨draft, b', hfound, -, -, h, hwrote⟩
    · rw [run, h]
      exact ⟨rfl, hall⟩
    · rw [run, h]
      refine ⟨rfl, ?_⟩
      rw [allApproved_iff] at hall ⊢
      intro s hneeds
      rcases hwrote.needsApproval_setKind hneeds with ⟨-, hold⟩ | ⟨rfl, -, hdraft, hdebits⟩
      · exact hall s hold
      · obtain ⟨hd, hh, hledger⟩ := hdraft
        obtain ⟨hmem, hid, hin⟩ := Books.findTxnIn_spec hfound
        have hheader := Books.header_of_mem hmem
        rw [hid, hh] at hheader
        cases hheader
        exact absurd hdebits (not_le.mpr (hbelow (hin.symm.trans hledger)))
  | deleteDraft ledger' txn =>
    rcases PostingService.deleteDraft_cases db ledger' txn with h | ⟨_, db', -, -, hdelete, h⟩
    · rw [run, h]
      exact ⟨rfl, hall⟩
    · rw [run, h]
      obtain ⟨hledgers, -, -, happrovals, hwrote⟩ := Db.deleteTransaction_spec hdelete
      refine ⟨hledgers, ?_⟩
      rw [allApproved_iff] at hall ⊢
      intro s hneeds
      obtain ⟨hne, hold⟩ := hwrote.needsApproval_remove hneeds
      obtain ⟨a, ha, hid, hrest⟩ := hall s hold
      rw [happrovals]
      exact ⟨a, List.mem_filter.mpr ⟨ha, by simpa [hid] using hne⟩, hid, hrest⟩
  | approveJournal ledger' txn checker =>
    rcases PostingService.approveJournal_cases db ledger' txn checker with
      h | ⟨db', hawaits, h, rfl | ⟨_, -, b', rfl, hwrote⟩⟩
    · rw [run, h]
      exact ⟨rfl, hall⟩
    · rw [run, h]
      refine ⟨rfl, ?_⟩
      rw [allApproved_iff] at hall ⊢
      intro s hneeds
      by_cases hs : s = txn
      · rw [hs]
        exact hasApproval_decide hawaits
      · exact (hall s hneeds).decide_other hs
    · rw [run, h]
      refine ⟨rfl, ?_⟩
      rw [allApproved_iff] at hall ⊢
      intro s hneeds
      rcases hwrote.needsApproval_setKind hneeds with ⟨hne, hold⟩ | ⟨rfl, -, -, -⟩
      · exact HasApproval.decide_other (hall s hold) hne
      · exact hasApproval_decide hawaits
  | rejectJournal ledger' txn checker =>
    rcases PostingService.rejectJournal_cases db ledger' txn checker with h | ⟨b', -, h, hwrote⟩
    · rw [run, h]
      exact ⟨rfl, hall⟩
    · rw [run, h]
      refine ⟨rfl, ?_⟩
      rw [allApproved_iff] at hall ⊢
      intro s hneeds
      rcases hwrote.needsApproval_setKind hneeds with ⟨hne, hold⟩ | ⟨rfl, hkind, -, -⟩
      · exact HasApproval.decide_other (hall s hold) hne
      · rcases hkind with hkind | hkind <;> cases hkind
  | reverse req auth ledger' txn =>
    rcases TransactionsEdit.reverse_cases db req auth ledger' txn with
      h | ⟨_, t, ps, b', -, -, -, hheader, h, hposts, -⟩
    · rw [run, h]
      exact ⟨rfl, hall⟩
    · rw [run, h]
      exact ⟨rfl, hall.posts_ungated hposts hsame (congrArg Header.kind hheader)
        TxnKind.reversing_ungated⟩
  | edit req auth ledger' txn form =>
    rcases TransactionsEdit.edit_cases db req auth ledger' txn form with
      h | ⟨date, inputs, original, t, u, ps, qs, h⟩
    · rw [run, h]
      exact ⟨rfl, hall⟩
    · obtain ⟨b₁, b₂, hreversal, hcorrected, hdb, -⟩ := h.writes
      have hmid : AllApproved ledger l.approvalThreshold { db with books := b₁ } :=
        hall.posts_ungated hreversal hsame (congrArg Header.kind h.reversal)
          TxnKind.reversing_ungated
      rw [run, hdb]
      refine ⟨rfl, hmid.posts hcorrected hsame ?_⟩
      intro hledger _
      have hin : u.ledgerId = ledger' := congrArg Header.ledgerId h.corrected
      rw [PostingRow.Stored.sumOn_eq h.stored, correctedLines_debits]
      exact hbelow (hin.symm.trans hledger) inputs (by rw [h.lines]; rfl)
  | bulkDelete req auth ledger' ids =>
    rcases TransactionsBulk.bulkDelete_cases db req auth ledger'
      { txnIds := ids, action := .delete } rfl with h | ⟨user, db', hreverse, h⟩
    · rw [run, h]
      exact ⟨rfl, hall⟩
    · obtain ⟨b', rfl, hb'⟩ := TransactionsBulk.reverseAll_invariant
        (P := fun b => AllApproved ledger l.approvalThreshold { db with books := b })
        (by
          intro b b' m original t ps hb _ _ hheader hposts _
          exact AllApproved.posts_ungated hb hposts hsame (congrArg Header.kind hheader)
            TxnKind.reversing_ungated)
        hall hreverse
      rw [run, h]
      exact ⟨rfl, hb'⟩
  | apiCreate req user ledger' body =>
    rcases Api.Transactions.create_cases db req user ledger' body with h | ⟨kind, rows, t, ps, h⟩
    · rw [run, h]
      exact ⟨rfl, hall⟩
    · obtain ⟨b', hdb, hposts⟩ := h.writes
      rw [run, hdb]
      refine ⟨rfl, hall.posts hposts hsame ?_⟩
      intro hledger hkind
      have hin : t.ledgerId = ledger' := congrArg Header.ledgerId h.header
      have hread : t.kind = kind := congrArg Header.kind h.header
      rw [hread] at hkind
      rcases hbelow (hin.symm.trans hledger) with hfree | hless
      · exact absurd ⟨kind, h.kind_read, hkind⟩ hfree
      · rw [PostingRow.Stored.sumOn_eq h.stored, lineRows_debits h.lines]
        exact hless
  | runOccurrence req o =>
    rcases TemplateRun.runOccurrence_cases db req o with h | ⟨t, ps, h⟩
    · rw [run, h]
      exact ⟨rfl, hall⟩
    · obtain ⟨b', templates, hdb, hposts, -⟩ := h.writes
      rw [run, hdb]
      exact ⟨rfl, hall.posts_ungated hposts hsame (congrArg Header.kind h.header)
        TxnKind.recurring_ungated⟩

/-- In a run that stays below the threshold where nothing tests it, every journal
at or above it is approved, in every state. -/
theorem allApproved_of_belowThreshold {db : Db} {ops : List JournalOp} {ledger : Uuid}
    {l : Ledger} (hl : db.findLedger ledger = some l) (ht : 0 ≤ l.approvalThreshold)
    (hall : AllApproved ledger l.approvalThreshold db)
    (hmeets : Runs.Meets run (fun db op => op.BelowThreshold ledger l.approvalThreshold db) db ops) :
    ∀ db' ∈ Runs.visited run db ops, AllApproved ledger l.approvalThreshold db' := by
  have hinv := Runs.invariant_of_meets
    (P := fun db' => db'.findLedger ledger = some l ∧ AllApproved ledger l.approvalThreshold db')
    (fun db' op h hbelow => by
      obtain ⟨hledgers, hall'⟩ := run_allApproved h.1 ht h.2 hbelow
      refine ⟨?_, hall'⟩
      rw [Db.findLedger, hledgers]
      exact h.1) ⟨hl, hall⟩ hmeets
  intro db' hdb'
  exact (hinv db' hdb').2

/-- A sale above the threshold is rejected and then posted as a draft. -/
def rejectedThenPosted : List JournalOp :=
  [.create (Sample.request 1) (Sample.sale 20000),
    .rejectJournal Sample.ledgerId ((Sample.request 1).txnId 0) Sample.accountant,
    .postDraft Sample.ledgerId ((Sample.request 1).txnId 0)]

/-- A rejected journal is a draft again and is posted without an approval. -/
theorem rejectedThenPosted_not_allApproved :
    AllApproved Sample.ledgerId 10000 Sample.db ∧
      ¬ AllApproved Sample.ledgerId 10000 (Runs.exec run Sample.db rejectedThenPosted) := by
  decide +kernel

/-- A sale above the threshold that the accountant approves. -/
theorem allApproved_of_belowThreshold_approved :
    AllApproved Sample.ledgerId 10000 (Runs.exec run Sample.db
      [.create (Sample.request 1) (Sample.sale 20000),
        .approveJournal Sample.ledgerId ((Sample.request 1).txnId 0) Sample.accountant]) := by
  have hl : Sample.db.findLedger Sample.ledgerId =
      some { id := Sample.ledgerId, ownerId := Sample.owner } := by decide
  refine allApproved_of_belowThreshold hl (by decide) (by decide) ?_ _
    (Runs.exec_mem_visited _ _)
  refine ⟨?_, trivial, trivial⟩
  intro _ effective heffective _
  have hread : (PostingService.resolveAmounts Sample.db (Sample.request 1)
      (Sample.sale 20000)).toOption = some [20000, -20000] := by decide
  rw [hread] at heffective
  cases heffective
  decide +kernel

end JournalOp

end OpenAccounting
