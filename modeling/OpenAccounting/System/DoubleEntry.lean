import OpenAccounting.System.JournalOps

/-!
# Double entry over whole runs

Every transaction has two postings or more and its debits equal its credits.  Most
paths see to it themselves: the posting service and the API test the balance of
what they are given, reversals copy an entry that balances, and changes of kind
leave the postings alone.  `edit` and `run_occurrence` test nothing and rely on the
trigger `trg_posting_balance`.

`create` disables that trigger inside its transaction and nothing enables it again,
so the trigger is gone after the first commit.  From then on an edit with
unbalanced lines is accepted, and so is an occurrence of an unbalanced template.
In a run in which this does not happen, every state is balanced.
-/

namespace OpenAccounting

open Calendar Commit

namespace TransactionsEdit

/-- The signed amounts of the form's lines cancel out. -/
def EditForm.Balances (form : EditForm) : Prop :=
  ∀ inputs ∈ (parseLines form.lines).toOption, (inputs.map TxnLineInput.signedAmount).sum = 0

instance (form : EditForm) : Decidable form.Balances := by
  unfold EditForm.Balances
  infer_instance

theorem parseLines_hasScale :
    ∀ {ls : List ParsedLine} {inputs : List TxnLineInput},
      (∀ l ∈ ls, ∀ a ∈ l.amount, Rounding.HasScale 4 a) → parseLines ls = .ok inputs →
      ∀ i ∈ inputs, Rounding.HasScale 4 i.signedAmount
  | [], inputs, _, h => by
    cases h
    simp
  | l :: ls, inputs, hscale, h => by
    simp only [parseLines, parseLine, bind_eq_ok, okOr_eq_ok] at h
    obtain ⟨input, ⟨account, -, amount, hamount, direction, -, _, -, _, -, hinput⟩, rest, hrest,
      h⟩ := h
    cases h
    cases hinput
    intro i hi
    rcases List.mem_cons.mp hi with rfl | hi
    · have ha := hscale l List.mem_cons_self amount hamount
      cases direction with
      | debit => exact ha
      | credit => exact ha.neg
    · exact parseLines_hasScale (fun m hm => hscale m (List.mem_cons_of_mem _ hm)) hrest i hi

/-- Debits minus credits of the corrected entry is the sum of its signed amounts. -/
theorem correctedLines_net (req : Request) :
    ∀ (k : ℕ) {ls : List TxnLineInput}, (∀ l ∈ ls, Rounding.HasScale 4 l.signedAmount) →
      PostingRow.sumOn .debit (correctedLines req k ls) -
          PostingRow.sumOn .credit (correctedLines req k ls) =
        (ls.map TxnLineInput.signedAmount).sum
  | _, [], _ => by simp [correctedLines, PostingRow.sumOn]
  | k, l :: ls, hscale => by
    have ih := correctedLines_net req (k + 1)
      fun m hm => hscale m (List.mem_cons_of_mem _ hm)
    have hround : Rounding.roundDp 4 |l.signedAmount| = |l.signedAmount| :=
      Rounding.roundDp_of_hasScale (hscale l List.mem_cons_self).abs
    rw [List.map_cons, List.sum_cons, ← ih]
    simp only [correctedLines, PostingRow.sumOn_cons, correctedLine, hround, Direction.ofSigned]
    by_cases hpos : 0 ≤ l.signedAmount
    · rw [abs_of_nonneg hpos]
      simp only [hpos, if_true, reduceCtorEq, if_false]
      ring
    · rw [abs_of_neg (not_le.mp hpos)]
      simp only [hpos, if_false, reduceCtorEq, if_true]
      ring

/-- The corrected entry balances when its lines do or the trigger checks it. -/
theorem Edited.corrected_balanced {db db' : Db} {req : Request} {ledger txn : Uuid}
    {form : EditForm} {date : NaiveDate} {inputs : List TxnLineInput}
    {original t u : Transaction} {ps qs : List Posting}
    (h : Edited db db' req ledger txn form date inputs original t u ps qs)
    (hscale : ∀ l ∈ form.lines, ∀ a ∈ l.amount, Rounding.HasScale 4 a)
    (hguard : db.balanceTrigger = true ∨ form.Balances) : (Write.post u qs).Balanced := by
  obtain ⟨b₁, b₂, -, hposts, -, htrigger⟩ := h.writes
  rcases hguard with hon | hform
  · have hb := htrigger hon
    rwa [Books.Balanced, hposts.postingsOf_self] at hb
  · constructor
    · rw [← h.stored.length_eq, correctedLines_length]
      exact h.enough
    · have hnet := correctedLines_net req 0 (parseLines_hasScale hscale h.lines)
      rw [hform inputs (by rw [h.lines]; rfl), sub_eq_zero] at hnet
      rw [PostingRow.Stored.sumOn_eq h.stored, PostingRow.Stored.sumOn_eq h.stored]
      exact hnet

end TransactionsEdit

namespace TemplateRun

/-- The signed amounts of the template's postings cancel out. -/
def Balances (db : Db) (template : Uuid) : Prop :=
  ((templatePostingsOf db template).map fun p =>
    if p.direction = .debit then p.amount else -p.amount).sum = 0

instance (db : Db) (template : Uuid) : Decidable (Balances db template) := by
  unfold Balances
  infer_instance

theorem postingRows_net (req : Request) :
    ∀ (k : ℕ) (ps : List TemplatePosting),
      PostingRow.sumOn .debit (postingRows req k ps) -
          PostingRow.sumOn .credit (postingRows req k ps) =
        (ps.map fun p => if p.direction = .debit then p.amount else -p.amount).sum
  | _, [] => by simp [postingRows, PostingRow.sumOn]
  | k, p :: ps => by
    have ih := postingRows_net req (k + 1) ps
    have hround : Rounding.roundDp 4 p.amount = p.amount :=
      Rounding.roundDp_of_hasScale p.amount_scale
    rw [List.map_cons, List.sum_cons, ← ih]
    simp only [postingRows, PostingRow.sumOn_cons, postingRow, hround]
    cases p.direction with
    | debit =>
      simp only [if_true, reduceCtorEq, if_false]
      ring
    | credit =>
      simp only [if_true, reduceCtorEq, if_false]
      ring

theorem Posted.balanced {db db' : Db} {req : Request} {o : Occurrence} {t : Transaction}
    {ps : List Posting} (h : Posted db db' req o t ps)
    (hguard : db.balanceTrigger = true ∨ Balances db o.templateId) :
    (Write.post t ps).Balanced := by
  obtain ⟨b', _, -, hposts, htrigger⟩ := h.writes
  rcases hguard with hon | hbalances
  · have hb := htrigger hon
    rwa [Books.Balanced, hposts.postingsOf_self] at hb
  · constructor
    · rw [← h.stored.length_eq, postingRows_length]
      exact h.enough
    · have hnet := postingRows_net req 0 (templatePostingsOf db o.templateId)
      rw [Balances] at hbalances
      rw [hbalances, sub_eq_zero] at hnet
      rw [PostingRow.Stored.sumOn_eq h.stored, PostingRow.Stored.sumOn_eq h.stored]
      exact hnet

end TemplateRun

namespace JournalOp

/-- The two paths that test nothing find the trigger enabled or bring lines that
balance. -/
def BalanceGuarded (db : Db) : JournalOp → Prop
  | .edit _ _ _ _ form => db.balanceTrigger = true ∨ form.Balances
  | .runOccurrence _ o => db.balanceTrigger = true ∨ TemplateRun.Balances db o.templateId
  | _ => True

instance (db : Db) (op : JournalOp) : Decidable (op.BalanceGuarded db) :=
  match op with
  | .edit _ _ _ _ form => inferInstanceAs (Decidable (db.balanceTrigger = true ∨ form.Balances))
  | .runOccurrence _ o =>
    inferInstanceAs (Decidable (db.balanceTrigger = true ∨ TemplateRun.Balances db o.templateId))
  | .create .. | .createDraft .. | .postDraft .. | .deleteDraft .. | .approveJournal ..
  | .rejectJournal .. | .reverse .. | .bulkDelete .. | .apiCreate .. =>
    inferInstanceAs (Decidable True)

/-- The invariant, for one operation.  Each path posts balanced lines, or is guarded. -/
theorem run_allBalanced {db : Db} {op : JournalOp} (hb : db.books.AllBalanced)
    (hscale : op.FourDecimals) (hguard : op.BalanceGuarded db) :
    (op.run db).books.AllBalanced := by
  cases op with
  | create req new =>
    rcases PostingService.createWithKind_cases db req new false with h | ⟨_, t, ps, h⟩
    · rw [run, PostingService.create, h]
      exact hb
    · exact (Books.Wrote.post h.posts).allBalanced hb (h.balanced hscale)
  | createDraft req new =>
    rcases PostingService.createWithKind_cases db req { new with kind := some "draft" } true
      with h | ⟨_, t, ps, h⟩
    · rw [run, PostingService.createDraft, h]
      exact hb
    · exact (Books.Wrote.post h.posts).allBalanced hb (h.balanced hscale)
  | postDraft ledger txn =>
    rcases PostingService.postDraft_cases db ledger txn with h | ⟨_, b', -, -, -, h, hwrote⟩
    · rw [run, h]
      exact hb
    · rw [run, h]
      exact hwrote.allBalanced hb trivial
  | deleteDraft ledger txn =>
    rcases PostingService.deleteDraft_cases db ledger txn with h | ⟨_, db', -, -, hdelete, h⟩
    · rw [run, h]
      exact hb
    · rw [run, h]
      exact (Db.deleteTransaction_spec hdelete).2.2.2.2.allBalanced hb trivial
  | approveJournal ledger txn checker =>
    rcases PostingService.approveJournal_cases db ledger txn checker with
      h | ⟨db', -, h, rfl | ⟨_, -, b', rfl, hwrote⟩⟩
    · rw [run, h]
      exact hb
    · rw [run, h]
      exact hb
    · rw [run, h]
      exact hwrote.allBalanced hb trivial
  | rejectJournal ledger txn checker =>
    rcases PostingService.rejectJournal_cases db ledger txn checker with h | ⟨b', -, h, hwrote⟩
    · rw [run, h]
      exact hb
    · rw [run, h]
      exact hwrote.allBalanced hb trivial
  | reverse req auth ledger txn =>
    rcases TransactionsEdit.reverse_cases db req auth ledger txn with
      h | ⟨original, t, ps, b', hfound, -, -, -, h, hposts, hstored⟩
    · rw [run, h]
      exact hb
    · rw [run, h]
      have horiginal := hb original (Books.findTxnIn_spec hfound).1
      exact (Books.Wrote.post hposts).allBalanced hb (flipped_balanced horiginal hstored)
  | edit req auth ledger txn form =>
    rcases TransactionsEdit.edit_cases db req auth ledger txn form with
      h | ⟨date, inputs, original, t, u, ps, qs, h⟩
    · rw [run, h]
      exact hb
    · obtain ⟨b₁, b₂, hreversal, hcorrected, hdb, -⟩ := h.writes
      have horiginal := hb original (Books.findTxnIn_spec h.original_found).1
      have hb₁ : b₁.AllBalanced :=
        (Books.Wrote.post hreversal).allBalanced hb (flipped_balanced horiginal h.flipped)
      rw [run, hdb]
      exact (Books.Wrote.post hcorrected).allBalanced hb₁ (h.corrected_balanced hscale hguard)
  | bulkDelete req auth ledger ids =>
    rcases TransactionsBulk.bulkDelete_cases db req auth ledger
      { txnIds := ids, action := .delete } rfl with h | ⟨user, db', hall, h⟩
    · rw [run, h]
      exact hb
    · obtain ⟨b', rfl, hb'⟩ := TransactionsBulk.reverseAll_invariant (P := Books.AllBalanced)
        (fun hb _ hfound _ hposts hstored => (Books.Wrote.post hposts).allBalanced hb
          (flipped_balanced (hb _ (Books.findTxnIn_spec hfound).1) hstored)) hb hall
      rw [run, h]
      exact hb'
  | apiCreate req user ledger body =>
    rcases Api.Transactions.create_cases db req user ledger body with h | ⟨_, _, t, ps, h⟩
    · rw [run, h]
      exact hb
    · obtain ⟨b', hdb, hposts⟩ := h.writes
      rw [run, hdb]
      exact (Books.Wrote.post hposts).allBalanced hb (h.balanced hscale)
  | runOccurrence req o =>
    rcases TemplateRun.runOccurrence_cases db req o with h | ⟨t, ps, h⟩
    · rw [run, h]
      exact hb
    · obtain ⟨b', templates, hdb, hposts, -⟩ := h.writes
      rw [run, hdb]
      exact (Books.Wrote.post hposts).allBalanced hb (h.balanced hguard)

/-- Every state of a run whose unchecked writes are guarded is balanced. -/
theorem allBalanced_of_guarded {db : Db} {ops : List JournalOp} (hb : db.books.AllBalanced)
    (hscale : ∀ op ∈ ops, op.FourDecimals) (hguard : Runs.Meets run BalanceGuarded db ops) :
    ∀ db' ∈ Runs.visited run db ops, db'.books.AllBalanced :=
  Runs.invariant_of_meets (P := fun db => db.books.AllBalanced)
    (fun _ _ hb h => run_allBalanced hb h.2 h.1) hb (hguard.and_forall hscale)

/-- An accepted sale of `100`, and an edit of it to a debit of `100` and a credit
of `40`. -/
def unbalancedEdit : List JournalOp :=
  [.create (Sample.request 1) (Sample.sale 100),
    .edit (Sample.request 2) (some Sample.owner) Sample.ledgerId ((Sample.request 1).txnId 0)
      (Sample.editForm 100 40)]

/-- The trigger is enabled at the start, and `create` leaves it disabled for the edit. -/
theorem unbalancedEdit_not_allBalanced :
    Sample.db.balanceTrigger = true ∧ Sample.db.books.AllBalanced ∧
      (∀ op ∈ unbalancedEdit, op.FourDecimals) ∧
      ¬ (Runs.exec run Sample.db unbalancedEdit).books.AllBalanced := by
  decide +kernel

/-- The same sale, edited to `40` on both sides. -/
theorem allBalanced_of_guarded_sale_edit :
    (Runs.exec run Sample.db [.create (Sample.request 1) (Sample.sale 100),
      .edit (Sample.request 2) (some Sample.owner) Sample.ledgerId ((Sample.request 1).txnId 0)
        (Sample.editForm 40 40)]).books.AllBalanced := by
  refine allBalanced_of_guarded ?_ ?_ ?_ _ (Runs.exec_mem_visited _ _)
  · decide
  · decide +kernel
  · exact ⟨trivial, Or.inr (by decide +kernel), trivial⟩

end JournalOp

end OpenAccounting
