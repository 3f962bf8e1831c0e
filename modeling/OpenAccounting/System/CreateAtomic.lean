import OpenAccounting.Domain.PostingStatements
import OpenAccounting.System.JournalOps

/-!
# All or nothing, with statements that fail

`create` promises that either everything commits or nothing does.  Up to `COMMIT` that is so,
whatever statement fails.  The approval row of a pending journal is written behind the commit:
if that statement fails, or the total does not fit its column, or an answer is lost on the way
back, the caller sees an error and the journal is there.

`create_whole_iff` says for every outcome of every statement when the promise is kept.
-/

namespace OpenAccounting

open Calendar Commit

theorem TxnKind.fromDb_pending {s : String} :
    TxnKind.fromDb s = some .pending ↔ s = "pending" := by
  constructor
  · intro h
    unfold TxnKind.fromDb at h
    grind
  · rintro rfl
    rfl

namespace PostingService.Stepwise

/-- The tables of a journal are the same. -/
structure SameJournals (db db' : Db) : Prop where
  transactions : db'.books.transactions = db.books.transactions
  postings : db'.books.postings = db.books.postings
  postingTaxes : db'.postingTaxes = db.postingTaxes
  approvals : db'.approvals = db.approvals

/-- An error leaves nothing behind, and an accepted pending journal waits for its approval. -/
structure Whole (db : Db) (r : Except CallError CreatedTransaction × Db) : Prop where
  error_unchanged : ∀ e, r.1 = .error e → SameJournals db r.2
  pending_awaits : ∀ created, r.1 = .ok created → created.kind = .pending →
    ∃ a ∈ r.2.approvals, a.txnId = created.id ∧ a.status = .pending

/-- The gate sends the journal to approval. -/
def Gated (d : Decimal.Arith) (ledger : Ledger) (new : NewTransaction) (effective : List ℚ) :
    Prop :=
  (makerChecker ledger (new.kind.getD "standard") false (debitTotal d effective)).2 = true

/-- What happens from `COMMIT` on leaves the call whole: the commit fails without being executed,
or it is answered, and then the journal is pending because of the gate alone and its approval
row goes in. -/
def EndsWhole (d : Decimal.Arith) (sql : Statement → Outcome) (ledger : Ledger)
    (new : NewTransaction) (effective : List ℚ) : Prop :=
  sql .commit = .failed ∨ sql .commit = .done ∧ new.kind ≠ some "pending" ∧
    (Gated d ledger new effective →
      sql .insertApproval = .done ∧ (amountColumn (debitTotal d effective)).isSome)

/-! ## The gate -/

variable {effective : List ℚ} {ledger : Ledger} {new : NewTransaction}

theorem Gated.kind_ne {d : Decimal.Arith} (h : Gated d ledger new effective) :
    new.kind ≠ some "pending" := by
  intro heq
  rw [Gated, makerChecker, heq] at h
  simp at h

/-- Below the threshold only a request for `pending` is pending. -/
theorem pending_iff_of_not_gated {d : Decimal.Arith} {kind : TxnKind}
    (h : ¬ Gated d ledger new effective)
    (hkind : TxnKind.fromDb (makerChecker ledger (new.kind.getD "standard") false
      (debitTotal d effective)).1 = some kind) : kind = .pending ↔ new.kind = some "pending" := by
  have hsame : (makerChecker ledger (new.kind.getD "standard") false
      (debitTotal d effective)).1 = new.kind.getD "standard" := by
    rw [Gated, makerChecker] at h
    rw [makerChecker]
    split at h
    · exact absurd rfl h
    · next hpass => rw [if_neg hpass]
  rw [hsame] at hkind
  have hread : TxnKind.fromDb (new.kind.getD "standard") = some .pending ↔
      new.kind.getD "standard" = "pending" := TxnKind.fromDb_pending
  have hpending : new.kind.getD "standard" = "pending" ↔ new.kind = some "pending" := by
    cases new.kind with
    | none => simp
    | some k => simp
  rw [← hpending, ← hread, hkind, Option.some.injEq]

/-! ## The statements from `COMMIT` on -/

section

variable {d : Decimal.Arith} {sql : Statement → Outcome} {db db₁ : Db} {req : Request}
  {new : NewTransaction} {effective : List ℚ} {created : CreatedTransaction} {isPending : Bool}

theorem create_of_write (hvalid : validate d sql db req new = .ok effective)
    (hwrite : writeTransaction d sql db req new false effective = .ok ((created, isPending), db₁)) :
    create d sql db req new = match sql .commit with
      | .failed => (.error (.unanswered .commit), db)
      | .lost => (.error (.unanswered .commit), db₁)
      | .done =>
        if isPending then
          commitAs (sql .insertApproval) (.unanswered .insertApproval) db₁ do
            let db ← mapError (fun e => .service (.db e)) (insertApproval db₁
              { txnId := created.id, ledgerId := new.ledgerId, maker := new.createdBy,
                amount := debitTotal d effective })
            .ok (created, db)
        else (.ok created, db₁) := by
  rw [create, createWithKind, hvalid]
  dsimp only
  rw [hwrite]
  cases sql .commit <;> rfl

theorem not_whole_of_error {e : CallError} {db' : Db} {t : Transaction}
    (h : db'.books.transactions = db.books.transactions ++ [t]) : ¬ Whole db (.error e, db') := by
  intro hwhole
  have hsame := (hwhole.error_unchanged e rfl).transactions
  rw [h] at hsame
  simp at hsame

/-- Whether the approval row of a gated journal goes in, as one statement. -/
theorem insertApproval_whole_iff {t : Transaction}
    (hkeys : ∀ a ∈ db.approvals, a.txnId ≠ created.id)
    (happrovals : db₁.approvals = db.approvals)
    (htxns : db₁.books.transactions = db.books.transactions ++ [t]) :
    Whole db (commitAs (sql .insertApproval) (.unanswered .insertApproval) db₁ do
      let db ← mapError (fun e => .service (.db e)) (insertApproval db₁
        { txnId := created.id, ledgerId := new.ledgerId, maker := new.createdBy,
          amount := debitTotal d effective })
      .ok (created, db)) ↔
      sql .insertApproval = .done ∧ (amountColumn (debitTotal d effective)).isSome := by
  have hfree : ¬ ∃ x ∈ db₁.approvals, x.txnId = created.id := by
    rw [happrovals]
    rintro ⟨x, hx, heq⟩
    exact hkeys x hx heq
  rw [insertApproval]
  cases hcolumn : amountColumn (debitTotal d effective) with
  | none =>
    -- The total does not fit: the statement is refused.
    refine ⟨fun h => absurd h (not_whole_of_error htxns), ?_⟩
    rintro ⟨-, h⟩
    cases h
  | some amount =>
    dsimp only [okOr, bind, Except.bind, mapError]
    rw [if_neg hfree]
    cases hanswer : sql .insertApproval with
    | done =>
      refine ⟨fun _ => ⟨rfl, rfl⟩, fun _ => ⟨?_, ?_⟩⟩
      · intro e h
        cases h
      · intro made h _
        cases h
        exact ⟨_, List.mem_append_right _ (List.mem_singleton_self _), rfl, rfl⟩
    | failed =>
      refine ⟨fun h => absurd h (not_whole_of_error htxns), ?_⟩
      rintro ⟨h, -⟩
      cases h
    | lost =>
      refine ⟨fun h => absurd h (not_whole_of_error htxns), ?_⟩
      rintro ⟨h, -⟩
      cases h

/-- A journal that is not gated is whole unless it asked to be pending. -/
theorem ungated_whole_iff (hkeys : ∀ a ∈ db.approvals, a.txnId ≠ created.id)
    (happrovals : db₁.approvals = db.approvals)
    (hkind : created.kind = .pending ↔ new.kind = some "pending") :
    Whole db (.ok created, db₁) ↔ new.kind ≠ some "pending" := by
  constructor
  · intro h hasked
    obtain ⟨a, ha, hid, -⟩ := h.pending_awaits created rfl (hkind.mpr hasked)
    rw [happrovals] at ha
    exact hkeys a ha hid
  · intro hasked
    constructor
    · intro e h
      cases h
    · intro made h hpending
      cases h
      exact absurd (hkind.mp hpending) hasked

end

/-! ## When the promise is kept -/

/-- A call that gets as far as `COMMIT` is whole exactly when it ends whole. -/
theorem Committable.whole_iff {d : Decimal.Arith} {sql : Statement → Outcome} {db : Db}
    {req : Request} {number : Option String} {kind : TxnKind}
    (hkeys : ∀ a ∈ db.approvals, a.txnId ∈ db.books.txnIds)
    (h : Committable d sql db req new false effective ledger number kind) :
    Whole db (create d sql db req new) ↔ EndsWhole d sql ledger new effective := by
  obtain ⟨hvalid, db₁, hwrite⟩ := h.write
  obtain ⟨created, hkind, hwrite⟩ : ∃ created : CreatedTransaction, created.kind = kind ∧
      writeTransaction d sql db req new false effective = .ok ((created,
        (makerChecker ledger (new.kind.getD "standard") false (debitTotal d effective)).2), db₁) :=
    ⟨_, rfl, hwrite⟩
  obtain ⟨t, ps, hposts, hid, -, happrovals⟩ :=
    writeTransaction_spec (resolveAmounts_length h.amounts) hwrite
  have hnew : ∀ a ∈ db.approvals, a.txnId ≠ created.id := by
    intro a ha heq
    exact hposts.fresh (hid ▸ heq ▸ hkeys a ha)
  rw [create_of_write hvalid hwrite, EndsWhole]
  cases sql .commit with
  | failed =>
    refine ⟨fun _ => Or.inl rfl, fun _ => ⟨fun e _ => ⟨rfl, rfl, rfl, rfl⟩, ?_⟩⟩
    intro made hmade
    cases hmade
  | lost =>
    refine ⟨fun hwhole => absurd hwhole (not_whole_of_error hposts.transactions), ?_⟩
    rintro (hcommit | ⟨hcommit, -⟩)
    · cases hcommit
    · cases hcommit
  | done =>
    dsimp only
    by_cases hgated : Gated d ledger new effective
    · have hgate : (makerChecker ledger (new.kind.getD "standard") false
        (debitTotal d effective)).2 = true := hgated
      rw [if_pos hgate, insertApproval_whole_iff hnew happrovals hposts.transactions]
      simp [hgated, hgated.kind_ne]
    · have hgate : ¬ (makerChecker ledger (new.kind.getD "standard") false
        (debitTotal d effective)).2 = true := hgated
      have hpending := pending_iff_of_not_gated hgated h.kind_valid
      rw [← hkind] at hpending
      rw [if_neg hgate, ungated_whole_iff hnew happrovals hpending]
      simp [hgated]

/-- `create` keeps its promise, whatever becomes of its statements, exactly when a call that gets
as far as `COMMIT` ends whole. -/
theorem create_whole_iff (d : Decimal.Arith) (sql : Statement → Outcome) (db : Db) (req : Request)
    (new : NewTransaction) (hkeys : ∀ a ∈ db.approvals, a.txnId ∈ db.books.txnIds) :
    Whole db (create d sql db req new) ↔
      ∀ effective ledger number kind,
        Committable d sql db req new false effective ledger number kind →
          EndsWhole d sql ledger new effective := by
  constructor
  · intro hwhole effective ledger number kind h
    exact (h.whole_iff hkeys).mp hwhole
  · intro hends
    by_cases hreaches : ∃ effective ledger number kind,
        Committable d sql db req new false effective ledger number kind
    · obtain ⟨effective, ledger, number, kind, h⟩ := hreaches
      exact (h.whole_iff hkeys).mpr (hends effective ledger number kind h)
    · obtain ⟨e, hcreate⟩ := createWithKind_of_not_committable
        (fun effective ledger number kind h => hreaches ⟨effective, ledger, number, kind, h⟩)
      rw [create, hcreate]
      refine ⟨fun e _ => ⟨rfl, rfl, rfl, rfl⟩, ?_⟩
      intro made hmade
      cases hmade

/-- The sample ledger has no approvals. -/
theorem create_whole_iff_sale :
    Whole Sample.db (create Decimal.nearest allDone Sample.db (Sample.request 1)
        (Sample.sale 20000)) ↔
      ∀ effective ledger number kind,
        Committable Decimal.nearest allDone Sample.db (Sample.request 1) (Sample.sale 20000) false
          effective ledger number kind →
          EndsWhole Decimal.nearest allDone ledger (Sample.sale 20000) effective :=
  create_whole_iff _ _ _ _ _ (by intro a ha; cases ha)

/-- Everything is executed but the approval row. -/
def approvalFails : Statement → Outcome
  | .insertApproval => .failed
  | _ => .done

/-- A sale of 20000.00 whose approval row fails: an error, and a pending journal. -/
theorem not_create_whole :
    ¬ ∀ (d : Decimal.Arith), d.Lawful → ∀ (sql : Statement → Outcome) (db : Db) (req : Request)
      (new : NewTransaction), (∀ a ∈ db.approvals, a.txnId ∈ db.books.txnIds) →
        Whole db (create d sql db req new) := by
  intro hall
  have hwhole := hall _ Decimal.nearest_lawful approvalFails Sample.db (Sample.request 1)
    (Sample.sale 20000) (by intro a ha; cases ha)
  have hsame := hwhole.error_unchanged (.unanswered .insertApproval) (by decide +kernel)
  exact absurd (congrArg List.length hsame.transactions) (by decide +kernel)

end PostingService.Stepwise

end OpenAccounting
