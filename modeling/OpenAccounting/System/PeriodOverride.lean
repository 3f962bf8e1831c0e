import OpenAccounting.System.CreateAtomic
import OpenAccounting.Handlers.Transactions

/-!
# The override of a closed period

`create` of the transaction form once more, with every statement it sends.  When the service
refuses the date, an owner or admin with a reason has the reopening recorded and the watermarks
from the date on deleted, each by a statement of its own, before the write is tried again.  The
checks of accounts, dimensions and numbers come behind the check of the period, so the first call
has not made them.

`allOrNothing_iff` says when an error leaves the periods as they were.
-/

namespace OpenAccounting

open Calendar Commit

namespace Transactions.Stepwise

open PostingService.Stepwise (Statement CallError Committable Gated)

inductive OverrideStatement where
  | insertReopenEvent
  | deleteWatermarks
deriving DecidableEq

/-- How the request fails: with an error of the handler, or with the `Db` error of a statement
that was not answered. -/
inductive RequestError where
  | app (e : AppError)
  | unanswered
deriving DecidableEq

/-! ## The function -/

/-- The answer to a failed service call. -/
def answer (date : NaiveDate) : CallError → Except RequestError Response
  | .service e => mapError .app (Transactions.answer date e)
  | .unanswered _ => .error .unanswered

/-- The answer to a service call. -/
def answerOf (date : NaiveDate) :
    Except CallError CreatedTransaction → Except RequestError Response
  | .ok created => .ok (.posted created)
  | .error e => answer date e

def retryAnswer : Except CallError CreatedTransaction → Except RequestError Response
  | .ok created => .ok (.posted created)
  | .error _ => .error (.app (.internal "override retry failed: "))

def insertReopenEvent (db : Db) (user : Uuid) (s : Submission) (closedThrough : NaiveDate)
    (reason : String) : Db :=
  { db with reopenEvents := db.reopenEvents ++
      [{ ledgerId := s.new.ledgerId, closedThrough := some closedThrough, reopenedBy := user,
         reason := reason }] }

section

variable (d : Decimal.Arith) (sql retrySql : Statement → Outcome)
  (own : OverrideStatement → Outcome)

/-- The override: two statements and the retry. -/
def override (db : Db) (retry : Request) (user : Uuid) (s : Submission)
    (closedThrough : NaiveDate) (reason : String) : Except RequestError Response × Db :=
  andThen (commitAs (own .insertReopenEvent) .unanswered db
    (.ok ((), insertReopenEvent db user s closedThrough reason))) fun _ db =>
  andThen (commitAs (own .deleteWatermarks) .unanswered db
    (.ok ((), Closing.deleteWatermarks db s.new.ledgerId s.new.txnDate))) fun _ db =>
  let (r, db) := PostingService.Stepwise.create d retrySql db retry s.new
  (retryAnswer r, db)

/-- The service call and, after a refusal for a closed period, the override. -/
def post (db : Db) (req retry : Request) (user : Uuid) (s : Submission) :
    Except RequestError Response × Db :=
  if s.saveAsDraft then
    let (r, db) := PostingService.Stepwise.createDraft d sql db req s.new
    (answerOf s.new.txnDate r, db)
  else
    match PostingService.Stepwise.create d sql db req s.new with
    | (.error (.service (.hardClosed l closedThrough)), db) =>
      match overrideGranted db user s.new.ledgerId s.overrideReason with
      | none => (answer s.new.txnDate (.service (.hardClosed l closedThrough)), db)
      | some reason => override d retrySql own db retry user s closedThrough reason
    | (r, db) => (answerOf s.new.txnDate r, db)

def create (db : Db) (req retry : Request) (auth : Option Uuid) (s : Submission) :
    Except RequestError Response × Db :=
  match authorize db auth s.new.ledgerId with
  | .error e => (.error (.app e), db)
  | .ok user => post d sql retrySql own db req retry user s

end

/-! ## All or nothing -/

/-- An error leaves the periods and the reopenings as they were, and a success removes watermarks
from the date on alone. -/
structure AllOrNothing (db : Db) (date : NaiveDate) (r : Except RequestError Response × Db) :
    Prop where
  error : ∀ e, r.1 = .error e →
    r.2.closedPeriods = db.closedPeriods ∧ r.2.reopenEvents = db.reopenEvents
  success : ∀ a, r.1 = .ok a → ∃ keep : ClosedPeriod → Bool,
    r.2.closedPeriods = db.closedPeriods.filter keep ∧
      ∀ c ∈ db.closedPeriods, keep c = false → ∃ through ∈ c.closedThrough, date ≤ through

/-- The request gets as far as the override: it is no draft, its user may write, its lines pass
the validation and the service reads the watermark. -/
structure ReachesOverride (d : Decimal.Arith) (sql : Statement → Outcome) (db : Db)
    (req : Request) (auth : Option Uuid) (s : Submission) : Prop where
  not_draft : s.saveAsDraft = false
  authorized : (authorize db auth s.new.ledgerId).isOk = true
  valid : (PostingService.Stepwise.validate d sql db req s.new).isOk = true
  answered : ∀ q ∈ [Statement.begin, .disableTrigger, .lockLedger, .watermark], sql q = .done

/-- The call succeeds: it gets as far as `COMMIT`, which is answered, and the approval row of a
gated journal goes in. -/
def Succeeds (d : Decimal.Arith) (sql : Statement → Outcome) (db : Db) (req : Request)
    (new : NewTransaction) : Prop :=
  ∃ effective ledger number kind, Committable d sql db req new false effective ledger number kind ∧
    sql .commit = .done ∧ (Gated d ledger new effective → sql .insertApproval = .done ∧
      (amountColumn (PostingService.Stepwise.debitTotal d effective)).isSome)

/-- The override does nothing, or it goes through: its statements are answered and the second
write succeeds on the reopened ledger. -/
def GoesThrough (d : Decimal.Arith) (retrySql : Statement → Outcome)
    (own : OverrideStatement → Outcome) (db : Db) (retry : Request) (user : Uuid)
    (s : Submission) (reason : String) : Prop :=
  own .insertReopenEvent = .failed ∨ own .insertReopenEvent = .done ∧
    own .deleteWatermarks = .done ∧ Succeeds d retrySql (applyOverride db user s
      ((db.closedThrough s.new.ledgerId).getD s.new.txnDate) reason) retry s.new

/-! ## A call of the service -/

section

variable {d : Decimal.Arith} {sql : Statement → Outcome} {db db' : Db} {req : Request}
  {new : NewTransaction} {isDraft : Bool}

/-- `create` succeeds exactly if it gets as far as `COMMIT` and the approval row goes in. -/
theorem create_isOk_iff_succeeds :
    (PostingService.Stepwise.create d sql db req new).1.isOk = true ↔
      Succeeds d sql db req new := by
  constructor
  · intro h
    obtain ⟨created, hok⟩ := exists_ok_of_isOk h
    obtain ⟨effective, isPending, db₁, hvalid, hcommit, hwrite, hafter⟩ :=
      PostingService.Stepwise.createWithKind_eq_ok.mp (Prod.ext hok rfl)
    obtain ⟨ledger, number, kind, hcommittable⟩ :=
      PostingService.Stepwise.committable_of_write hvalid hwrite
    obtain ⟨hvalid', db₂, hwrite'⟩ := hcommittable.write
    have hsame := Except.ok.inj (hwrite.symm.trans hwrite')
    have hpending : isPending = (PostingService.makerChecker ledger
        (new.kind.getD "standard") false
        (PostingService.Stepwise.debitTotal d effective)).2 := congrArg (fun r => r.1.2) hsame
    refine ⟨effective, ledger, number, kind, hcommittable, hcommit, fun hgated => ?_⟩
    rcases hafter with ⟨hno, -⟩ | ⟨-, hanswered, hinsert⟩
    · rw [Gated, ← hpending, hno] at hgated
      cases hgated
    · simp only [PostingService.insertApproval, bind_eq_ok, okOr_eq_ok] at hinsert
      obtain ⟨amount, hamount, -⟩ := hinsert
      exact ⟨hanswered, by rw [hamount]; rfl⟩
  · rintro ⟨effective, ledger, number, kind, hcommittable, hcommit, hgate⟩
    obtain ⟨hvalid, db₁, hwrite⟩ := hcommittable.write
    rw [isOk_iff]
    by_cases hgated : Gated d ledger new effective
    · obtain ⟨hanswered, hcolumn⟩ := hgate hgated
      obtain ⟨amount, hamount⟩ := Option.isSome_iff_exists.mp hcolumn
      have hinsert : ∃ db₂, PostingService.insertApproval db₁
          { txnId := req.txnId 0, ledgerId := new.ledgerId, maker := new.createdBy,
            amount := PostingService.Stepwise.debitTotal d effective } = .ok db₂ := by
        simp only [PostingService.insertApproval, bind_eq_ok, okOr_eq_ok]
        exact ⟨_, amount, hamount, rfl⟩
      obtain ⟨db₂, hinsert⟩ := hinsert
      rw [show (PostingService.makerChecker ledger (new.kind.getD "standard") false
        (PostingService.Stepwise.debitTotal d effective)).2 = true from hgated] at hwrite
      exact ⟨_, congrArg Prod.fst (PostingService.Stepwise.createWithKind_eq_ok.mpr
        ⟨effective, true, db₁, hvalid, hcommit, hwrite, Or.inr ⟨rfl, hanswered, hinsert⟩⟩)⟩
    · have hopen : (PostingService.makerChecker ledger (new.kind.getD "standard") false
          (PostingService.Stepwise.debitTotal d effective)).2 = false := by
        simpa [Gated] using hgated
      rw [hopen] at hwrite
      exact ⟨_, congrArg Prod.fst (PostingService.Stepwise.createWithKind_eq_ok.mpr
        ⟨effective, false, db₁, hvalid, hcommit, hwrite, Or.inl ⟨rfl, rfl⟩⟩)⟩

def SamePeriods (db db' : Db) : Prop :=
  db'.closedPeriods = db.closedPeriods ∧ db'.reopenEvents = db.reopenEvents

theorem createWithKind_periods :
    SamePeriods db (PostingService.Stepwise.createWithKind d sql db req new isDraft).2 := by
  unfold PostingService.Stepwise.createWithKind
  cases hvalid : PostingService.Stepwise.validate d sql db req new with
  | error e => exact ⟨rfl, rfl⟩
  | ok effective =>
    dsimp only
    have hamounts := (PostingService.Stepwise.validate_eq_ok.mp hvalid).2.1
    have hwrite : ∀ r db₁, PostingService.Stepwise.writeTransaction d sql db req new isDraft
        effective = .ok (r, db₁) → SamePeriods db db₁ := by
      intro r db₁ hwrite
      obtain ⟨-, ledger, number, kind, db₂, -, -, -, -, -, -, hentry, htaxes, -⟩ :=
        (PostingService.Stepwise.writeTransaction_eq_ok
          (PostingService.Stepwise.resolveAmounts_length hamounts)).mp hwrite
      obtain ⟨-, b', ps, rfl, -⟩ :=
        Db.insertEntry_spec (fun s hs => PostingService.lineRows_transactionId s hs) hentry
      obtain ⟨taxes, rfl⟩ := PostingService.insertTaxLinks_frame htaxes
      exact ⟨rfl, rfl⟩
    refine andThen_invariant (P := SamePeriods db)
      (commitAs_invariant ⟨rfl, rfl⟩ hwrite) fun r db₁ hsame => ?_
    split
    · refine commitAs_invariant hsame fun created db₂ hinsert => ?_
      simp only [bind_eq_ok, mapError_eq_ok] at hinsert
      obtain ⟨db₃, hinsert, hdb⟩ := hinsert
      obtain ⟨rows, rfl⟩ := PostingService.insertApproval_frame hinsert
      cases hdb
      exact hsame
    · exact hsame

/-! ## The first call -/

/-- The error is a refusal of the date. -/
def IsHardClosed : CallError → Prop
  | .service (.hardClosed _ _) => True
  | _ => False

theorem not_fails_validate :
    ¬ Fails IsHardClosed (PostingService.Stepwise.validate d sql db req new) := by
  have hrates : ∀ (base : String) (ls : List TxnLineInput), ¬ Fails (fun e =>
      IsHardClosed (.service e)) (PostingService.Stepwise.effectiveAmounts d req base new.txnDate
        ls) := by
    intro base ls
    induction ls with
    | nil => exact fails_ok
    | cons l ls ih =>
      have hrate : ¬ Fails (fun e => IsHardClosed (.service e))
          (PostingService.Stepwise.effectiveAmount d req base new.txnDate l) := by
        unfold PostingService.Stepwise.effectiveAmount
        split
        · simp only [fails_bind, fails_mapError, IsHardClosed, not_fails_false, fails_ok,
            and_false, exists_false, or_false, not_false_eq_true]
        · exact fails_ok
      simp only [PostingService.Stepwise.effectiveAmounts, fails_bind, hrate, ih, fails_ok,
        and_false, exists_false, or_false, not_false_eq_true]
  have hamounts : ¬ Fails IsHardClosed
      (PostingService.Stepwise.resolveAmounts d sql db req new) := by
    unfold PostingService.Stepwise.resolveAmounts
    split
    · simp only [fails_bind, PostingService.Stepwise.answered, fails_ensure, fails_okOr,
        fails_mapError, hrates, and_false, exists_false, or_false]
      simp only [IsHardClosed, and_false, exists_false, or_self, not_false_eq_true]
    · exact fails_ok
  simp only [PostingService.Stepwise.validate, fails_bind, fails_ensure, hamounts, IsHardClosed,
    fails_ok, and_false, exists_false, or_false, not_false_eq_true]

/-- The database transaction refuses a closed date when the watermark is read. -/
theorem writeTransaction_closed {l : Ledger} {effective : List ℚ}
    (hledger : db.findLedger new.ledgerId = some l)
    (hclosed : db.Closed new.ledgerId new.txnDate)
    (hanswered : ∀ q ∈ [Statement.begin, .disableTrigger, .lockLedger, .watermark],
      sql q = .done) :
    PostingService.Stepwise.writeTransaction d sql db req new false effective =
      .error (.service (.hardClosed new.ledgerId
        ((db.closedThrough new.ledgerId).getD new.txnDate))) := by
  have hstep : ∀ q ∈ [Statement.begin, .disableTrigger, .lockLedger, .watermark],
      PostingService.Stepwise.answered sql q = .ok () :=
    fun q hq => PostingService.Stepwise.answered_eq_ok.mpr (hanswered q hq)
  have hlock : okOr (Db.findLedger { db with balanceTrigger := false } new.ledgerId)
      (CallError.service .ledgerNotFound) = .ok l := okOr_eq_ok.mpr hledger
  have hunguarded : Db.Closed { db with balanceTrigger := false } new.ledgerId new.txnDate :=
    hclosed
  have hperiod : PostingService.Stepwise.checkPeriod sql { db with balanceTrigger := false } new
      false = .error (.service (.hardClosed new.ledgerId
        ((db.closedThrough new.ledgerId).getD new.txnDate))) := by
    rw [PostingService.Stepwise.checkPeriod, if_neg (by decide), hstep _ (by simp), ok_bind,
      ensure, if_neg (not_not.mpr hunguarded)]
    rfl
  rw [PostingService.Stepwise.writeTransaction, hstep _ (by simp), ok_bind, hstep _ (by simp),
    ok_bind]
  dsimp only
  rw [hstep _ (by simp), ok_bind, hlock, ok_bind, hperiod]
  rfl

theorem answered_of_fails_writeTransaction {effective : List ℚ}
    (h : Fails IsHardClosed
      (PostingService.Stepwise.writeTransaction d sql db req new false effective))
    (hclosed : db.Closed new.ledgerId new.txnDate) :
    ∀ q ∈ [Statement.begin, .disableTrigger, .lockLedger, .watermark], sql q = .done := by
  have hperiod : ∀ db₀ : Db, Fails IsHardClosed
      (PostingService.Stepwise.checkPeriod sql db₀ new false) → sql .watermark = .done := by
    intro db₀ h
    rw [PostingService.Stepwise.checkPeriod, if_neg (by decide), fails_bind] at h
    rcases h with h | ⟨_, hanswered, -⟩
    · exact absurd (fails_ensure.mp h).2 (fun hno => hno)
    · exact PostingService.Stepwise.answered_eq_ok.mp hanswered
  rw [PostingService.Stepwise.writeTransaction] at h
  simp only [fails_bind, PostingService.Stepwise.answered_eq_ok] at h
  rcases h with h | ⟨_, hbegin, h⟩
  · exact absurd (fails_ensure.mp h).2 (fun hno => hno)
  rcases h with h | ⟨_, hdisable, h⟩
  · exact absurd (fails_ensure.mp h).2 (fun hno => hno)
  rcases h with h | ⟨_, hlock, h⟩
  · exact absurd (fails_ensure.mp h).2 (fun hno => hno)
  rcases h with h | ⟨l, -, h⟩
  · exact absurd (fails_okOr.mp h).2 (fun hno => hno)
  have hwatermark : sql .watermark = .done := by
    rcases h with h | ⟨_, hpassed, -⟩
    · exact hperiod _ h
    · obtain ⟨-, hopen⟩ := PostingService.Stepwise.checkPeriod_eq_ok.mp hpassed
      exact absurd hclosed (hopen.resolve_left (by decide))
  intro q hq
  simp only [List.mem_cons, List.not_mem_nil, or_false] at hq
  rcases hq with rfl | rfl | rfl | rfl
  · exact hbegin
  · exact hdisable
  · exact hlock
  · exact hwatermark

theorem create_of_closed (hclosed : db.Closed new.ledgerId new.txnDate) :
    ∃ e, PostingService.Stepwise.create d sql db req new = (.error e, db) :=
  PostingService.Stepwise.createWithKind_of_not_committable fun _ _ _ _ h =>
    absurd hclosed (h.period.resolve_left (by decide))

/-- It refuses the date exactly when its lines pass the validation and the watermark is read. -/
theorem create_hardClosed_iff {l : Ledger} {e : CallError}
    (hledger : db.findLedger new.ledgerId = some l)
    (hclosed : db.Closed new.ledgerId new.txnDate)
    (h : PostingService.Stepwise.create d sql db req new = (.error e, db)) :
    IsHardClosed e ↔ (PostingService.Stepwise.validate d sql db req new).isOk = true ∧
      ∀ q ∈ [Statement.begin, .disableTrigger, .lockLedger, .watermark], sql q = .done := by
  rw [PostingService.Stepwise.create, PostingService.Stepwise.createWithKind] at h
  cases hvalid : PostingService.Stepwise.validate d sql db req new with
  | error refused =>
    rw [hvalid] at h
    cases congrArg Prod.fst h
    have hno : ¬ IsHardClosed e := fun he => not_fails_validate ⟨e, hvalid, he⟩
    refine iff_of_false hno ?_
    rintro ⟨hok, -⟩
    cases hok
  | ok effective =>
    rw [hvalid] at h
    dsimp only at h
    cases hwrite : PostingService.Stepwise.writeTransaction d sql db req new false
        effective with
    | error refused =>
      rw [hwrite] at h
      cases congrArg Prod.fst h
      constructor
      · exact fun he => ⟨rfl, answered_of_fails_writeTransaction ⟨e, hwrite, he⟩ hclosed⟩
      · rintro ⟨-, hanswered⟩
        rw [writeTransaction_closed hledger hclosed hanswered] at hwrite
        cases hwrite
        trivial
    | ok r =>
      obtain ⟨ledger, number, kind, hcommittable⟩ :=
        PostingService.Stepwise.committable_of_write hvalid hwrite
      exact absurd hclosed (hcommittable.period.resolve_left (by decide))

theorem through_of_hardClosed {l : Ledger} {ledger : Uuid} {through : NaiveDate}
    (hledger : db.findLedger new.ledgerId = some l)
    (hclosed : db.Closed new.ledgerId new.txnDate)
    (h : PostingService.Stepwise.create d sql db req new =
      (.error (.service (.hardClosed ledger through)), db)) :
    through = (db.closedThrough new.ledgerId).getD new.txnDate := by
  obtain ⟨hvalid, hanswered⟩ := (create_hardClosed_iff hledger hclosed h).mp trivial
  obtain ⟨effective, hvalid⟩ := exists_ok_of_isOk hvalid
  rw [PostingService.Stepwise.create, PostingService.Stepwise.createWithKind, hvalid] at h
  dsimp only at h
  rw [writeTransaction_closed hledger hclosed hanswered] at h
  cases congrArg Prod.fst h
  rfl

end

/-! ## When an error leaves the periods alone -/

section

variable {d : Decimal.Arith} {sql retrySql : Statement → Outcome}
  {own : OverrideStatement → Outcome} {db db' : Db} {req retry : Request} {user : Uuid}
  {s : Submission} {reason : String}

theorem allOrNothing_of_same {date : NaiveDate} {r : Except RequestError Response × Db}
    (h : SamePeriods db r.2) : AllOrNothing db date r where
  error _ _ := h
  success _ _ := ⟨fun _ => true, by rw [h.1, List.filter_true], fun _ _ hno => nomatch hno⟩

theorem not_allOrNothing_of_reopened {date through : NaiveDate} {e : RequestError}
    (h : db'.reopenEvents = (insertReopenEvent db user s through reason).reopenEvents) :
    ¬ AllOrNothing db date (.error e, db') := by
  intro hall
  have hsame : db'.reopenEvents = db.reopenEvents := (hall.error e rfl).2
  rw [h, insertReopenEvent] at hsame
  simp at hsame

/-- With both statements answered, the second write is all that is left. -/
theorem override_of_answered {through : NaiveDate} (hinsert : own .insertReopenEvent = .done)
    (hdelete : own .deleteWatermarks = .done) :
    override d retrySql own db retry user s through reason =
      (retryAnswer (PostingService.Stepwise.create d retrySql
        (applyOverride db user s through reason) retry s.new).1,
        (PostingService.Stepwise.create d retrySql (applyOverride db user s through reason) retry
          s.new).2) := by
  rw [override, hinsert, hdelete]
  rfl

/-- Behind a committed override, a retry is all or nothing only if it succeeds. -/
theorem retry_allOrNothing_iff {through : NaiveDate} {r : Except CallError CreatedTransaction}
    (hperiods : SamePeriods (applyOverride db user s through reason) db') :
    AllOrNothing db s.new.txnDate (retryAnswer r, db') ↔ r.isOk = true := by
  cases r with
  | error e =>
    refine iff_of_false ?_ nofun
    exact not_allOrNothing_of_reopened (hperiods.2 : db'.reopenEvents =
      (insertReopenEvent db user s through reason).reopenEvents)
  | ok created =>
    refine iff_of_true ⟨fun e h => (nomatch h), fun a _ => ⟨fun c => ¬ (c.ledgerId =
      s.new.ledgerId ∧ ∃ last ∈ c.closedThrough, s.new.txnDate ≤ last), hperiods.1, ?_⟩⟩ rfl
    intro c _ hno
    exact (not_not.mp (of_decide_eq_false hno)).2

/-- The override is all or nothing exactly when it does nothing or goes through. -/
theorem override_allOrNothing_iff :
    AllOrNothing db s.new.txnDate (override d retrySql own db retry user s
        ((db.closedThrough s.new.ledgerId).getD s.new.txnDate) reason) ↔
      GoesThrough d retrySql own db retry user s reason := by
  rw [GoesThrough]
  cases hinsert : own .insertReopenEvent with
  | failed =>
    rw [override, hinsert]
    exact iff_of_true (allOrNothing_of_same ⟨rfl, rfl⟩) (Or.inl rfl)
  | lost =>
    rw [override, hinsert]
    exact iff_of_false (not_allOrNothing_of_reopened rfl) (by simp)
  | done =>
    cases hdelete : own .deleteWatermarks with
    | failed =>
      rw [override, hinsert, hdelete]
      exact iff_of_false (not_allOrNothing_of_reopened rfl) (by simp)
    | lost =>
      rw [override, hinsert, hdelete]
      exact iff_of_false (not_allOrNothing_of_reopened rfl) (by simp)
    | done =>
      rw [override_of_answered hinsert hdelete]
      refine (retry_allOrNothing_iff createWithKind_periods).trans ?_
      rw [create_isOk_iff_succeeds]
      simp

/-- A request for a closed date, by an owner or admin with a reason, is all or nothing exactly when
the override it reaches does nothing or goes through. -/
theorem allOrNothing_iff
    (hgranted : overrideGranted db user s.new.ledgerId s.overrideReason = some reason)
    (hclosed : db.Closed s.new.ledgerId s.new.txnDate) :
    AllOrNothing db s.new.txnDate (create d sql retrySql own db req retry (some user) s) ↔
      (ReachesOverride d sql db req (some user) s →
        GoesThrough d retrySql own db retry user s reason) := by
  obtain ⟨l, hledger⟩ : ∃ l, db.findLedger s.new.ledgerId = some l := by
    simp only [overrideGranted, Option.bind_eq_bind, Option.bind_eq_some_iff] at hgranted
    obtain ⟨raw, -, trimmed, -, l, hl, -⟩ := hgranted
    cases howner : db.ensureOwnerOrAdmin user s.new.ledgerId with
    | error e =>
      rw [howner] at hl
      cases hl
    | ok l' =>
      simp only [Db.ensureOwnerOrAdmin, bind_eq_ok] at howner
      obtain ⟨r, haccess, -⟩ := howner
      exact ⟨r.1, (Db.ensureAccess_related haccess).1⟩
  have hunreached : SamePeriods db (create d sql retrySql own db req retry (some user) s).2 →
      ¬ ReachesOverride d sql db req (some user) s →
      (AllOrNothing db s.new.txnDate (create d sql retrySql own db req retry (some user) s) ↔
        (ReachesOverride d sql db req (some user) s →
          GoesThrough d retrySql own db retry user s reason)) :=
    fun hsame hno => iff_of_true (allOrNothing_of_same hsame) fun h => absurd h hno
  cases hauth : authorize db (some user) s.new.ledgerId with
  | error e =>
    refine hunreached ?_ fun h => ?_
    · rw [create, hauth]
      exact ⟨rfl, rfl⟩
    · have hok := h.authorized
      rw [hauth] at hok
      cases hok
  | ok writer =>
    have hwriter : writer = user := by
      simp only [authorize, okOr, ok_bind, bind_eq_ok] at hauth
      obtain ⟨-, -, h⟩ := hauth
      cases h
      rfl
    rw [hwriter] at hauth
    cases hdraft : s.saveAsDraft with
    | true =>
      refine hunreached ?_ fun h => ?_
      · rw [create, hauth]
        dsimp only
        rw [post, if_pos hdraft]
        exact createWithKind_periods
      · cases hdraft.symm.trans h.not_draft
    | false =>
      obtain ⟨e, hfirst⟩ := @create_of_closed d sql db req s.new hclosed
      have hrefused := create_hardClosed_iff hledger hclosed hfirst
      by_cases hhard : IsHardClosed e
      · obtain ⟨hvalid, hanswered⟩ := hrefused.mp hhard
        have hreaches : ReachesOverride d sql db req (some user) s :=
          ⟨hdraft, by rw [hauth]; rfl, hvalid, hanswered⟩
        obtain ⟨ledger, through, rfl⟩ : ∃ ledger through,
            e = .service (.hardClosed ledger through) := by
          unfold IsHardClosed at hhard
          split at hhard
          · exact ⟨_, _, rfl⟩
          · cases hhard
        obtain rfl := through_of_hardClosed hledger hclosed hfirst
        have hrun : create d sql retrySql own db req retry (some user) s =
            override d retrySql own db retry user s
              ((db.closedThrough s.new.ledgerId).getD s.new.txnDate) reason := by
          rw [create, hauth]
          dsimp only
          rw [post, if_neg (by simp [hdraft]), hfirst]
          dsimp only
          rw [hgranted]
        rw [hrun, override_allOrNothing_iff]
        exact ⟨fun h _ => h, fun h => h hreaches⟩
      · refine hunreached ?_ fun h => hhard (hrefused.mpr ⟨h.valid, h.answered⟩)
        rw [create, hauth]
        dsimp only
        rw [post, if_neg (by simp [hdraft]), hfirst]
        split
        · next heq =>
            cases heq
            exact absurd trivial hhard
        · next heq =>
            cases heq
            exact ⟨rfl, rfl⟩

end

/-! ## The function of the handler -/

/-- With every statement answered and exact decimals, this is the function of the handler. -/
theorem create_exact (db : Db) (req retry : Request) (auth : Option Uuid) (s : Submission) :
    create Decimal.exact PostingService.Stepwise.allDone PostingService.Stepwise.allDone
        (fun _ => .done) db req retry auth s =
      failAs .app (Transactions.create db req retry auth s) := by
  have hcall : ∀ (db : Db) (req : Request) (new : NewTransaction) (isDraft : Bool),
      PostingService.Stepwise.createWithKind Decimal.exact PostingService.Stepwise.allDone db req
        new isDraft = failAs .service (PostingService.createWithKind db req new isDraft) :=
    PostingService.Stepwise.createWithKind_exact
  have hanswer : ∀ (r : Except PostingServiceError CreatedTransaction),
      answerOf s.new.txnDate (mapError .service r) =
        mapError .app (Transactions.answerOf s.new.txnDate r) := by
    intro r
    cases r <;> rfl
  have hretry : ∀ (r : Except PostingServiceError CreatedTransaction),
      retryAnswer (mapError .service r) = mapError .app (Transactions.retryAnswer r) := by
    intro r
    cases r <;> rfl
  rw [create, Transactions.create]
  cases authorize db auth s.new.ledgerId with
  | error e => rfl
  | ok user =>
    dsimp only
    rw [post, Transactions.post]
    split
    · rw [PostingService.Stepwise.createDraft, PostingService.createDraft, hcall]
      exact Prod.ext (hanswer _) rfl
    · rw [PostingService.Stepwise.create, PostingService.create, hcall]
      obtain ⟨⟨result, db₁⟩, hfirst⟩ : ∃ r,
          PostingService.createWithKind db req s.new false = r := ⟨_, rfl⟩
      rw [hfirst]
      cases result with
      | ok created => rfl
      | error e =>
        cases e with
        | hardClosed ledger through =>
          show (match overrideGranted db₁ user s.new.ledgerId s.overrideReason with
            | none => _
            | some reason => _) = failAs _ (match overrideGranted db₁ user s.new.ledgerId
              s.overrideReason with
            | none => _
            | some reason => _)
          cases overrideGranted db₁ user s.new.ledgerId s.overrideReason with
          | none => rfl
          | some reason =>
            dsimp only
            rw [override_of_answered rfl rfl, PostingService.Stepwise.create,
              PostingService.create, hcall]
            exact Prod.ext (hretry _) rfl
        | unbalanced debits credits => rfl
        | selfApproval => rfl
        | notPending => rfl
        | ledgerNotFound => rfl
        | unknownAccount id => rfl
        | wrongLedger id => rfl
        | unknownCostCenter id => rfl
        | unknownProject id => rfl
        | duplicateNumber year number => rfl
        | missingFxRate message => rfl
        | db e => rfl

end Transactions.Stepwise

namespace Sample

def closedDb : Db :=
  { db with
    closedPeriods :=
      [{ ledgerId := ledgerId, periodYear := 2026, closedThrough := some (march 31) }] }

/-- A sale on 10 March against an account, with a reason for the override. -/
def lateSale (account : Uuid) : Transactions.Submission where
  new :=
    { sale 100 with
      lines := [{ accountId := cash, signedAmount := 100 },
        { accountId := account, signedAmount := -100 }] }
  overrideReason := some "late invoice of March"

end Sample

namespace Transactions.Stepwise

open PostingService.Stepwise (allDone)

/-- A sale with every statement answered. -/
theorem allOrNothing_iff_lateSale :
    AllOrNothing Sample.closedDb (Sample.march 10)
        (create Decimal.nearest allDone allDone (fun _ => .done) Sample.closedDb (Sample.request 1)
          (Sample.request 2) (some Sample.owner) (Sample.lateSale Sample.sales)) ↔
      (ReachesOverride Decimal.nearest allDone Sample.closedDb (Sample.request 1)
          (some Sample.owner) (Sample.lateSale Sample.sales) →
        GoesThrough Decimal.nearest allDone (fun _ => .done) Sample.closedDb (Sample.request 2)
          Sample.owner (Sample.lateSale Sample.sales) "late invoice of March") :=
  @allOrNothing_iff _ _ _ _ Sample.closedDb _ _ Sample.owner (Sample.lateSale Sample.sales)
    "late invoice of March" (by decide) (by decide)

/-- The account of the second line does not exist: the override is made and the write fails. -/
theorem not_allOrNothing :
    ¬ ∀ (d : Decimal.Arith), d.Lawful →
      ∀ (sql retrySql : PostingService.Stepwise.Statement → Outcome)
        (own : OverrideStatement → Outcome) (db : Db) (req retry : Request) (user : Uuid)
        (s : Submission) (reason : String),
        overrideGranted db user s.new.ledgerId s.overrideReason = some reason →
        db.Closed s.new.ledgerId s.new.txnDate →
          AllOrNothing db s.new.txnDate
            (create d sql retrySql own db req retry (some user) s) := by
  intro hall
  have hgranted : overrideGranted Sample.closedDb Sample.owner Sample.ledgerId
      (some "late invoice of March") = some "late invoice of March" := by decide
  have hwhole := hall _ Decimal.nearest_lawful allDone allDone (fun _ => .done) Sample.closedDb
    (Sample.request 1) (Sample.request 2) Sample.owner (Sample.lateSale 99)
    "late invoice of March" hgranted (by decide)
  have hfailed : (create Decimal.nearest allDone allDone (fun _ => .done) Sample.closedDb
      (Sample.request 1) (Sample.request 2) (some Sample.owner) (Sample.lateSale 99)).1.isOk =
        false := by decide +kernel
  cases hanswer : (create Decimal.nearest allDone allDone (fun _ => .done) Sample.closedDb
      (Sample.request 1) (Sample.request 2) (some Sample.owner) (Sample.lateSale 99)).1 with
  | ok a =>
    rw [hanswer] at hfailed
    cases hfailed
  | error e =>
    have hsame := (hwhole.error e hanswer).1
    exact absurd (congrArg List.length hsame) (by decide +kernel)

end Transactions.Stepwise

end OpenAccounting
