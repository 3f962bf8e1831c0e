import OpenAccounting.Db.Inserts
import OpenAccounting.System.JournalOps

/-!
# The corrected entry of an edit

`edit` writes its corrected entry without the posting service.  It parses the cost center and the
project of a line and does not store them, it stores a negative amount on the other side, and of
the checks that `create` makes it only makes the one of the period.

`asCreated_iff` says which forms it treats as `create` would.
-/

namespace OpenAccounting

open Calendar Commit Rounding

/-- The error refuses the lines or their date. -/
def PostingServiceError.OfLines : PostingServiceError → Prop
  | .unbalanced _ _ | .hardClosed _ _ | .unknownAccount _ | .wrongLedger _
  | .unknownCostCenter _ | .unknownProject _ => True
  | _ => False

namespace PostingService

/-! ## What `create` checks -/

/-- The lines and their date pass the checks of `create`. -/
structure LinesAccepted (db : Db) (new : NewTransaction) : Prop where
  balanced : debitTotal (new.lines.map TxnLineInput.signedAmount) =
    creditTotal (new.lines.map TxnLineInput.signedAmount)
  period : ¬ db.Closed new.ledgerId new.txnDate
  accounts : ∀ l ∈ new.lines, ∃ a ∈ db.books.accounts,
    a.id = l.accountId ∧ a.ledgerId = new.ledgerId
  costCenters : ∀ l ∈ new.lines, ∀ id ∈ l.costCenterId,
    ∃ r ∈ db.costCenters, r.id = id ∧ r.ledgerId = new.ledgerId
  projects : ∀ l ∈ new.lines, ∀ id ∈ l.projectId,
    ∃ r ∈ db.projects, r.id = id ∧ r.ledgerId = new.ledgerId

variable {ledger : Uuid} {ls : List TxnLineInput} {new : NewTransaction}

theorem checkAccounts_eq_ok {b : Books} {u : Unit} :
    checkAccounts b ledger ls = .ok u ↔
      ∀ l ∈ ls, ∃ a ∈ b.accounts, a.id = l.accountId ∧ a.ledgerId = ledger := by
  induction ls with
  | nil => simp [checkAccounts]
  | cons l ls ih =>
    simp only [checkAccounts, bind_eq_ok, ensure_eq_ok, ih, List.forall_mem_cons]
    constructor
    · rintro ⟨-, hl, hls⟩
      exact ⟨hl, hls⟩
    · rintro ⟨hl, hls⟩
      exact ⟨(), hl, hls⟩

theorem fails_checkAccounts {b : Books} :
    Fails PostingServiceError.OfLines (checkAccounts b ledger ls) ↔
      ¬ ∀ l ∈ ls, ∃ a ∈ b.accounts, a.id = l.accountId ∧ a.ledgerId = ledger := by
  have hall : ∀ e, checkAccounts b ledger ls = .error e → e.OfLines := by
    induction ls with
    | nil =>
      intro e h
      cases h
    | cons l ls ih =>
      intro e h
      rw [checkAccounts] at h
      by_cases hl : ∃ a ∈ b.accounts, a.id = l.accountId ∧ a.ledgerId = ledger
      · rw [ensure, if_pos hl, ok_bind] at h
        exact ih e h
      · rw [ensure, if_neg hl] at h
        cases h
        split
        · trivial
        · trivial
  rw [fails_iff_of_forall hall]
  simp [checkAccounts_eq_ok]

theorem checkDimensions_eq_ok {db : Db} {u : Unit} :
    checkDimensions db ledger ls = .ok u ↔
      (∀ l ∈ ls, ∀ id ∈ l.costCenterId, ∃ r ∈ db.costCenters, r.id = id ∧ r.ledgerId = ledger) ∧
        ∀ l ∈ ls, ∀ id ∈ l.projectId, ∃ r ∈ db.projects, r.id = id ∧ r.ledgerId = ledger := by
  have hread : ∀ (o : Option Uuid) (rows : List NamedRow),
      (o.all fun x => ∃ r ∈ rows, r.id = x ∧ r.ledgerId = ledger) = true ↔
        ∀ id ∈ o, ∃ r ∈ rows, r.id = id ∧ r.ledgerId = ledger := by
    intro o rows
    cases o <;> simp
  induction ls with
  | nil => simp [checkDimensions]
  | cons l ls ih =>
    simp only [checkDimensions, bind_eq_ok, ensure_eq_ok, ih, List.forall_mem_cons, hread]
    constructor
    · rintro ⟨-, hcenter, -, hproject, hcenters, hprojects⟩
      exact ⟨⟨hcenter, hcenters⟩, hproject, hprojects⟩
    · rintro ⟨⟨hcenter, hcenters⟩, hproject, hprojects⟩
      exact ⟨(), hcenter, (), hproject, hcenters, hprojects⟩

theorem fails_checkDimensions {db : Db} :
    Fails PostingServiceError.OfLines (checkDimensions db ledger ls) ↔
      ¬ ((∀ l ∈ ls, ∀ id ∈ l.costCenterId, ∃ r ∈ db.costCenters, r.id = id ∧ r.ledgerId = ledger) ∧
        ∀ l ∈ ls, ∀ id ∈ l.projectId, ∃ r ∈ db.projects, r.id = id ∧ r.ledgerId = ledger) := by
  have hall : ∀ e, checkDimensions db ledger ls = .error e → e.OfLines := by
    induction ls with
    | nil =>
      intro e h
      cases h
    | cons l ls ih =>
      intro e h
      rw [checkDimensions, ensure, ensure] at h
      split at h
      · rw [ok_bind] at h
        split at h
        · exact ih e h
        · cases h
          trivial
      · cases h
        trivial
  rw [fails_iff_of_forall hall]
  simp [checkDimensions_eq_ok]

theorem not_fails_resolveNumber {b : Books} :
    ¬ Fails PostingServiceError.OfLines (resolveNumber b new) := by
  unfold resolveNumber
  dsimp only
  split
  · rw [fails_bind]
    rintro (h | ⟨_, _, h⟩)
    · exact (fails_ensure.mp h).2
    · exact fails_ok h
  · exact fails_ok

/-- Besides the errors of statements, `create_with_kind` fails where its validation or its
database transaction does. -/
theorem fails_createWithKind {P : PostingServiceError → Prop} (hdb : ∀ e, ¬ P (.db e)) {db : Db}
    {req : Request} {isDraft : Bool} :
    Fails P (createWithKind db req new isDraft).1 ↔
      Fails P (validate db req new >>= writeTransaction db req new isDraft) := by
  unfold createWithKind
  cases validate db req new with
  | error e => exact fails_error.trans fails_error.symm
  | ok effective =>
    rw [ok_bind]
    dsimp only
    cases writeTransaction db req new isDraft effective with
    | error e => exact fails_error.trans fails_error.symm
    | ok r =>
      obtain ⟨⟨created, isPending⟩, db₁⟩ := r
      refine iff_of_false ?_ fails_ok
      cases isPending with
      | false => exact fails_ok
      | true =>
        dsimp only [commit]
        split
        · exact fails_ok
        · rw [fails_error]
          exact hdb _

/-- `create` refuses lines in the base currency, or their date, exactly when they do not pass
its checks. -/
theorem fails_create_iff {db : Db} {req : Request} {ledger : Ledger}
    (hlines : 2 ≤ new.lines.length) (hlocal : ∀ l ∈ new.lines, l.foreign = none)
    (htaxes : new.taxLinks = []) (hledger : db.findLedger new.ledgerId = some ledger) :
    Fails PostingServiceError.OfLines (create db req new).1 ↔ ¬ LinesAccepted db new := by
  have hany : new.lines.any (fun l => l.foreign.isSome) = false := by
    rw [List.any_eq_false]
    intro l hl
    simp [hlocal l hl]
  have hamounts : resolveAmounts db req new = .ok (new.lines.map TxnLineInput.signedAmount) := by
    rw [resolveAmounts, hany]
    rfl
  have hnumber : ∀ b, ¬ Fails PostingServiceError.OfLines (resolveNumber b new) :=
    fun b => not_fails_resolveNumber
  -- After the checks only statements can fail.
  have hwrite : ∀ effective,
      Fails PostingServiceError.OfLines (writeTransaction db req new false effective) ↔
        ¬ (¬ db.Closed new.ledgerId new.txnDate ∧
          (∀ l ∈ new.lines, ∃ a ∈ db.books.accounts,
            a.id = l.accountId ∧ a.ledgerId = new.ledgerId) ∧
          (∀ l ∈ new.lines, ∀ id ∈ l.costCenterId,
            ∃ r ∈ db.costCenters, r.id = id ∧ r.ledgerId = new.ledgerId) ∧
          ∀ l ∈ new.lines, ∀ id ∈ l.projectId,
            ∃ r ∈ db.projects, r.id = id ∧ r.ledgerId = new.ledgerId) := by
    intro effective
    unfold writeTransaction
    dsimp only
    generalize hunguarded : ({ db with balanceTrigger := false } : Db) = db₀
    have hlock : db₀.findLedger new.ledgerId = some ledger := by
      rw [← hunguarded]
      exact hledger
    have hperiod : db₀.Closed new.ledgerId new.txnDate ↔ db.Closed new.ledgerId new.txnDate := by
      rw [← hunguarded]
      rfl
    have hcenters : db₀.costCenters = db.costCenters := by rw [← hunguarded]
    have hprojects : db₀.projects = db.projects := by rw [← hunguarded]
    simp only [okOr_eq_ok.mpr hlock, ok_bind, fails_bind, fails_ensure, fails_okOr,
      fails_mapError, fails_checkAccounts, fails_checkDimensions, hnumber, ensure_eq_ok,
      checkAccounts_eq_ok, checkDimensions_eq_ok, hperiod, hcenters, hprojects, htaxes,
      insertTaxLinks, PostingServiceError.OfLines, fails_ok, not_fails_false, exists_const,
      and_false, and_true, or_false, exists_false, Bool.false_eq_true, false_or]
    tauto
  rw [create, fails_createWithKind (fun _ hno => hno), fails_bind, validate]
  simp only [hamounts, ok_bind, fails_bind, fails_ensure, bind_eq_ok, ensure_eq_ok, hlines,
    hwrite, PostingServiceError.OfLines, fails_ok, not_true, exists_const, and_true, true_and,
    false_or, or_false, and_false]
  constructor
  · rintro (hunbalanced | ⟨_, -, hrefused⟩) haccepted
    · exact hunbalanced haccepted.balanced
    · exact hrefused
        ⟨haccepted.period, haccepted.accounts, haccepted.costCenters, haccepted.projects⟩
  · intro hnot
    by_cases hbalanced : debitTotal (new.lines.map TxnLineInput.signedAmount) =
        creditTotal (new.lines.map TxnLineInput.signedAmount)
    · refine Or.inr ⟨_, ⟨hbalanced, rfl⟩, ?_⟩
      rintro ⟨hperiod, haccounts, hcenters, hprojects⟩
      exact hnot ⟨hbalanced, hperiod, haccounts, hcenters, hprojects⟩
    · exact Or.inl hbalanced

end PostingService

namespace TransactionsEdit

/-! ## What the edit stores -/

/-- The posting is the line as it was submitted. -/
structure ParsedLine.StoredAs (l : ParsedLine) (p : Posting) : Prop where
  accountId : l.accountId = some p.accountId
  direction : l.direction = some p.direction
  amount : l.amount = some p.amount
  memo : p.memo = if l.memo = "" then none else some l.memo
  costCenterId : l.costCenterId = some p.costCenterId
  projectId : l.projectId = some p.projectId

/-- A positive amount of at most four decimals, with no cost center and no project. -/
structure ParsedLine.Plain (l : ParsedLine) : Prop where
  amount_pos : ∀ a ∈ l.amount, 0 < a
  amount_scale : ∀ a ∈ l.amount, HasScale 4 a
  costCenterId : l.costCenterId = some none
  projectId : l.projectId = some none

/-- A corrected line is stored as submitted exactly if it is plain. -/
theorem storedAs_iff_plain {req : Request} {k : ℕ} {l : ParsedLine} {input : TxnLineInput}
    {p : Posting} (hinput : parseLine l = .ok input)
    (hwritten : (correctedLine req k input).Written p) : l.StoredAs p ↔ l.Plain := by
  simp only [parseLine, bind_eq_ok, okOr_eq_ok] at hinput
  obtain ⟨account, haccount, amount, hamount, direction, hdirection, center, hcenter, project,
    hproject, hinput⟩ := hinput
  cases hinput
  have hstored : p.amount = roundDp 4 |if direction = .debit then amount else -amount| :=
    hwritten.stored.amount
  have hside : p.direction =
      .ofSigned (if direction = .debit then amount else -amount) := hwritten.stored.direction
  have habs : |if direction = .debit then amount else -amount| = |amount| := by
    split
    · rfl
    · exact abs_neg amount
  rw [habs] at hstored
  constructor
  · intro h
    have hsame : amount = p.amount := Option.some.inj (hamount.symm.trans h.amount)
    constructor
    · intro a ha
      cases hamount.symm.trans ha
      rw [hsame]
      exact p.amount_pos
    · intro a ha
      cases hamount.symm.trans ha
      rw [hsame]
      exact p.amount_scale
    · rw [h.costCenterId, hwritten.costCenterId]
      rfl
    · rw [h.projectId, hwritten.projectId]
      rfl
  · intro h
    have hpos : 0 < amount := h.amount_pos amount hamount
    rw [abs_of_pos hpos, roundDp_of_hasScale (h.amount_scale amount hamount)] at hstored
    have hdirectionStored : p.direction = direction := by
      rw [hside, Direction.ofSigned]
      cases direction with
      | debit => simp [hpos.le]
      | credit => simp [hpos]
    constructor
    · rw [haccount, hwritten.stored.accountId]
      rfl
    · rw [hdirection, hdirectionStored]
    · rw [hamount, hstored]
    · exact hwritten.memo
    · rw [h.costCenterId, hwritten.costCenterId]
      rfl
    · rw [h.projectId, hwritten.projectId]
      rfl

/-- The lines are stored as they were submitted exactly when they are plain. -/
theorem allStored_iff_plain {req : Request} :
    ∀ {k : ℕ} {ls : List ParsedLine} {inputs : List TxnLineInput} {ps : List Posting},
      parseLines ls = .ok inputs →
      List.Forall₂ PostingRow.Written (correctedLines req k inputs) ps →
      (List.Forall₂ ParsedLine.StoredAs ls ps ↔ ∀ l ∈ ls, l.Plain)
  | _, [], _, _, hinputs, hwritten => by
    cases hinputs
    cases hwritten
    simp
  | k, l :: ls, _, _, hinputs, hwritten => by
    simp only [parseLines, bind_eq_ok] at hinputs
    obtain ⟨input, hinput, rest, hrest, hinputs⟩ := hinputs
    cases hinputs
    rw [correctedLines] at hwritten
    cases hwritten with
    | cons hone htail =>
      rw [List.forall₂_cons, storedAs_iff_plain hinput hone, allStored_iff_plain hrest htail,
        List.forall_mem_cons]

theorem parseLines_local :
    ∀ {ls : List ParsedLine} {inputs : List TxnLineInput}, parseLines ls = .ok inputs →
      ∀ input ∈ inputs, input.foreign = none
  | [], _, hinputs, _, hmem => by
    cases hinputs
    cases hmem
  | l :: ls, _, hinputs, input, hmem => by
    simp only [parseLines, parseLine, bind_eq_ok] at hinputs
    obtain ⟨first, ⟨_, -, _, -, _, -, _, -, _, -, hfirst⟩, rest, hrest, hinputs⟩ := hinputs
    cases hinputs
    cases hfirst
    rcases List.mem_cons.mp hmem with rfl | hmem
    · rfl
    · exact parseLines_local hrest input hmem

/-! ## As `create` would -/

/-- The form for the posting service. -/
def EditForm.newTransaction (form : EditForm) (user ledger : Uuid) (date : NaiveDate)
    (inputs : List TxnLineInput) : NewTransaction where
  ledgerId := ledger
  txnDate := date
  description := RustStr.trim form.description
  payee := form.payee.filter fun s => s ≠ ""
  reference := form.reference.filter fun s => s ≠ ""
  createdBy := user
  lines := inputs

/-- The edit stored the lines as they were submitted, and `create` refuses neither them nor their
date in the state before. -/
structure AsCreated (db db' : Db) (req : Request) (form : EditForm) (new : NewTransaction) :
    Prop where
  stored : List.Forall₂ ParsedLine.StoredAs form.lines (db'.books.postingsOf (req.txnId 1))
  accepted : ∀ request,
    ¬ Fails PostingServiceError.OfLines (PostingService.create db request new).1

/-- The form has plain lines that balance, on accounts of the ledger. -/
structure Creatable (db : Db) (form : EditForm) (new : NewTransaction) : Prop where
  plain : ∀ l ∈ form.lines, l.Plain
  balanced : PostingService.debitTotal (new.lines.map TxnLineInput.signedAmount) =
    PostingService.creditTotal (new.lines.map TxnLineInput.signedAmount)
  accounts : ∀ l ∈ new.lines, ∃ a ∈ db.books.accounts,
    a.id = l.accountId ∧ a.ledgerId = new.ledgerId

theorem parseLines_untagged :
    ∀ {ls : List ParsedLine} {inputs : List TxnLineInput}, parseLines ls = .ok inputs →
      (∀ l ∈ ls, l.Plain) → ∀ input ∈ inputs, input.costCenterId = none ∧ input.projectId = none
  | [], _, hinputs, _, _, hmem => by
    cases hinputs
    cases hmem
  | l :: ls, _, hinputs, hplain, input, hmem => by
    obtain ⟨hl, hls⟩ := List.forall_mem_cons.mp hplain
    simp only [parseLines, parseLine, bind_eq_ok, okOr_eq_ok] at hinputs
    obtain ⟨first, ⟨_, -, _, -, _, -, center, hcenter, project, hproject, hfirst⟩, rest, hrest,
      hinputs⟩ := hinputs
    cases hinputs
    cases hfirst
    cases hl.costCenterId.symm.trans hcenter
    cases hl.projectId.symm.trans hproject
    rcases List.mem_cons.mp hmem with rfl | hmem
    · exact ⟨rfl, rfl⟩
    · exact parseLines_untagged hrest hls input hmem

/-- A successful edit did as `create` would exactly when its lines are plain, balance and are on
accounts of the ledger. -/
theorem asCreated_iff {db db' : Db} {req : Request} {user ledger txn : Uuid} {form : EditForm}
    {date : NaiveDate} {inputs : List TxnLineInput} (hdate : form.date = some date)
    (hinputs : parseLines form.lines = .ok inputs)
    (h : edit db req (some user) ledger txn form = (.ok (), db')) :
    AsCreated db db' req form (form.newTransaction user ledger date inputs) ↔
      Creatable db form (form.newTransaction user ledger date inputs) := by
  have hbody := commit_eq_ok.mp h
  simp only [bind_eq_ok, okOr_eq_ok, ensure_eq_ok, mapError_eq_ok, not_or] at hbody
  obtain ⟨writer, -, -, -, -, -, -, hlines, date', hdate', -, -, inputs', hinputs', original, -, -,
    -, -, ⟨-, hopen⟩, db₁, hreversal, l, hl, db₂, hcorrected, hdb⟩ := hbody
  cases hdb
  cases hdate.symm.trans hdate'
  cases hinputs.symm.trans hinputs'
  obtain ⟨-, -, b₁, -, rfl, -⟩ := insertReversal_spec hreversal
  obtain ⟨b', ps, rfl, hposts, hwritten⟩ :=
    Db.insertEntry_written (fun r hr => correctedLines_transactionId r hr) hcorrected
  have hself : b'.postingsOf (req.txnId 1) = ps := hposts.postingsOf_self
  have hlen : 2 ≤ inputs.length := by
    rw [parseLines_length hinputs]
    exact hlines
  have hstored := allStored_iff_plain hinputs hwritten
  have hcreate : ∀ request, Fails PostingServiceError.OfLines
      (PostingService.create db request (form.newTransaction user ledger date inputs)).1 ↔
        ¬ PostingService.LinesAccepted db (form.newTransaction user ledger date inputs) :=
    fun request => PostingService.fails_create_iff hlen (parseLines_local hinputs) rfl hl
  constructor
  · intro has
    have haccepted := not_not.mp (mt (hcreate req).mpr (has.accepted req))
    have hstoredAs := has.stored
    rw [hself] at hstoredAs
    exact ⟨hstored.mp hstoredAs, haccepted.balanced, haccepted.accounts⟩
  · intro hcreatable
    have huntagged := parseLines_untagged hinputs hcreatable.plain
    constructor
    · rw [hself]
      exact hstored.mpr hcreatable.plain
    · intro request hfails
      refine (hcreate request).mp hfails
        ⟨hcreatable.balanced, hopen, hcreatable.accounts, ?_, ?_⟩
      · intro input hinput id hid
        rw [(huntagged input hinput).1] at hid
        cases hid
      · intro input hinput id hid
        rw [(huntagged input hinput).2] at hid
        cases hid

end TransactionsEdit

namespace Sample

/-- The ledger after a sale of 100.00. -/
def soldDb : Db := (PostingService.create db (request 1) (sale 100)).2

/-- Its correction, the income on a cost center or on none. -/
def correction (costCenter : Option Uuid) : TransactionsEdit.EditForm :=
  { editForm 90 90 with
    lines :=
      [{ accountId := some cash, amount := some 90, directionText := "DEBIT",
         direction := some .debit },
       { accountId := some sales, amount := some 90, directionText := "CREDIT",
         direction := some .credit, costCenterId := some costCenter }] }

/-- Its lines for the posting service. -/
def correctionLines (costCenter : Option Uuid) : List TxnLineInput :=
  [{ accountId := cash, signedAmount := 90 },
   { accountId := sales, signedAmount := -90, costCenterId := costCenter }]

def correctedDb (costCenter : Option Uuid) : Db :=
  (TransactionsEdit.edit soldDb (request 2) (some owner) ledgerId 1000 (correction costCenter)).2

end Sample

namespace TransactionsEdit

/-- A correction without tags. -/
theorem asCreated_iff_correction :
    AsCreated Sample.soldDb (Sample.correctedDb none) (Sample.request 2) (Sample.correction none)
        ((Sample.correction none).newTransaction Sample.owner Sample.ledgerId (Sample.march 12)
          (Sample.correctionLines none)) ↔
      Creatable Sample.soldDb (Sample.correction none)
        ((Sample.correction none).newTransaction Sample.owner Sample.ledgerId (Sample.march 12)
          (Sample.correctionLines none)) := by
  have h : edit Sample.soldDb (Sample.request 2) (some Sample.owner) Sample.ledgerId 1000
      (Sample.correction none) = (.ok (), Sample.correctedDb none) :=
    Prod.ext (by decide +kernel) rfl
  exact asCreated_iff rfl rfl h

/-- The cost center of the income is not stored. -/
theorem not_asCreated :
    ¬ ∀ (db db' : Db) (req : Request) (user ledger txn : Uuid) (form : EditForm)
      (date : NaiveDate) (inputs : List TxnLineInput), form.date = some date →
        parseLines form.lines = .ok inputs →
        edit db req (some user) ledger txn form = (.ok (), db') →
          AsCreated db db' req form (form.newTransaction user ledger date inputs) := by
  intro hall
  have h : edit Sample.soldDb (Sample.request 2) (some Sample.owner) Sample.ledgerId 1000
      (Sample.correction (some 41)) = (.ok (), Sample.correctedDb (some 41)) :=
    Prod.ext (by decide +kernel) rfl
  have hstored := (hall _ _ _ _ _ _ _ (Sample.march 12) (Sample.correctionLines (some 41)) rfl rfl
    h).stored
  have hpostings : ((Sample.correctedDb (some 41)).books.postingsOf
      ((Sample.request 2).txnId 1)).map Posting.costCenterId = [none, none] := by decide +kernel
  generalize (Sample.correctedDb (some 41)).books.postingsOf ((Sample.request 2).txnId 1) = ps
    at hstored hpostings
  cases hstored with
  | cons _ hrest =>
    cases hrest with
    | cons hincome hnone =>
      cases hnone
      have hcenter := hincome.costCenterId
      rw [(List.cons.inj (List.cons.inj hpostings).2).1] at hcenter
      cases hcenter

end TransactionsEdit

end OpenAccounting
