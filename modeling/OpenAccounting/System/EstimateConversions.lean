import OpenAccounting.Handlers.Estimates
import OpenAccounting.Lib.Threads
import OpenAccounting.System.JournalOps

/-!
# Conversions of one estimate

Calls of `convert` on one estimate run interleaved.  Each claims the estimate with one statement,
and copies it to an invoice with one transaction; either may fail, or be executed with its answer
lost.

The claim is committed before the transaction begins.  It is made at most once, so there is at most
one invoice.  But nothing takes it back: when its answer is lost, or the transaction fails, the
estimate is converted for good and there is no invoice.
-/

namespace OpenAccounting.Estimates

open Calendar Commit Relational Rounding

/-! ## The copy -/

/-- The columns hold the amounts of the line. -/
def Fits (l : InvoiceLine) : Prop :=
  numeric 12 4 l.quantity = some l.quantity ∧ amountColumn l.unitPrice = some l.unitPrice ∧
    amountColumn l.amount = some l.amount

instance : DecidablePred Fits := fun _ => by
  unfold Fits
  infer_instance

/-- The copies of the lines. -/
def copied (req : Request) : ℕ → List InvoiceLine → List InvoiceLine
  | _, [] => []
  | k, l :: ls =>
    { l with id := req.rowId (k + 1), invoiceId := req.rowId 0 } :: copied req (k + 1) ls

/-- The ids drawn for the rows are new. -/
def NewLines (old new : List InvoiceLine) : Prop :=
  (new.map InvoiceLine.id).Nodup ∧ ∀ l ∈ new, ∀ m ∈ old, m.id ≠ l.id

instance (old new : List InvoiceLine) : Decidable (NewLines old new) := by
  unfold NewLines
  infer_instance

/-- The database with more lines. -/
def addLines (db : Db) (rows : List InvoiceLine) : Db :=
  { db with invoiceLines := db.invoiceLines ++ rows }

/-- The database with one more document. -/
def addInvoice (db : Db) (i : Invoice) : Db := { db with invoices := db.invoices ++ [i] }

theorem addLines_nil (db : Db) : addLines db [] = db := by
  rw [addLines, List.append_nil]

theorem addLines_append (db : Db) (rows rows' : List InvoiceLine) :
    addLines (addLines db rows) rows' = addLines db (rows ++ rows') := by
  simp only [addLines, List.append_assoc]

theorem insertInvoiceLine_eq_ok {db db' : Db} {l : InvoiceLine} (hfits : Fits l)
    (hinvoice : ∃ i ∈ db.invoices, i.id = l.invoiceId) :
    db.insertInvoiceLine l = .ok db' ↔
      (∀ m ∈ db.invoiceLines, m.id ≠ l.id) ∧ db' = addLines db [l] := by
  simp only [Db.insertInvoiceLine, bind_eq_ok, ensure_eq_ok, okOr_eq_ok, hfits.1, hfits.2.1,
    hfits.2.2, Option.some.injEq, Except.ok.injEq, exists_eq_left', hinvoice, true_and,
    exists_const, not_exists, not_and]
  exact and_congr_right fun _ => eq_comm

/-- The lines of the estimate are copied exactly if the ids drawn for them are new. -/
theorem copyLines_eq_ok {req : Request} {ls : List InvoiceLine} (hfits : ∀ l ∈ ls, Fits l) :
    ∀ {k : ℕ} {db db' : Db}, (∃ i ∈ db.invoices, i.id = req.rowId 0) →
      (copyLines req k db ls = .ok db' ↔
        NewLines db.invoiceLines (copied req k ls) ∧ db' = addLines db (copied req k ls)) := by
  induction ls with
  | nil =>
    intro k db db' _
    rw [copied, addLines_nil, copyLines, Except.ok.injEq, eq_comm]
    exact (and_iff_right ⟨List.nodup_nil, fun _ h => nomatch h⟩).symm
  | cons l ls ih =>
    intro k db db' hinvoice
    obtain ⟨hl, hls⟩ := List.forall_mem_cons.mp hfits
    let new : InvoiceLine := { l with id := req.rowId (k + 1), invoiceId := req.rowId 0 }
    have hnew : Fits new := hl
    have hinvoice' : ∃ i ∈ (addLines db [new]).invoices, i.id = req.rowId 0 := hinvoice
    rw [copyLines, bind_eq_ok]
    constructor
    · rintro ⟨db₁, hfirst, hrest⟩
      obtain ⟨hfresh, rfl⟩ := (insertInvoiceLine_eq_ok hnew hinvoice).mp hfirst
      obtain ⟨⟨hnodup, hothers⟩, rfl⟩ := (ih hls hinvoice').mp hrest
      refine ⟨⟨List.nodup_cons.mpr ⟨fun hmem => ?_, hnodup⟩, ?_⟩, addLines_append db [new] _⟩
      · obtain ⟨m, hm, hid⟩ := List.mem_map.mp hmem
        exact hothers m hm new (List.mem_append_right _ (List.mem_singleton_self new)) hid.symm
      · rw [copied, List.forall_mem_cons]
        exact ⟨hfresh, fun m hm o ho => hothers m hm o (List.mem_append_left _ ho)⟩
    · rintro ⟨⟨hnodup, hothers⟩, rfl⟩
      obtain ⟨hhead, htail⟩ := List.nodup_cons.mp hnodup
      obtain ⟨hfresh, hrest⟩ := List.forall_mem_cons.mp hothers
      refine ⟨addLines db [new], (insertInvoiceLine_eq_ok hnew hinvoice).mpr ⟨hfresh, rfl⟩,
        (ih hls hinvoice').mpr ⟨⟨htail, fun m hm o ho => ?_⟩, (addLines_append db [new] _).symm⟩⟩
      rcases List.mem_append.mp ho with ho | ho
      · exact hrest m hm o ho
      · rw [List.mem_singleton.mp ho]
        exact fun hid => hhead (hid ▸ List.mem_map_of_mem hm)

/-- The keys and the column types of the documents. -/
structure Orderly (db : Db) : Prop where
  invoice_ids : (db.invoices.map Invoice.id).Nodup
  line_fk : ∀ l ∈ db.invoiceLines, ∃ i ∈ db.invoices, i.id = l.invoiceId
  line_amounts : ∀ l ∈ db.invoiceLines, Fits l

/-- The row is an estimate of a ledger, to a contact, and has no number yet. -/
structure Ready (db : Db) (ledger : Uuid) (e : Invoice) : Prop extends Orderly db where
  mem : e ∈ db.invoices
  ledger_eq : e.ledgerId = ledger
  estimate : e.docKind = .estimate
  number : e.invoiceNumber = none
  has_ledger : db.HasLedger ledger
  has_contact : ∃ c ∈ db.contacts, c.id = e.contactId
  total : amountColumn e.total = some e.total

/-- The ids drawn for the invoice and its lines are new. -/
def Fresh (db : Db) (req : Request) (estimate : Uuid) : Prop :=
  (∀ i ∈ db.invoices, i.id ≠ req.rowId 0) ∧
    NewLines db.invoiceLines (copied req 0 (linesOf db estimate))

instance (db : Db) (req : Request) (estimate : Uuid) : Decidable (Fresh db req estimate) := by
  unfold Fresh
  infer_instance

/-- The database with the invoice and its lines. -/
def converted (db : Db) (req : Request) (ledger : Uuid) (e : Invoice) : Db :=
  addLines (addInvoice db (convertedRow req ledger (claimedOf e)))
    (copied req 0 (linesOf db e.id))

theorem insertInvoice_eq_ok {db db' : Db} {i : Invoice} (hledger : db.HasLedger i.ledgerId)
    (hcontact : ∃ c ∈ db.contacts, c.id = i.contactId)
    (htotal : amountColumn i.total = some i.total) (hnumber : i.invoiceNumber = none) :
    db.insertInvoice i = .ok db' ↔ (∀ j ∈ db.invoices, j.id ≠ i.id) ∧ db' = addInvoice db i := by
  simp only [Db.insertInvoice, bind_eq_ok, ensure_eq_ok, okOr_eq_ok]
  constructor
  · rintro ⟨-, -, -, -, total, hcolumn, -, hfresh, -, -, h⟩
    cases htotal.symm.trans hcolumn
    cases h
    exact ⟨fun j hj hid => hfresh ⟨j, hj, hid⟩, rfl⟩
  · rintro ⟨hfresh, rfl⟩
    refine ⟨(), hledger, (), hcontact, _, htotal, (), ?_, (), ?_, rfl⟩
    · rintro ⟨j, hj, hid⟩
      exact hfresh j hj hid
    · rintro ⟨j, -, hany, -⟩
      rw [hnumber] at hany
      cases hany

theorem insertConverted_eq_ok {db db' : Db} {req : Request} {ledger id : Uuid} {e : Invoice}
    (h : Ready db ledger e) :
    insertConverted db req ledger e.id (claimedOf e) = .ok (id, db') ↔
      Fresh db req e.id ∧ id = req.rowId 0 ∧ db' = converted db req ledger e := by
  have hfits : ∀ l ∈ linesOf db e.id, Fits l := fun l hl =>
    h.line_amounts l (List.mem_filter.mp (mem_orderBy.mp hl)).1
  have hinsert : ∀ db₁, db.insertInvoice (convertedRow req ledger (claimedOf e)) = .ok db₁ ↔
      (∀ j ∈ db.invoices, j.id ≠ req.rowId 0) ∧
        db₁ = addInvoice db (convertedRow req ledger (claimedOf e)) := fun db₁ =>
    insertInvoice_eq_ok h.has_ledger h.has_contact h.total h.number
  have hnew : ∃ i ∈ (addInvoice db (convertedRow req ledger (claimedOf e))).invoices,
      i.id = req.rowId 0 :=
    ⟨_, List.mem_append_right _ (List.mem_singleton_self _), rfl⟩
  simp only [insertConverted, bind_eq_ok, mapError_eq_ok, hinsert, Except.ok.injEq]
  constructor
  · rintro ⟨_, ⟨hfresh, rfl⟩, db₂, hcopy, hpair⟩
    obtain ⟨hlines, rfl⟩ := (copyLines_eq_ok hfits hnew).mp hcopy
    cases hpair
    exact ⟨⟨hfresh, hlines⟩, rfl, rfl⟩
  · rintro ⟨⟨hfresh, hlines⟩, rfl, rfl⟩
    exact ⟨_, ⟨hfresh, rfl⟩, _, (copyLines_eq_ok hfits hnew).mpr ⟨hlines, rfl⟩, rfl⟩

/-! ## The claim -/

/-- The caller may write, and the estimate can be claimed. -/
def Claims (db : Db) (auth : Option Uuid) (ledger estimate : Uuid) : Prop :=
  (auth.any fun user => (db.ensureWriter user ledger).isOk) ∧
    ∃ i ∈ db.invoices, Convertible ledger estimate i

instance (db : Db) (auth : Option Uuid) (ledger estimate : Uuid) :
    Decidable (Claims db auth ledger estimate) := by
  unfold Claims
  infer_instance

/-- The estimate when it is claimed. -/
def claimedRow (e : Invoice) : Invoice := { e with status := .converted }

section Claim

variable {db : Db} {ledger : Uuid} {e : Invoice}

theorem Ready.eq_of_id (h : Ready db ledger e) {i : Invoice} (hi : i ∈ db.invoices)
    (hid : i.id = e.id) : i = e :=
  List.inj_on_of_nodup_map h.invoice_ids hi h.mem hid

theorem claim_of_claims (h : Ready db ledger e) {auth : Option Uuid}
    (hclaims : Claims db auth ledger e.id) :
    claim db auth ledger e.id = .ok (claimedOf e, markConverted db ledger e.id) := by
  obtain ⟨hauth, i, hi, hconvertible⟩ := hclaims
  obtain ⟨user, rfl, hwriter⟩ := (Option.any_eq_true _ _).mp hauth
  obtain ⟨l, hl⟩ := exists_ok_of_isOk hwriter
  have hfind : ∃ found, db.invoices.find? (fun i => Convertible ledger e.id i) = some found :=
    Option.isSome_iff_exists.mp (List.find?_isSome.mpr ⟨i, hi, decide_eq_true hconvertible⟩)
  obtain ⟨found, hfound⟩ := hfind
  have hfits : Convertible ledger e.id found := by simpa using List.find?_some hfound
  have hrow : found = e := h.eq_of_id (List.mem_of_find?_eq_some hfound) hfits.1
  subst hrow
  simp only [claim, bind_eq_ok, okOr_eq_ok]
  exact ⟨user, rfl, l, hl, found, hfound, rfl⟩

theorem claim_of_not_claims {auth : Option Uuid} {estimate : Uuid}
    (h : ¬ Claims db auth ledger estimate) : ∃ err, claim db auth ledger estimate = .error err := by
  cases hresult : claim db auth ledger estimate with
  | error err => exact ⟨err, rfl⟩
  | ok r =>
    simp only [claim, bind_eq_ok, okOr_eq_ok] at hresult
    obtain ⟨user, rfl, l, hwriter, found, hfound, -⟩ := hresult
    refine absurd ⟨?_, found, List.mem_of_find?_eq_some hfound,
      by simpa using List.find?_some hfound⟩ h
    rw [Option.any_some, hwriter]
    rfl

theorem not_convertible_of_mem {estimate : Uuid} :
    ∀ i ∈ (markConverted db ledger estimate).invoices, ¬ Convertible ledger estimate i := by
  intro i hi hconvertible
  obtain ⟨j, -, rfl⟩ := List.mem_map.mp hi
  split at hconvertible
  · exact hconvertible.2.2.2.1 rfl
  · next hnot => exact hnot hconvertible

theorem mem_markConverted (h : Ready db ledger e) (hconvertible : Convertible ledger e.id e) :
    claimedRow e ∈ (markConverted db ledger e.id).invoices :=
  List.mem_map.mpr ⟨e, h.mem, if_pos hconvertible⟩

theorem markConverted_ids (estimate : Uuid) :
    (markConverted db ledger estimate).invoices.map Invoice.id = db.invoices.map Invoice.id := by
  have hkey : ∀ i : Invoice, Invoice.id { i with status := .converted } = i.id := fun _ => rfl
  exact map_key_updateWhere (p := Convertible ledger estimate) hkey

theorem Ready.claimed (h : Ready db ledger e) (hconvertible : Convertible ledger e.id e) :
    Ready (markConverted db ledger e.id) ledger (claimedRow e) where
  mem := mem_markConverted h hconvertible
  ledger_eq := h.ledger_eq
  estimate := h.estimate
  number := h.number
  invoice_ids := by
    rw [markConverted_ids]
    exact h.invoice_ids
  has_ledger := h.has_ledger
  has_contact := h.has_contact
  total := h.total
  line_fk := by
    intro l hl
    obtain ⟨i, hi, hid⟩ := h.line_fk l hl
    have hmem : i.id ∈ (markConverted db ledger e.id).invoices.map Invoice.id := by
      rw [markConverted_ids]
      exact List.mem_map_of_mem hi
    obtain ⟨j, hj, hij⟩ := List.mem_map.mp hmem
    exact ⟨j, hj, hij.trans hid⟩
  line_amounts := h.line_amounts

end Claim

/-! ## What the copy is -/

/-- A line apart from its place. -/
def content (l : InvoiceLine) : String × ℚ × ℚ × ℚ × ℤ :=
  (l.description, l.quantity, l.unitPrice, l.amount, l.sortOrder)

/-- The documents have the same contact, dates, total and lines. -/
def CopyOf (db : Db) (e i : Invoice) : Prop :=
  i.contactId = e.contactId ∧ i.invoiceDate = e.invoiceDate ∧ i.dueDate = e.dueDate ∧
    i.total = e.total ∧ (linesOf db i.id).map content = (linesOf db e.id).map content

/-- The invoices that are there now and were not before. -/
def created (before db : Db) : List Invoice :=
  db.invoices.filter fun i => i.docKind = .invoice ∧ i.id ∉ before.invoices.map Invoice.id

theorem map_content_copied (req : Request) (ls : List InvoiceLine) (k : ℕ) :
    (copied req k ls).map content = ls.map content := by
  induction ls generalizing k with
  | nil => rfl
  | cons l ls ih => rw [copied, List.map_cons, ih, List.map_cons]; rfl

theorem invoiceId_of_copied {req : Request} {ls : List InvoiceLine} {k : ℕ} :
    ∀ l ∈ copied req k ls, l.invoiceId = req.rowId 0 := by
  induction ls generalizing k with
  | nil => exact fun _ h => nomatch h
  | cons l ls ih => exact List.forall_mem_cons.mpr ⟨rfl, ih⟩

section Copy

variable {db : Db} {ledger : Uuid} {e : Invoice} {req : Request}

theorem linesOf_converted (hfresh : Fresh db req e.id) (h : Ready db ledger e) :
    linesOf (converted db req ledger e) e.id = linesOf db e.id := by
  have hnone : (copied req 0 (linesOf db e.id)).filter (fun l => l.invoiceId = e.id) = [] := by
    rw [List.filter_eq_nil_iff]
    intro l hl hid
    exact hfresh.1 e h.mem ((of_decide_eq_true hid).symm.trans (invoiceId_of_copied l hl))
  rw [linesOf, converted, addLines, List.filter_append, hnone, List.append_nil]
  rfl

theorem linesOf_new (hfresh : Fresh db req e.id) (h : Ready db ledger e) :
    linesOf (converted db req ledger e) (req.rowId 0) = copied req 0 (linesOf db e.id) := by
  have hnone : db.invoiceLines.filter (fun l => l.invoiceId = req.rowId 0) = [] := by
    rw [List.filter_eq_nil_iff]
    intro l hl hid
    obtain ⟨i, hi, hline⟩ := h.line_fk l hl
    exact hfresh.1 i hi (hline.trans (of_decide_eq_true hid))
  have hall : (copied req 0 (linesOf db e.id)).filter (fun l => l.invoiceId = req.rowId 0) =
      copied req 0 (linesOf db e.id) :=
    List.filter_eq_self.mpr fun l hl => decide_eq_true (invoiceId_of_copied l hl)
  have hsorted : (copied req 0 (linesOf db e.id)).Pairwise
      fun a b => a.sortOrder ≤ b.sortOrder := by
    have hcontents : ((copied req 0 (linesOf db e.id)).map content).Pairwise
        fun a b => a.2.2.2.2 ≤ b.2.2.2.2 := by
      rw [map_content_copied, List.pairwise_map]
      exact pairwise_orderBy InvoiceLine.sortOrder _
    have hcopies := List.pairwise_map.mp hcontents
    exact hcopies
  show orderBy InvoiceLine.sortOrder
    ((db.invoiceLines ++ copied req 0 (linesOf db e.id)).filter _) = _
  rw [List.filter_append, hnone, hall, List.nil_append, orderBy]
  exact hsorted.insertionSort_eq

theorem copyOf_converted (hfresh : Fresh db req e.id) (h : Ready db ledger e) :
    CopyOf (converted db req ledger e) e (convertedRow req ledger (claimedOf e)) := by
  refine ⟨rfl, rfl, rfl, rfl, ?_⟩
  show (linesOf _ (req.rowId 0)).map content = _
  rw [linesOf_new hfresh h, linesOf_converted hfresh h, map_content_copied]

end Copy

/-! ## The calls -/

/-- Where a call is. -/
inductive Place where
  | start
  /-- The estimate is claimed. -/
  | claimed (c : Claimed)
  | ended (answer : Except ConvertError Uuid)

/-- One action of a call. -/
inductive Action where
  | claim (auth : Option Uuid) (o : Outcome)
  | insert (req : Request) (o : Outcome)

/-- The statements of `convert`. -/
def act (ledger estimate : Uuid) (_ : ℕ) (db : Db) : Place → Action → Db × Place
  | .start, .claim auth o =>
    match claimAs o db auth ledger estimate with
    | (.ok c, db') => (db', .claimed c)
    | (.error e, db') => (db', .ended (.error e))
  | .claimed c, .insert req o =>
    let (answer, db') := insertAs o db req ledger estimate c
    (db', .ended answer)
  | place, _ => (db, place)

/-- Everything that is under way. -/
abbrev State := Threads.State ℕ Db Place

/-- A call takes its next action. -/
def step (ledger estimate : Uuid) : State → ℕ × Action → State := Threads.step (act ledger estimate)

/-- No call has begun. -/
def start (db : Db) : State := ⟨db, fun _ => .start⟩

/-- The call is not between its two statements. -/
def Place.Idle (p : Place) : Prop := ∀ c, p ≠ .claimed c

/-- While no call is between its statements, the estimate is converted just when a copy of it has
been created. -/
def Atomic (before : Db) (estimate : Uuid) (s : State) : Prop :=
  (∀ n, (s.place n).Idle) →
    ((∃ e ∈ s.shared.invoices, e.id = estimate ∧ e.status = .converted) ↔
      ∃ e ∈ s.shared.invoices, e.id = estimate ∧ ∃ i ∈ created before s.shared, CopyOf s.shared e i)

/-- A claim that is executed is answered, and the transaction after it goes through: it does not
fail, and the ids drawn for its rows are new. -/
def Completed (ledger estimate : Uuid) (s : State) (m : ℕ × Action) : Prop :=
  match s.place m.1, m.2 with
  | .start, .claim auth o => Claims s.shared auth ledger estimate → o ≠ .lost
  | .claimed _, .insert req o => o ≠ .failed ∧ Fresh s.shared req estimate
  | _, _ => True

instance (ledger estimate : Uuid) (s : State) (m : ℕ × Action) :
    Decidable (Completed ledger estimate s m) := by
  unfold Completed
  split <;> infer_instance

theorem convert_alone (db : Db) (req : Request) (auth : Option Uuid) (ledger estimate : Uuid)
    (claimed inserted : Outcome) :
    ([Action.claim auth claimed, .insert req inserted].foldl
        (fun c a => act ledger estimate 0 c.1 c.2 a) (db, .start)) =
      ((convert claimed inserted db req auth ledger estimate).2,
        .ended (convert claimed inserted db req auth ledger estimate).1) := by
  simp only [List.foldl_cons, List.foldl_nil, act, convert]
  rcases claimAs claimed db auth ledger estimate with ⟨answer, db'⟩
  cases answer with
  | error e => rfl
  | ok c => rfl

/-! ## The phases of an estimate -/

/-- The estimate is converted, and no call will create its invoice. -/
structure Stuck (db : Db) (ledger : Uuid) (e : Invoice) (s : State) : Prop where
  convertible : Convertible ledger e.id e
  shared : s.shared = markConverted db ledger e.id
  idle : ∀ n, (s.place n).Idle

/-- How far the conversion of the estimate is. -/
inductive Phase (db : Db) (ledger : Uuid) (e : Invoice) : State → Prop where
  | unclaimed {s : State} (shared : s.shared = db) (idle : ∀ n, (s.place n).Idle) :
      Phase db ledger e s
  | held {s : State} (convertible : Convertible ledger e.id e)
      (shared : s.shared = markConverted db ledger e.id) (n : ℕ)
      (place : s.place n = .claimed (claimedOf e)) (idle : ∀ m, m ≠ n → (s.place m).Idle) :
      Phase db ledger e s
  | made {s : State} (convertible : Convertible ledger e.id e) (req : Request)
      (fresh : Fresh (markConverted db ledger e.id) req e.id)
      (shared : s.shared = converted (markConverted db ledger e.id) req ledger (claimedRow e))
      (idle : ∀ n, (s.place n).Idle) : Phase db ledger e s

section Phases

variable {db : Db} {ledger : Uuid} {e : Invoice} {s : State}

theorem idle_start : Place.start.Idle := fun _ h => nomatch h

theorem idle_ended (answer : Except ConvertError Uuid) : (Place.ended answer).Idle :=
  fun _ h => nomatch h

variable {n : ℕ} {auth : Option Uuid}

theorem idle_update {m : ℕ} {place : ℕ → Place} {p : Place} (hother : m ≠ n → (place m).Idle)
    (hown : m = n → p.Idle) : (Function.update place n p m).Idle := by
  by_cases hm : m = n
  · subst hm
    rw [Function.update_self]
    exact hown rfl
  · rw [Function.update_of_ne hm]
    exact hother hm

theorem step_eq {a : Action} {db' : Db} {p : Place}
    (h : act ledger e.id n s.shared (s.place n) a = (db', p)) :
    step ledger e.id s (n, a) = ⟨db', Function.update s.place n p⟩ := by
  rw [step, Threads.step, h]

theorem act_claim_of_not {db : Db} {estimate : Uuid} {o : Outcome}
    (h : ¬ Claims db auth ledger estimate) :
    ∃ answer, act ledger estimate n db .start (.claim auth o) = (db, .ended answer) := by
  obtain ⟨err, herr⟩ := claim_of_not_claims h
  refine ⟨.error (.app err), ?_⟩
  simp only [act, claimAs, herr, mapError, commitAs]

theorem act_claim (h : Ready db ledger e) (hclaims : Claims db auth ledger e.id) (o : Outcome) :
    act ledger e.id n db .start (.claim auth o) =
      match o with
      | .done => (markConverted db ledger e.id, .claimed (claimedOf e))
      | .failed => (db, .ended (.error .unanswered))
      | .lost => (markConverted db ledger e.id, .ended (.error .unanswered)) := by
  simp only [act, claimAs, claim_of_claims h hclaims, mapError]
  cases o <;> rfl

theorem act_insert (h : Ready db ledger e) {req : Request} (hfresh : Fresh db req e.id)
    (o : Outcome) :
    act ledger e.id n db (.claimed (claimedOf e)) (.insert req o) =
      match o with
      | .done => (converted db req ledger e, .ended (.ok (req.rowId 0)))
      | .failed => (db, .ended (.error .unanswered))
      | .lost => (converted db req ledger e, .ended (.error .unanswered)) := by
  have hinsert := (insertConverted_eq_ok h).mpr ⟨hfresh, rfl, rfl⟩
  simp only [act, insertAs, hinsert, mapError]
  cases o <;> rfl

theorem act_insert_of_not (h : Ready db ledger e) {req : Request} {o : Outcome}
    (hfresh : ¬ Fresh db req e.id) :
    ∃ answer, act ledger e.id n db (.claimed (claimedOf e)) (.insert req o) =
      (db, .ended answer) := by
  cases hresult : insertConverted db req ledger e.id (claimedOf e) with
  | error err =>
    refine ⟨.error (.app err), ?_⟩
    simp only [act, insertAs, hresult, mapError, commitAs]
  | ok r => exact absurd ((insertConverted_eq_ok h).mp hresult).1 hfresh

theorem act_quiet {a : Action} (hidle : (s.place n).Idle)
    (hno : ∀ auth o, s.place n = .start → a = .claim auth o →
      ¬ Claims s.shared auth ledger e.id) :
    Completed ledger e.id s (n, a) ∧
      ∃ p, p.Idle ∧ act ledger e.id n s.shared (s.place n) a = (s.shared, p) := by
  cases hplace : s.place n with
  | start =>
    cases a with
    | claim auth o =>
      have hnot := hno auth o hplace rfl
      obtain ⟨answer, hact⟩ := act_claim_of_not hnot (n := n) (o := o)
      refine ⟨?_, _, idle_ended answer, hact⟩
      rw [Completed, hplace]
      exact fun hclaims => absurd hclaims hnot
    | insert req o =>
      refine ⟨?_, _, idle_start, rfl⟩
      rw [Completed, hplace]
      trivial
  | claimed c => exact absurd hplace (hidle c)
  | ended answer =>
    refine ⟨?_, _, idle_ended answer, by cases a <;> rfl⟩
    rw [Completed, hplace]
    trivial

theorem not_claims_claimed :
    ¬ Claims (markConverted db ledger e.id) auth ledger e.id := fun ⟨_, i, hi, hconvertible⟩ =>
  not_convertible_of_mem i hi hconvertible

theorem not_claims_converted {req : Request} {row : Invoice} :
    ¬ Claims (converted (markConverted db ledger e.id) req ledger row) auth ledger e.id := by
  rintro ⟨_, i, hi, hconvertible⟩
  rcases List.mem_append.mp hi with hi | hi
  · exact not_convertible_of_mem i hi hconvertible
  · rw [List.mem_singleton.mp hi] at hconvertible
    exact nomatch hconvertible.2.2.1

theorem convertible_of_claims (h : Ready db ledger e) (hclaims : Claims db auth ledger e.id) :
    Convertible ledger e.id e := by
  obtain ⟨-, i, hi, hconvertible⟩ := hclaims
  exact h.eq_of_id hi hconvertible.1 ▸ hconvertible

/-- A claim that is not completed leaves the estimate stuck. -/
theorem claim_phase (h : Ready db ledger e) (hshared : s.shared = db)
    (hidle : ∀ n, (s.place n).Idle) (hplace : s.place n = .start)
    (hclaims : Claims db auth ledger e.id) (o : Outcome) :
    (Completed ledger e.id s (n, .claim auth o) ∧
        Phase db ledger e (step ledger e.id s (n, .claim auth o))) ∨
      (¬ Completed ledger e.id s (n, .claim auth o) ∧
        Stuck db ledger e (step ledger e.id s (n, .claim auth o))) := by
  have hconvertible := convertible_of_claims h hclaims
  have hact := act_claim h (n := n) hclaims o
  rw [← hplace, ← hshared] at hact
  have hcompleted : Completed ledger e.id s (n, .claim auth o) ↔ o ≠ .lost := by
    rw [Completed, hplace, hshared]
    exact ⟨fun hc => hc hclaims, fun ho _ => ho⟩
  rw [hcompleted]
  cases o with
  | done =>
    refine Or.inl ⟨by decide, ?_⟩
    rw [step_eq hact, hshared]
    exact .held hconvertible rfl n (Function.update_self ..) fun m hm =>
      idle_update (fun _ => hidle m) fun h => absurd h hm
  | failed =>
    refine Or.inl ⟨by decide, ?_⟩
    rw [step_eq hact]
    exact .unclaimed hshared fun m => idle_update (fun _ => hidle m) fun _ => idle_ended _
  | lost =>
    refine Or.inr ⟨by decide, ?_⟩
    rw [step_eq hact, hshared]
    exact ⟨hconvertible, rfl, fun m => idle_update (fun _ => hidle m) fun _ => idle_ended _⟩

/-- So does the insert behind it. -/
theorem insert_phase (h : Ready db ledger e) (hconvertible : Convertible ledger e.id e)
    (hshared : s.shared = markConverted db ledger e.id)
    (hplace : s.place n = .claimed (claimedOf e)) (hidle : ∀ m, m ≠ n → (s.place m).Idle)
    (req : Request) (o : Outcome) :
    (Completed ledger e.id s (n, .insert req o) ∧
        Phase db ledger e (step ledger e.id s (n, .insert req o))) ∨
      (¬ Completed ledger e.id s (n, .insert req o) ∧
        Stuck db ledger e (step ledger e.id s (n, .insert req o))) := by
  have hready := h.claimed hconvertible
  have hcompleted : Completed ledger e.id s (n, .insert req o) ↔
      o ≠ .failed ∧ Fresh (markConverted db ledger e.id) req e.id := by
    rw [Completed, hplace, hshared]
  rw [hcompleted]
  by_cases hfresh : Fresh (markConverted db ledger e.id) req e.id
  · have hact := act_insert hready (n := n) hfresh o
    rw [← hshared] at hact
    change act ledger e.id n s.shared (.claimed (claimedOf e)) (.insert req o) = _ at hact
    rw [← hplace] at hact
    cases o with
    | done =>
      refine Or.inl ⟨⟨by decide, hfresh⟩, ?_⟩
      rw [step_eq hact, hshared]
      exact .made hconvertible req hfresh rfl fun m => idle_update (hidle m) fun _ => idle_ended _
    | failed =>
      refine Or.inr ⟨fun hc => hc.1 rfl, ?_⟩
      rw [step_eq hact]
      exact ⟨hconvertible, hshared, fun m => idle_update (hidle m) fun _ => idle_ended _⟩
    | lost =>
      refine Or.inl ⟨⟨by decide, hfresh⟩, ?_⟩
      rw [step_eq hact, hshared]
      exact .made hconvertible req hfresh rfl fun m => idle_update (hidle m) fun _ => idle_ended _
  · obtain ⟨answer, hact⟩ := act_insert_of_not hready (n := n) (o := o) hfresh
    rw [← hshared] at hact
    change act ledger e.id n s.shared (.claimed (claimedOf e)) (.insert req o) = _ at hact
    rw [← hplace] at hact
    refine Or.inr ⟨fun hc => hfresh hc.2, ?_⟩
    rw [step_eq hact]
    exact ⟨hconvertible, hshared, fun m => idle_update (hidle m) fun _ => idle_ended _⟩

/-- A step that meets the condition leads to a phase, and one that does not is the last of the
estimate. -/
theorem step_phase (h : Ready db ledger e) (hp : Phase db ledger e s) (m : ℕ × Action) :
    (Completed ledger e.id s m ∧ Phase db ledger e (step ledger e.id s m)) ∨
      (¬ Completed ledger e.id s m ∧ Stuck db ledger e (step ledger e.id s m)) := by
  obtain ⟨n, a⟩ := m
  cases hp with
  | unclaimed hshared hidle =>
    by_cases hclaim : ∃ auth o, s.place n = .start ∧ a = .claim auth o ∧
      Claims s.shared auth ledger e.id
    · obtain ⟨auth, o, hplace, rfl, hclaims⟩ := hclaim
      exact claim_phase h hshared hidle hplace (hshared ▸ hclaims) o
    · obtain ⟨hcompleted, p, hp, hact⟩ := act_quiet (a := a) (hidle n)
        fun auth o hplace ha hclaims => hclaim ⟨auth, o, hplace, ha, hclaims⟩
      refine Or.inl ⟨hcompleted, ?_⟩
      rw [step_eq hact]
      exact .unclaimed hshared fun m => idle_update (fun _ => hidle m) fun _ => hp
  | held hconvertible hshared holder hplace hidle =>
    by_cases hn : n = holder
    · subst hn
      cases a with
      | claim auth o =>
        refine Or.inl ⟨?_, ?_⟩
        · rw [Completed, hplace]
          trivial
        · have hact : act ledger e.id n s.shared (s.place n) (.claim auth o) =
              (s.shared, .claimed (claimedOf e)) := by rw [hplace]; rfl
          rw [step_eq hact]
          exact .held hconvertible hshared n (Function.update_self ..) fun m hm =>
            idle_update (hidle m) fun h => absurd h hm
      | insert req o => exact insert_phase h hconvertible hshared hplace hidle req o
    · obtain ⟨hcompleted, p, hp, hact⟩ := act_quiet (a := a) (hidle n hn)
        fun auth o _ _ => hshared ▸ not_claims_claimed
      refine Or.inl ⟨hcompleted, ?_⟩
      rw [step_eq hact]
      exact .held hconvertible hshared holder
        ((Function.update_of_ne (Ne.symm hn) ..).trans hplace) fun m hm =>
          idle_update (fun _ => hidle m hm) fun _ => hp
  | made hconvertible req hfresh hshared hidle =>
    obtain ⟨hcompleted, p, hp, hact⟩ := act_quiet (a := a) (hidle n)
      fun auth o _ _ => hshared ▸ not_claims_converted
    refine Or.inl ⟨hcompleted, ?_⟩
    rw [step_eq hact]
    exact .made hconvertible req hfresh hshared fun m =>
      idle_update (fun _ => hidle m) fun _ => hp

theorem step_stuck (hs : Stuck db ledger e s) (m : ℕ × Action) :
    Stuck db ledger e (step ledger e.id s m) := by
  obtain ⟨-, p, hp, hact⟩ := act_quiet (a := m.2) (hs.idle m.1)
    fun auth o _ _ => hs.shared ▸ not_claims_claimed
  rw [show m = (m.1, m.2) from rfl, step_eq hact]
  exact ⟨hs.convertible, hs.shared, fun m => idle_update (fun _ => hs.idle m) fun _ => hp⟩

end Phases

/-! ## Runs -/

section Runs

variable {db : Db} {ledger : Uuid} {e : Invoice} {s : State}

theorem created_self (db : Db) : created db db = [] := by
  rw [created, List.filter_eq_nil_iff]
  intro i hi hnew
  exact (of_decide_eq_true hnew).2 (List.mem_map_of_mem hi)

theorem created_markConverted (db : Db) (ledger estimate : Uuid) :
    created db (markConverted db ledger estimate) = [] := by
  rw [created, List.filter_eq_nil_iff]
  intro i hi hnew
  refine (of_decide_eq_true hnew).2 ?_
  rw [← @markConverted_ids db ledger estimate]
  exact List.mem_map_of_mem hi

theorem created_converted {req : Request} (hfresh : Fresh (markConverted db ledger e.id) req e.id) :
    created db (converted (markConverted db ledger e.id) req ledger (claimedRow e)) =
      [convertedRow req ledger (claimedOf e)] := by
  have hnew : req.rowId 0 ∉ db.invoices.map Invoice.id := by
    rw [← @markConverted_ids db ledger e.id]
    intro hmem
    obtain ⟨i, hi, hid⟩ := List.mem_map.mp hmem
    exact hfresh.1 i hi hid
  have hold := created_markConverted db ledger e.id
  show ((markConverted db ledger e.id).invoices ++
    [convertedRow req ledger (claimedOf e)]).filter _ = _
  rw [List.filter_append]
  rw [created] at hold
  rw [hold, List.nil_append, List.filter_eq_self, List.forall_mem_singleton]
  exact decide_eq_true ⟨rfl, hnew⟩

theorem created_le_one (hp : Phase db ledger e s ∨ Stuck db ledger e s) :
    (created db s.shared).length ≤ 1 := by
  rcases hp with
    (⟨hshared, -⟩ | ⟨-, hshared, n, -, -⟩ | ⟨-, req, hfresh, hshared, -⟩) | hstuck
  · rw [hshared, created_self]
    exact Nat.zero_le 1
  · rw [hshared, created_markConverted]
    exact Nat.zero_le 1
  · rw [hshared, created_converted hfresh]
    exact le_rfl
  · rw [hstuck.shared, created_markConverted]
    exact Nat.zero_le 1

theorem Phase.atomic (h : Ready db ledger e) (hstatus : e.status ≠ .converted)
    (hp : Phase db ledger e s) : Atomic db e.id s := by
  intro hidle
  cases hp with
  | unclaimed hshared _ =>
    rw [hshared, created_self]
    constructor
    · rintro ⟨i, hi, hid, hconverted⟩
      rw [h.eq_of_id hi hid] at hconverted
      exact absurd hconverted hstatus
    · rintro ⟨_, _, _, i, hi, -⟩
      cases hi
  | held _ _ n hplace _ => exact absurd hplace (hidle n _)
  | made hconvertible req hfresh hshared _ =>
    have hmem : claimedRow e ∈ s.shared.invoices := by
      rw [hshared]
      exact List.mem_append_left _ (mem_markConverted h hconvertible)
    have hcopy := copyOf_converted (e := claimedRow e) hfresh (h.claimed hconvertible)
    rw [← hshared] at hcopy
    refine ⟨fun _ => ⟨claimedRow e, hmem, rfl, _, ?_, hcopy⟩,
      fun _ => ⟨claimedRow e, hmem, rfl, rfl⟩⟩
    rw [hshared, created_converted hfresh]
    exact List.mem_singleton_self _

theorem Stuck.not_atomic (h : Ready db ledger e) (hs : Stuck db ledger e s) :
    ¬ Atomic db e.id s := by
  intro hatomic
  have hmem : claimedRow e ∈ s.shared.invoices := by
    rw [hs.shared]
    exact mem_markConverted h hs.convertible
  obtain ⟨_, _, _, i, hi, -⟩ := (hatomic hs.idle).mp ⟨_, hmem, rfl, rfl⟩
  rw [hs.shared, created_markConverted] at hi
  cases hi

/-- Whatever the interleaving and the failures, one invoice is created at most.  The estimate is
converted just when it is, as long as every executed claim is answered and the transaction after it
goes through, and no longer. -/
theorem once_and_atomic_iff (h : Ready db ledger e) (hstatus : e.status ≠ .converted)
    (actions : List (ℕ × Action)) :
    (∀ s ∈ Runs.visited (step ledger e.id) (start db) actions,
        (created db s.shared).length ≤ 1) ∧
      ((∀ s ∈ Runs.visited (step ledger e.id) (start db) actions, Atomic db e.id s) ↔
        Runs.Meets (step ledger e.id) (Completed ledger e.id) (start db) actions) := by
  have hstart : Phase db ledger e (start db) := .unclaimed rfl fun _ => idle_start
  have hkeeps : ∀ s m, (Phase db ledger e s ∨ Stuck db ledger e s) →
      Phase db ledger e (step ledger e.id s m) ∨ Stuck db ledger e (step ledger e.id s m) := by
    rintro s m (hp | hs)
    · exact (step_phase h hp m).imp And.right And.right
    · exact Or.inr (step_stuck hs m)
  constructor
  · exact fun s hs => created_le_one (Runs.invariant hkeeps actions (Or.inl hstart) s hs)
  · refine Runs.forall_visited_iff_meets hkeeps (fun s m hp hatomic => ?_) (Or.inl hstart)
      (hstart.atomic h hstatus)
    rcases hp with hp | hs
    · rcases step_phase h hp m with ⟨hcompleted, hnext⟩ | ⟨hfailed, hnext⟩
      · exact ⟨fun _ => hcompleted, fun _ => hnext.atomic h hstatus⟩
      · exact ⟨fun hn => absurd hn (hnext.not_atomic h), fun hc => absurd hc hfailed⟩
    · exact absurd hatomic (hs.not_atomic h)

end Runs

namespace Sample

open OpenAccounting.Sample

def estimate : Invoice where
  id := 41
  ledgerId := ledgerId
  contactId := 31
  kind := .receivable
  docKind := .estimate
  invoiceDate := march 1
  dueDate := march 10
  total := 50
  status := .draft

def work : InvoiceLine where
  id := 51
  invoiceId := 41
  description := "Work"
  quantity := 1
  unitPrice := 50
  amount := 50

def quoted : Db :=
  { OpenAccounting.Sample.db with
    contacts := [{ id := 31, ledgerId := ledgerId }]
    invoices := [estimate]
    invoiceLines := [work] }

theorem quoted_ready : Ready quoted ledgerId estimate where
  invoice_ids := by decide
  line_fk := by simp [quoted, work, estimate]
  line_amounts := by decide +kernel
  mem := List.mem_singleton_self _
  ledger_eq := rfl
  estimate := rfl
  number := rfl
  has_ledger := by decide
  has_contact := ⟨_, List.mem_singleton_self _, rfl⟩
  total := by decide +kernel

/-- A call whose transaction fails. -/
def failing : List (ℕ × Action) :=
  [(0, .claim (some owner) .done), (0, .insert (request 1) .failed)]

/-- A claim fails, and the two calls after it overlap. -/
def overlapping : List (ℕ × Action) :=
  [(0, .claim (some owner) .failed), (1, .claim (some owner) .done),
    (2, .claim (some owner) .done), (1, .insert (request 1) .done)]

end Sample

/-- The estimate is converted, there is no invoice, and the conversion cannot be repeated. -/
theorem failing_not_atomic :
    Ready Sample.quoted Sample.ledgerId Sample.estimate ∧ Sample.estimate.status ≠ .converted ∧
      ¬ Atomic Sample.quoted Sample.estimate.id (Runs.exec
        (step Sample.ledgerId Sample.estimate.id) (start Sample.quoted) Sample.failing) ∧
      (convert .done .done (Runs.exec (step Sample.ledgerId Sample.estimate.id)
        (start Sample.quoted) Sample.failing).shared (Sample.request 2) (some Sample.owner)
        Sample.ledgerId Sample.estimate.id).1 =
          .error (.app (.conflict "estimate already converted or declined")) := by
  refine ⟨Sample.quoted_ready, by decide, fun hatomic => ?_, by decide +kernel⟩
  have hidle : ∀ n, ((Runs.exec (step Sample.ledgerId Sample.estimate.id) (start Sample.quoted)
      Sample.failing).place n).Idle := by
    intro n
    cases n with
    | zero => exact idle_ended _
    | succ n => exact idle_start
  obtain ⟨_, _, _, i, hi, -⟩ := (hatomic hidle).mp
    ⟨claimedRow Sample.estimate, by decide +kernel, rfl, rfl⟩
  have hnone : created Sample.quoted (Runs.exec (step Sample.ledgerId Sample.estimate.id)
      (start Sample.quoted) Sample.failing).shared = [] := by decide +kernel
  rw [hnone] at hi
  cases hi

theorem once_and_atomic_iff_overlapping :
    Atomic Sample.quoted Sample.estimate.id (Runs.exec
      (step Sample.ledgerId Sample.estimate.id) (start Sample.quoted) Sample.overlapping) := by
  have hmeets : Runs.Meets (step Sample.ledgerId Sample.estimate.id)
      (Completed Sample.ledgerId Sample.estimate.id) (start Sample.quoted) Sample.overlapping := by
    refine ⟨?_, ?_, ?_, ?_, trivial⟩ <;> decide
  exact (once_and_atomic_iff Sample.quoted_ready (by decide) Sample.overlapping).2.mpr hmeets _
    (Runs.exec_mem_visited _ _)

end OpenAccounting.Estimates
