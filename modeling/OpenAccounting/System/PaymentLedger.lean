import OpenAccounting.Handlers.Payments
import OpenAccounting.System.JournalOps

/-!
# Paid amounts

An invoice keeps what it has been paid in `amount_paid`, and each payment names the invoice it pays.
Four operations write the two sides: `create` and `apply` of the web handlers, `create` of the API
and `void`.

They stay in step exactly as long as `apply` is given payments that pay no invoice yet, and the API
links payments only to open invoices of the ledger.  `apply` does not look at the invoice that a
payment leaves, and the API adds nothing to an invoice that is neither open nor overdue.
-/

namespace OpenAccounting.Payments

open Commit Relational Rounding

inductive Op where
  | create (req : Request) (auth : Option Uuid) (ledger : Uuid) (form : NewPaymentForm)
  | apply (auth : Option Uuid) (ledger payment : Uuid) (invoice : Option (Option Uuid))
  | apiCreate (req : Request) (user ledger : Uuid)
      (parsed : Except String Api.Payments.CreatePaymentBody)
  | void (auth : Option Uuid) (ledger invoice : Uuid) (form : Invoices.VoidInvoiceForm)

/-- The database after a request. -/
def step (db : Db) : Op → Db
  | .create req auth ledger form => (create db req auth ledger form).2
  | .apply auth ledger payment invoice => (apply db auth ledger payment invoice).2
  | .apiCreate req user ledger parsed => (Api.Payments.create db req user ledger parsed).2
  | .void auth ledger invoice form => (Invoices.void db auth ledger invoice form).2

def linked (db : Db) (invoice : Uuid) : ℚ :=
  ((db.payments.filter fun p => p.invoiceId = some invoice).map Payment.amount).sum

/-- Every invoice has been paid its payments. -/
def InStep (db : Db) : Prop := ∀ i ∈ db.invoices, i.amountPaid = linked db i.id

/-! ## The condition -/

/-- `apply` is accepted for the payment `p` and the invoice `i`. -/
def Applies (db : Db) (auth : Option Uuid) (ledger payment : Uuid) (invoice : Option (Option Uuid))
    (p : Payment) (i : Invoice) : Prop :=
  (auth.any fun user => (db.ensureWriter user ledger).isOk) ∧ p.id = payment ∧
    invoice = some (some i.id) ∧ i.total ≤ i.amountPaid + p.amount ∧
    (amountColumn (i.amountPaid + p.amount)).isSome

instance (db : Db) (auth : Option Uuid) (ledger payment : Uuid) (invoice : Option (Option Uuid))
    (p : Payment) (i : Invoice) : Decidable (Applies db auth ledger payment invoice p i) := by
  unfold Applies
  infer_instance

/-- The API inserts the payment of the body. -/
def Records (db : Db) (req : Request) (user ledger : Uuid)
    (body : Api.Payments.CreatePaymentBody) : Prop :=
  (Api.requireAccess db user ledger true).isOk ∧ (PaymentKind.fromDb body.kind).isSome ∧
    (PaymentMethod.fromDb body.paymentMethod).isSome ∧ 0 < body.amount ∧ db.HasLedger ledger ∧
    (body.contactId.all fun c => ∃ x ∈ db.contacts, x.id = c) ∧
    (body.invoiceId.all fun i => ∃ x ∈ db.invoices, x.id = i) ∧
    (¬ ∃ q ∈ db.payments, q.id = req.rowId 0) ∧ (amountColumn body.amount).isSome

instance (db : Db) (req : Request) (user ledger : Uuid) (body : Api.Payments.CreatePaymentBody) :
    Decidable (Records db req user ledger body) := by
  unfold Records
  infer_instance

/-- The invoice is one that the API adds a payment to. -/
def Payable (ledger : Uuid) (i : Invoice) : Prop :=
  i.ledgerId = ledger ∧ (i.status = .opened ∨ i.status = .overdue)

instance (ledger : Uuid) (i : Invoice) : Decidable (Payable ledger i) := by
  unfold Payable
  infer_instance

/-- A payment that is applied pays no invoice yet, and one that the API links to an invoice is added
to it, unless its amount is zero. -/
def Unlinked (db : Db) : Op → Prop
  | .create .. | .void .. => True
  | .apply auth ledger payment invoice =>
    ∀ p ∈ db.payments, ∀ i ∈ db.invoices, Applies db auth ledger payment invoice p i →
      p.invoiceId = none ∨ p.amount = 0
  | .apiCreate req user ledger (.ok body) =>
    ∀ i ∈ db.invoices, body.invoiceId = some i.id → Records db req user ledger body →
      Payable ledger i ∨ roundDp 4 body.amount = 0
  | .apiCreate _ _ _ (.error _) => True

instance (db : Db) : (op : Op) → Decidable (Unlinked db op)
  | .create .. | .void .. | .apiCreate _ _ _ (.error _) => inferInstanceAs (Decidable True)
  | .apply auth ledger payment invoice => inferInstanceAs (Decidable
      (∀ p ∈ db.payments, ∀ i ∈ db.invoices, Applies db auth ledger payment invoice p i →
        p.invoiceId = none ∨ p.amount = 0))
  | .apiCreate req user ledger (.ok body) => inferInstanceAs (Decidable
      (∀ i ∈ db.invoices, body.invoiceId = some i.id → Records db req user ledger body →
        Payable ledger i ∨ roundDp 4 body.amount = 0))

/-! ## What the tables hold -/

/-- The keys and the column types of the two tables.  No payment is negative. -/
structure Stored (db : Db) : Prop where
  payment_ids : (db.payments.map Payment.id).Nodup
  invoice_ids : (db.invoices.map Invoice.id).Nodup
  invoice_fk : ∀ p ∈ db.payments, ∀ i, p.invoiceId = some i → i ∈ db.invoices.map Invoice.id
  amounts : ∀ p ∈ db.payments, 0 ≤ p.amount ∧ HasScale 4 p.amount
  paid : ∀ i ∈ db.invoices, 0 ≤ i.amountPaid ∧ HasScale 4 i.amountPaid

/-! ## What an accepted request writes -/

/-- The payment `p` is linked to the invoice `i` and added to it. -/
def applied (db : Db) (p : Payment) (i : Invoice) (paid : ℚ) : Db :=
  { db with
    payments := updateWhere (fun q => q.id = p.id) (fun q => { q with invoiceId := some i.id })
      db.payments
    invoices := updateWhere (fun j => j.id = i.id)
      (fun j => { j with amountPaid := paid, status := .paid }) db.invoices }

variable {amount : ℚ} {db db' : Db} {ledger : Uuid} {p : Payment}

theorem setPaid_newPaid {invoice : Uuid} {i : Invoice} :
    setPaid db invoice (newPaid i amount) = .ok db' ↔
      i.total ≤ i.amountPaid + amount ∧ ∃ paid, amountColumn (i.amountPaid + amount) = some paid ∧
        db' = { db with
          invoices := updateWhere (fun j => j.id = invoice)
            (fun j => { j with amountPaid := paid, status := .paid }) db.invoices } := by
  simp only [setPaid, newPaid, bind_eq_ok, okOr_eq_ok, Except.ok.injEq]
  constructor
  · rintro ⟨paid, hpaid, status, hstatus, rfl⟩
    split at hstatus
    · next hcovers =>
        cases hstatus
        exact ⟨hcovers, paid, hpaid, rfl⟩
    · simp [InvoiceStatus.fromDb] at hstatus
  · rintro ⟨hcovers, paid, hpaid, rfl⟩
    exact ⟨paid, hpaid, .paid, by rw [if_pos hcovers]; rfl, rfl⟩

theorem apply_eq_ok (hs : Stored db) {auth : Option Uuid} {payment : Uuid}
    {invoice : Option (Option Uuid)} {u : Unit} :
    apply db auth ledger payment invoice = (.ok u, db') ↔
      ∃ p ∈ db.payments, ∃ i ∈ db.invoices, Applies db auth ledger payment invoice p i ∧
        ∃ paid, amountColumn (i.amountPaid + p.amount) = some paid ∧
          db' = applied db p i paid := by
  simp only [apply, commit_eq_ok, bind_eq_ok, okOr_eq_ok, mapError_eq_ok, setPaid_newPaid,
    fetchInvoice, Except.ok.injEq, Prod.mk.injEq]
  constructor
  · rintro ⟨user, rfl, l, hwriter, _, rfl, target, rfl, p, hfound, i, hfetch, _,
      ⟨hcovers, paid, hpaid, rfl⟩, -, rfl⟩
    obtain ⟨hp, rfl⟩ := mem_of_find?_key hfound
    obtain ⟨hi, rfl⟩ := mem_of_find?_key hfetch
    refine ⟨p, hp, i, hi, ⟨?_, rfl, rfl, hcovers, by rw [hpaid]; rfl⟩, paid, hpaid, rfl⟩
    rw [Option.any_some, hwriter]
    rfl
  · rintro ⟨p, hp, i, hi, ⟨hwriter, rfl, rfl, hcovers, -⟩, paid, hpaid, rfl⟩
    obtain ⟨user, rfl, hwriter⟩ := (Option.any_eq_true _ _).mp hwriter
    obtain ⟨l, hl⟩ := exists_ok_of_isOk hwriter
    exact ⟨user, rfl, l, hl, _, rfl, i.id, rfl, p, find?_key_eq_some hs.payment_ids hp, i,
      find?_key_eq_some hs.invoice_ids hi, _, ⟨hcovers, paid, hpaid, rfl⟩, trivial, rfl⟩

/-- `apply` is refused and writes nothing, or links the payment and adds it. -/
theorem apply_cases (hs : Stored db) (auth : Option Uuid) (ledger payment : Uuid)
    (invoice : Option (Option Uuid)) :
    (apply db auth ledger payment invoice).2 = db ∧
        (∀ p ∈ db.payments, ∀ i ∈ db.invoices, ¬ Applies db auth ledger payment invoice p i) ∨
      ∃ p ∈ db.payments, ∃ i ∈ db.invoices, Applies db auth ledger payment invoice p i ∧
        ∃ paid, amountColumn (i.amountPaid + p.amount) = some paid ∧
          (apply db auth ledger payment invoice).2 = applied db p i paid := by
  cases hresult : apply db auth ledger payment invoice with
  | mk answer db' =>
    cases answer with
    | ok u => exact Or.inr ((apply_eq_ok hs).mp hresult)
    | error e =>
      rcases commit_eq hresult with ⟨-, rfl⟩ | ⟨_, h, -⟩
      · refine Or.inl ⟨rfl, fun p hp i hi happlies => ?_⟩
        obtain ⟨paid, hpaid⟩ := Option.isSome_iff_exists.mp happlies.2.2.2.2
        rw [(apply_eq_ok (u := ()) hs).mpr
          ⟨p, hp, i, hi, happlies, paid, hpaid, rfl⟩] at hresult
        cases hresult
      · cases h

/-- The database with the payment of the API. -/
def recorded (db : Db) (p : Payment) : Db := { db with payments := db.payments ++ [p] }

def apiRow (req : Request) (ledger : Uuid) (body : Api.Payments.CreatePaymentBody)
    (kind : PaymentKind) (method : PaymentMethod) (amount : ℚ) : Payment where
  id := req.rowId 0
  ledgerId := ledger
  contactId := body.contactId
  invoiceId := body.invoiceId
  amount := amount
  paymentDate := body.paymentDate
  paymentMethod := method
  reference := body.reference
  kind := kind

theorem execute_of_records {req : Request} {user : Uuid} {body : Api.Payments.CreatePaymentBody}
    (hrec : Records db req user ledger body) :
    ∃ kind method, Api.Payments.execute db req user ledger (.ok body) =
      (mapError Api.dbProblem (Api.Payments.applyToInvoice
        (recorded db (apiRow req ledger body kind method (roundDp 4 body.amount))) ledger
          body.amount
        body.invoiceId)).map fun db => (req.rowId 0, db) := by
  obtain ⟨haccess, hkind, hmethod, hpos, hledger, hcontact, hinvoice, hfresh, hamount⟩ := hrec
  obtain ⟨role, hrole⟩ := exists_ok_of_isOk haccess
  obtain ⟨kind, hkind⟩ := Option.isSome_iff_exists.mp hkind
  obtain ⟨method, hmethod⟩ := Option.isSome_iff_exists.mp hmethod
  obtain ⟨amount, hamount⟩ := Option.isSome_iff_exists.mp hamount
  refine ⟨kind, method, ?_⟩
  rw [← numeric_eq_some hamount]
  simp only [Api.Payments.execute, hrole, hkind, hmethod, hamount, mapError, okOr, ensure, hpos,
    Db.insertPayment, hledger, hcontact, hinvoice, hfresh, if_true, not_false_eq_true, bind,
    Except.bind]
  rfl

theorem records_of_execute {req : Request} {user id : Uuid}
    {body : Api.Payments.CreatePaymentBody}
    (h : Api.Payments.execute db req user ledger (.ok body) = .ok (id, db')) :
    Records db req user ledger body := by
  simp only [Api.Payments.execute, bind_eq_ok, okOr_eq_ok, ensure_eq_ok, mapError_eq_ok,
    Db.insertPayment, Except.ok.injEq] at h
  obtain ⟨role, hrole, _, rfl, kind, hkind, method, hmethod, _, hpos, _,
    ⟨_, hledger, _, hcontact, _, hinvoice, _, hfresh, amount, hamount, -⟩, -⟩ := h
  exact ⟨by rw [hrole]; rfl, by rw [hkind]; rfl, by rw [hmethod]; rfl, hpos, hledger, hcontact,
    hinvoice, hfresh, by rw [hamount]; rfl⟩

/-- The API refuses the payment, or inserts it and applies it to its invoice. -/
theorem apiCreate_cases (db : Db) (req : Request) (user ledger : Uuid)
    (body : Api.Payments.CreatePaymentBody) :
    (Api.Payments.create db req user ledger (.ok body)).2 = db ∧
        ¬ Records db req user ledger body ∨
      Records db req user ledger body ∧ ∃ kind method,
        (Api.Payments.create db req user ledger (.ok body)).2 =
          match Api.Payments.applyToInvoice (recorded db
              (apiRow req ledger body kind method (roundDp 4 body.amount))) ledger body.amount
              body.invoiceId with
          | .ok db' => db'
          | .error _ => db := by
  by_cases hrec : Records db req user ledger body
  · obtain ⟨kind, method, hexecute⟩ := execute_of_records hrec
    refine Or.inr ⟨hrec, kind, method, ?_⟩
    rw [Api.Payments.create, hexecute]
    cases Api.Payments.applyToInvoice _ ledger body.amount body.invoiceId <;> rfl
  · refine Or.inl ⟨?_, hrec⟩
    rcases commit_cases db (Api.Payments.execute db req user ledger (.ok body)) with
      h | ⟨_, _, hexecute, -⟩
    · exact h
    · exact absurd (records_of_execute hexecute) hrec

/-- The two rows are one document. -/
def SameDocument (i j : Invoice) : Prop :=
  j.ledgerId = i.ledgerId ∧ j.docKind = i.docKind ∧ j.total = i.total

/-- The amount is added to the invoice if that is payable, and to no other. -/
theorem applyToInvoice_adds {invoice : Option Uuid}
    (h : Api.Payments.applyToInvoice db ledger amount invoice = .ok db') :
    ∃ f : Invoice → Invoice, db'.invoices = db.invoices.map f ∧ db'.payments = db.payments ∧
      ∀ i ∈ db.invoices, (f i).id = i.id ∧ ((f i).amountPaid =
        if invoice = some i.id ∧ Payable ledger i then roundDp 4 (i.amountPaid + amount)
        else i.amountPaid) ∧ SameDocument i (f i) := by
  cases invoice with
  | none =>
    cases h
    exact ⟨id, (List.map_id _).symm, rfl, fun i _ => ⟨rfl, by simp, rfl, rfl, rfl⟩⟩
  | some invoice =>
    simp only [Api.Payments.applyToInvoice, Api.Payments.addPaid, bind_eq_ok, ensure_eq_ok,
      Except.ok.injEq] at h
    obtain ⟨_, ⟨_, hfits, rfl⟩, rfl⟩ := h
    refine ⟨_, by rw [Api.Payments.settle, updateWhere, updateWhere, List.map_map], rfl, ?_⟩
    intro i hi
    have hsettle : ∀ j : Invoice, ∀ q : Prop, ∀ _ : Decidable q, ∃ status,
        (if q then { j with status := .paid } else j) = { j with status := status } := by
      intro j q _
      split
      · exact ⟨_, rfl⟩
      · exact ⟨j.status, rfl⟩
    simp only [Function.comp_apply]
    rw [(hsettle _ _ _).choose_spec]
    by_cases htouched : i.id = invoice ∧ i.ledgerId = ledger ∧
      (i.status = .opened ∨ i.status = .overdue)
    · obtain ⟨paid, hpaid⟩ := Option.isSome_iff_exists.mp (hfits i hi htouched)
      have hcond : some invoice = some i.id ∧ Payable ledger i :=
        ⟨congrArg some htouched.1.symm, htouched.2⟩
      rw [if_pos htouched, if_pos hcond, hpaid, ← numeric_eq_some hpaid]
      exact ⟨rfl, rfl, rfl, rfl, rfl⟩
    · have hcond : ¬ (some invoice = some i.id ∧ Payable ledger i) := fun h =>
        htouched ⟨(Option.some.inj h.1).symm, h.2⟩
      rw [if_neg htouched, if_neg hcond]
      exact ⟨rfl, rfl, rfl, rfl, rfl⟩

/-- Only the column type of a paid amount stops a payment from being applied. -/
theorem payable_of_applyToInvoice {invoice : Option Uuid} {e : SqlError}
    (h : Api.Payments.applyToInvoice db ledger amount invoice = .error e) :
    ∃ i ∈ db.invoices, invoice = some i.id ∧ Payable ledger i := by
  cases invoice with
  | none => cases h
  | some invoice =>
    by_contra hnone
    have hfits : ∀ i ∈ db.invoices,
        i.id = invoice ∧ i.ledgerId = ledger ∧ (i.status = .opened ∨ i.status = .overdue) →
        (amountColumn (i.amountPaid + amount)).isSome := by
      rintro i hi ⟨rfl, hpayable⟩
      exact absurd ⟨i, hi, rfl, hpayable⟩ hnone
    rw [Api.Payments.applyToInvoice, Api.Payments.addPaid, ensure, if_pos hfits] at h
    cases h

/-! ## Steps -/

/-- An operation that keeps the rows of the invoices, up to the gaps it opens. -/
theorem inStep_iff_of_gaps (h : InStep db) {f : Invoice → Invoice} (gap : Invoice → ℚ)
    (hrows : db'.invoices = db.invoices.map f) (hgap : ∀ i ∈ db.invoices, (f i).id = i.id ∧
      (f i).amountPaid - linked db' i.id = i.amountPaid - linked db i.id + gap i) :
    InStep db' ↔ ∀ i ∈ db.invoices, gap i = 0 := by
  rw [InStep, hrows, List.forall_mem_map]
  refine forall₂_congr fun i hi => ?_
  obtain ⟨hid, hpaid⟩ := hgap i hi
  have hold := h i hi
  rw [hid]
  constructor
  · intro hnew
    linarith
  · intro hzero
    linarith

theorem linked_applied (hs : Stored db) (hp : p ∈ db.payments) (i : Invoice) (paid : ℚ) (k : Uuid) :
    linked (applied db p i paid) k + (if p.invoiceId = some k then p.amount else 0) =
      linked db k + if i.id = k then p.amount else 0 := by
  have hsum := sum_map_updateWhere hs.payment_ids hp (p := fun q => q.id = p.id) (fun q => Iff.rfl)
    (fun q => { q with invoiceId := some i.id })
    (fun q => if q.invoiceId = some k then q.amount else 0)
  rw [linked, linked, sum_map_filter, sum_map_filter]
  simpa [applied] using hsum

/-- An application keeps the invoices in step only if the payment had none, or is zero. -/
theorem applied_inStep_iff (hs : Stored db) (h : InStep db) (hp : p ∈ db.payments) {i : Invoice}
    (hi : i ∈ db.invoices) {paid : ℚ} (hpaid : amountColumn (i.amountPaid + p.amount) = some paid) :
    InStep (applied db p i paid) ↔ p.invoiceId = none ∨ p.amount = 0 := by
  have hexact : paid = i.amountPaid + p.amount :=
    numeric_of_hasScale ((hs.paid i hi).2.add (hs.amounts p hp).2) hpaid
  have hrows : (applied db p i paid).invoices = db.invoices.map _ := rfl
  have hgaps := inStep_iff_of_gaps h
    (fun k => if p.invoiceId = some k.id then p.amount else 0) hrows fun k hk => by
      have hlinked := linked_applied hs hp i paid k.id
      by_cases hki : k.id = i.id
      · have hrow : k = i := List.inj_on_of_nodup_map hs.invoice_ids hk hi hki
        subst hrow
        simp only [if_true] at hlinked ⊢
        refine ⟨trivial, ?_⟩
        linarith
      · rw [if_neg (Ne.symm hki)] at hlinked
        simp only [hki, if_false]
        refine ⟨trivial, ?_⟩
        linarith
  rw [hgaps]
  constructor
  · intro hall
    cases hinv : p.invoiceId with
    | none => exact Or.inl rfl
    | some j =>
      obtain ⟨k, hk, rfl⟩ := List.mem_map.mp (hs.invoice_fk p hp j hinv)
      simpa [hinv] using hall k hk
  · rintro (hnone | hzero) k -
    · simp [hnone]
    · simp [hzero]

theorem linked_recorded (db : Db) (p : Payment) (k : Uuid) :
    linked (recorded db p) k = linked db k + if p.invoiceId = some k then p.amount else 0 := by
  rw [linked, linked, recorded, List.filter_append, List.map_append, List.sum_append]
  by_cases hp : p.invoiceId = some k
  · simp [hp]
  · simp [hp]

/-- A recorded payment keeps them in step only if the API adds it to its invoice. -/
theorem recorded_inStep_iff (hs : Stored db) (h : InStep db) (hpos : 0 < amount)
    (hstored : p.amount = roundDp 4 amount)
    (happlied : Api.Payments.applyToInvoice (recorded db p) ledger amount p.invoiceId = .ok db') :
    InStep db' ↔ ∀ i ∈ db.invoices, p.invoiceId = some i.id → Payable ledger i ∨ p.amount = 0 := by
  obtain ⟨f, hrows, hpayments, hf⟩ := applyToInvoice_adds happlied
  have hgaps := inStep_iff_of_gaps h
    (fun i => if p.invoiceId = some i.id ∧ ¬ Payable ledger i then -p.amount else 0) hrows
    fun i hi => by
      obtain ⟨hid, hpaid, -⟩ := hf i hi
      have hlinked : linked db' i.id = linked (recorded db p) i.id := by
        rw [linked, hpayments, linked]
      refine ⟨hid, ?_⟩
      rw [hpaid, hlinked, linked_recorded]
      by_cases hinv : p.invoiceId = some i.id
      · by_cases hpayable : Payable ledger i
        · rw [if_pos ⟨hinv, hpayable⟩, if_pos hinv, if_neg fun hc => hc.2 hpayable,
            roundDp_add (hs.paid i hi).2 (hs.paid i hi).1 hpos.le, hstored]
          ring
        · rw [if_neg fun hc => hpayable hc.2, if_pos hinv, if_pos ⟨hinv, hpayable⟩]
          ring
      · rw [if_neg fun hc => hinv hc.1, if_neg hinv, if_neg fun hc => hinv hc.1]
        ring
  rw [hgaps]
  refine forall₂_congr fun i _ => ?_
  by_cases hpayable : Payable ledger i
  · simp [hpayable]
  · simp [hpayable]

/-- A request keeps the two sides in step exactly when it meets the condition. -/
theorem step_inStep_iff (hs : Stored db) (h : InStep db) (op : Op) :
    InStep (step db op) ↔ Unlinked db op := by
  cases op with
  | create req auth ledger form =>
    rw [step, create_unchanged]
    exact ⟨fun _ => trivial, fun _ => h⟩
  | apply auth ledger payment invoice =>
    rw [step]
    rcases apply_cases hs auth ledger payment invoice with
      ⟨hsame, hrefused⟩ | ⟨p, hp, i, hi, happlies, paid, hpaid, hwrite⟩
    · rw [hsame]
      exact ⟨fun _ p hp i hi happlies => absurd happlies (hrefused p hp i hi), fun _ => h⟩
    · rw [hwrite, applied_inStep_iff hs h hp hi hpaid]
      constructor
      · intro hfree q hq j hj hother
        -- The request names one payment.
        have hqp : q = p := List.inj_on_of_nodup_map hs.payment_ids hq hp
          (hother.2.1.trans happlies.2.1.symm)
        exact hqp ▸ hfree
      · intro hall
        exact hall p hp i hi happlies
  | apiCreate req user ledger parsed =>
    rw [step]
    cases parsed with
    | error e =>
      refine ⟨fun _ => trivial, fun _ => ?_⟩
      rcases commit_cases db (Api.Payments.execute db req user ledger (.error e)) with
        hsame | ⟨_, _, hexecute, -⟩
      · rw [Api.Payments.create, hsame]
        exact h
      · simp [Api.Payments.execute, mapError, bind_eq_ok] at hexecute
    | ok body =>
      rcases apiCreate_cases db req user ledger body with
        ⟨hsame, hrefused⟩ | ⟨hrec, kind, method, hwrite⟩
      · rw [hsame]
        exact ⟨fun _ _ _ _ hrec => absurd hrec hrefused, fun _ => h⟩
      · rw [hwrite]
        split
        · next db' happlied =>
            rw [recorded_inStep_iff (p := apiRow req ledger body kind method _) hs h
              hrec.2.2.2.1 rfl happlied]
            exact ⟨fun hall i hi hinv _ => hall i hi hinv,
              fun hall i hi hinv => hall i hi hinv hrec⟩
        · next e hfull =>
            obtain ⟨i, hi, hinv, hpayable⟩ := payable_of_applyToInvoice hfull
            refine ⟨fun _ j hj hother _ => ?_, fun _ => h⟩
            have hij : j = i := List.inj_on_of_nodup_map hs.invoice_ids hj hi
              (Option.some.inj (hother.symm.trans hinv))
            exact Or.inl (hij ▸ hpayable)
  | void auth ledger invoice form =>
    rw [step]
    refine ⟨fun _ => trivial, fun _ => ?_⟩
    rcases Invoices.void_cases db auth ledger invoice form with hsame | ⟨reason, hwrite⟩
    · rw [hsame]
      exact h
    · rw [hwrite]
      exact (inStep_iff_of_gaps h (fun _ => 0) rfl fun i _ => by
        split <;> exact ⟨rfl, (add_zero _).symm⟩).mpr fun _ _ => rfl

/-! ## Runs -/

theorem Stored.of_invoices (hs : Stored db) {f : Invoice → Invoice}
    (hpayments : db'.payments = db.payments) (hrows : db'.invoices = db.invoices.map f)
    (hf : ∀ i ∈ db.invoices, (f i).id = i.id ∧ 0 ≤ (f i).amountPaid ∧ HasScale 4 (f i).amountPaid) :
    Stored db' := by
  have hids : db'.invoices.map Invoice.id = db.invoices.map Invoice.id := by
    rw [hrows, List.map_map]
    exact List.map_congr_left fun i hi => (hf i hi).1
  refine ⟨?_, ?_, ?_, ?_, ?_⟩
  · rw [hpayments]
    exact hs.payment_ids
  · rw [hids]
    exact hs.invoice_ids
  · rw [hids, hpayments]
    exact hs.invoice_fk
  · rw [hpayments]
    exact hs.amounts
  · rw [hrows, List.forall_mem_map]
    exact fun i hi => (hf i hi).2

theorem applied_stored (hs : Stored db) (hp : p ∈ db.payments) {i : Invoice}
    (hi : i ∈ db.invoices) {paid : ℚ} (hpaid : amountColumn (i.amountPaid + p.amount) = some paid) :
    Stored (applied db p i paid) := by
  have hlinked : Stored (linkPayment db p.id i.id) := by
    refine ⟨?_, hs.invoice_ids, ?_, ?_, hs.paid⟩
    · rw [linkPayment, map_key_updateWhere]
      · exact hs.payment_ids
      · exact fun _ => rfl
    · rw [linkPayment, updateWhere, List.forall_mem_map]
      intro q hq j hj
      split at hj
      · cases hj
        exact List.mem_map_of_mem hi
      · exact hs.invoice_fk q hq j hj
    · rw [linkPayment, updateWhere, List.forall_mem_map]
      intro q hq
      split <;> exact hs.amounts q hq
  have hexact : paid = i.amountPaid + p.amount :=
    numeric_of_hasScale ((hs.paid i hi).2.add (hs.amounts p hp).2) hpaid
  show Stored (applied db p i paid)
  refine hlinked.of_invoices rfl rfl fun j hj => ?_
  split
  · rw [hexact]
    exact ⟨rfl, add_nonneg (hs.paid i hi).1 (hs.amounts p hp).1,
      (hs.paid i hi).2.add (hs.amounts p hp).2⟩
  · exact ⟨rfl, hs.paid j hj⟩

theorem recorded_stored (hs : Stored db) (hfresh : ∀ q ∈ db.payments, q.id ≠ p.id)
    (hinvoice : ∀ i, p.invoiceId = some i → i ∈ db.invoices.map Invoice.id)
    (hamount : 0 ≤ p.amount ∧ HasScale 4 p.amount) : Stored (recorded db p) := by
  refine ⟨nodup_map_concat.mpr ⟨hs.payment_ids, hfresh⟩, hs.invoice_ids, ?_, ?_, hs.paid⟩
  · rw [recorded, List.forall_mem_append, List.forall_mem_singleton]
    exact ⟨hs.invoice_fk, hinvoice⟩
  · rw [recorded, List.forall_mem_append, List.forall_mem_singleton]
    exact ⟨hs.amounts, hamount⟩

theorem step_stored (hs : Stored db) (op : Op) : Stored (step db op) := by
  cases op with
  | create req auth ledger form =>
    rw [step, create_unchanged]
    exact hs
  | apply auth ledger payment invoice =>
    rw [step]
    rcases apply_cases hs auth ledger payment invoice with
      ⟨hsame, -⟩ | ⟨p, hp, i, hi, -, paid, hpaid, hwrite⟩
    · rw [hsame]
      exact hs
    · rw [hwrite]
      exact applied_stored hs hp hi hpaid
  | apiCreate req user ledger parsed =>
    rw [step]
    cases parsed with
    | error e =>
      rcases commit_cases db (Api.Payments.execute db req user ledger (.error e)) with
        hsame | ⟨_, _, hexecute, -⟩
      · rw [Api.Payments.create, hsame]
        exact hs
      · simp [Api.Payments.execute, mapError, bind_eq_ok] at hexecute
    | ok body =>
      rcases apiCreate_cases db req user ledger body with
        ⟨hsame, -⟩ | ⟨hrec, kind, method, hwrite⟩
      · rw [hsame]
        exact hs
      · rw [hwrite]
        obtain ⟨-, -, -, hpos, -, -, hinvoice, hfresh, -⟩ := hrec
        split
        · next db' happlied =>
            obtain ⟨f, hrows, hpayments, hf⟩ := applyToInvoice_adds happlied
            have hnew := recorded_stored hs (p := apiRow req ledger body kind method _)
              (fun q hq hid => hfresh ⟨q, hq, hid⟩) (fun i hi => by
                rw [show body.invoiceId = some i from hi] at hinvoice
                obtain ⟨j, hj, hid⟩ := of_decide_eq_true hinvoice
                exact hid ▸ List.mem_map_of_mem hj)
              ⟨roundDp_nonneg hpos.le, hasScale_roundDp 4 body.amount⟩
            refine hnew.of_invoices hpayments hrows fun i hi => ?_
            obtain ⟨hid, hpaid, -⟩ := hf i hi
            rw [hpaid]
            split
            · exact ⟨hid, roundDp_nonneg (add_nonneg (hs.paid i hi).1 hpos.le),
                hasScale_roundDp 4 _⟩
            · exact ⟨hid, hs.paid i hi⟩
        · exact hs
  | void auth ledger invoice form =>
    rw [step]
    rcases Invoices.void_cases db auth ledger invoice form with hsame | ⟨reason, hwrite⟩
    · rw [hsame]
      exact hs
    · rw [hwrite]
      show Stored (Invoices.markVoid db ledger invoice reason)
      refine hs.of_invoices rfl rfl fun i hi => ?_
      split <;> exact ⟨rfl, hs.paid i hi⟩

/-- No invoice has been paid anything. -/
structure Unpaid (db : Db) : Prop extends Stored db where
  invoices : ∀ i ∈ db.invoices, i.amountPaid = 0
  payments : ∀ p ∈ db.payments, p.invoiceId = none

theorem Unpaid.inStep (h : Unpaid db) : InStep db := by
  intro i hi
  have hnone : db.payments.filter (fun p => p.invoiceId = some i.id) = [] := by
    rw [List.filter_eq_nil_iff]
    intro p hp
    simp [h.payments p hp]
  rw [h.invoices i hi, linked, hnone]
  rfl

/-- In a run from unpaid invoices every invoice has at any time been paid its payments exactly when
each request meets the condition. -/
theorem inStep_iff_unlinked {db : Db} {ops : List Op} (h : Unpaid db) :
    (∀ db' ∈ Runs.visited step db ops, InStep db') ↔ Runs.Meets step Unlinked db ops :=
  Runs.forall_visited_iff_meets (fun _ op hs => step_stored hs op)
    (fun _ op hs hstep => step_inStep_iff hs hstep op) h.toStored h.inStep

namespace Sample

open OpenAccounting.Sample

def bill (id : Uuid) : Invoice where
  id := id
  ledgerId := ledgerId
  contactId := 31
  kind := .receivable
  invoiceDate := march 1
  dueDate := march 31
  total := 50

def billed : Db :=
  { OpenAccounting.Sample.db with
    contacts := [{ id := 31, ledgerId := ledgerId }]
    invoices := [bill 41, bill 42] }

def payment (invoice : Option Uuid) : Api.Payments.CreatePaymentBody where
  contactId := some 31
  invoiceId := invoice
  amount := 50
  paymentDate := march 10
  paymentMethod := "cash"
  kind := "received"

/-- The payment that `request seed` records. -/
def paymentId (seed : ℕ) : Uuid := (request seed).rowId 0

theorem billed_unpaid : Unpaid billed where
  payment_ids := List.nodup_nil
  invoice_ids := by decide
  invoice_fk := by simp [billed, OpenAccounting.Sample.db]
  amounts := by simp [billed, OpenAccounting.Sample.db]
  paid := by simp [billed, bill, hasScale_zero]
  invoices := by simp [billed, bill]
  payments := by simp [billed, OpenAccounting.Sample.db]

/-- One payment is applied to two invoices. -/
def appliedTwice : List Op :=
  [.apiCreate (request 1) owner ledgerId (.ok (payment none)),
    .apply (some owner) ledgerId (paymentId 1) (some (some 41)),
    .apply (some owner) ledgerId (paymentId 1) (some (some 42))]

/-- Each invoice gets a payment of its own, one over the API, and is voided or not. -/
def appliedOnce : List Op :=
  [.apiCreate (request 1) owner ledgerId (.ok (payment none)),
    .apply (some owner) ledgerId (paymentId 1) (some (some 41)),
    .apiCreate (request 2) owner ledgerId (.ok (payment (some 42))),
    .void (some owner) ledgerId 41 ⟨"entered by mistake"⟩]

end Sample

/-- Both invoices are paid, with the payment of one. -/
theorem appliedTwice_not_inStep :
    Unpaid Sample.billed ∧ ¬ InStep (Runs.exec step Sample.billed Sample.appliedTwice) := by
  refine ⟨Sample.billed_unpaid, ?_⟩
  unfold InStep
  decide +kernel

theorem inStep_iff_unlinked_appliedOnce :
    InStep (Runs.exec step Sample.billed Sample.appliedOnce) := by
  have hcalm : Runs.Meets step Unlinked Sample.billed Sample.appliedOnce := by
    refine ⟨?_, ?_, ?_, trivial, trivial⟩ <;> decide +kernel
  exact (inStep_iff_unlinked Sample.billed_unpaid).mpr hcalm _ (Runs.exec_mem_visited _ _)

end OpenAccounting.Payments
