import Mathlib.Algebra.Order.BigOperators.Group.List
import OpenAccounting.Handlers.Estimates
import OpenAccounting.Handlers.Reports
import OpenAccounting.System.PaymentLedger

/-!
# Aging and estimates

Invoices and estimates share a table.  The aging report selects by the kind of a document, its
status and what is outstanding, and not by its `doc_kind`.  An estimate is a receivable that nothing
has been paid on, and neither `draft` nor `converted` is `void`, so it counts from the day it is
made: once as an estimate, and once more as the invoice it is converted to.

So the report is one of invoices exactly as long as no estimate with a positive total is made.
-/

namespace OpenAccounting.Aging

open Calendar Commit Relational Rounding

/-! ## The report of the invoices -/

/-- What is outstanding on the invoices. -/
def receivables (db : Db) (ledger : Uuid) : ℚ :=
  ((db.invoices.filter fun i => i.docKind = .invoice ∧ Selected ledger .receivable i).map
    outstanding).sum

/-- Whatever the day, the report adds up to what is outstanding on the invoices, and each row to its
total. -/
def Exact (ledger : Uuid) (db : Db) : Prop :=
  ∀ today, grandTotal (computeAging db ledger .receivable today) = receivables db ledger ∧
    ∀ row ∈ computeAging db ledger .receivable today, row.buckets = row.total

theorem sum_filter_split {ρ : Type} (p q : ρ → Prop) [DecidablePred p] [DecidablePred q]
    (f : ρ → ℚ) (rows : List ρ) :
    ((rows.filter fun r => p r).map f).sum =
      ((rows.filter fun r => q r ∧ p r).map f).sum +
        ((rows.filter fun r => ¬ q r ∧ p r).map f).sum := by
  rw [sum_map_filter, sum_map_filter, sum_map_filter, ← List.sum_map_add]
  refine congrArg List.sum (List.map_congr_left fun r _ => ?_)
  by_cases hp : p r
  · by_cases hq : q r <;> simp [hp, hq]
  · simp [hp]

/-- The report is exact if every receivable that it selects is an invoice. -/
theorem exact_iff {ledger : Uuid} {db : Db} :
    Exact ledger db ↔ ∀ i ∈ db.invoices, Selected ledger .receivable i → i.docKind = .invoice := by
  have hsplit := sum_filter_split (Selected ledger .receivable) (fun i => i.docKind = .invoice)
    outstanding db.invoices
  have hpos : ∀ x ∈ (db.invoices.filter fun i =>
      ¬ i.docKind = .invoice ∧ Selected ledger .receivable i).map outstanding, 0 < x := by
    rw [List.forall_mem_map]
    intro i hi
    have hselected := (of_decide_eq_true (List.mem_filter.mp hi).2).2
    exact hselected.2.2.2
  constructor
  · intro h i hi hselected
    by_contra hkind
    have htotal := (h default).1
    rw [grandTotal_computeAging, receivables, hsplit] at htotal
    have hmem : outstanding i ∈ (db.invoices.filter fun i =>
        ¬ i.docKind = .invoice ∧ Selected ledger .receivable i).map outstanding :=
      List.mem_map_of_mem (List.mem_filter.mpr ⟨hi, decide_eq_true ⟨hkind, hselected⟩⟩)
    have hother := List.sum_pos _ hpos (List.ne_nil_of_mem hmem)
    linarith
  · intro h today
    refine ⟨?_, buckets_eq_total⟩
    have hnone : (db.invoices.filter fun i =>
        ¬ i.docKind = .invoice ∧ Selected ledger .receivable i) = [] := by
      rw [List.filter_eq_nil_iff]
      intro i hi hother
      have hother := of_decide_eq_true hother
      exact hother.1 (h i hi hother.2)
    rw [grandTotal_computeAging, receivables, hsplit, hnone, List.map_nil, List.sum_nil, add_zero]

/-! ## Requests -/

inductive Op where
  | invoice (req : Request) (auth : Option Uuid) (ledger : Uuid) (form : Invoices.NewInvoiceForm)
  | apiInvoice (req : Request) (user ledger : Uuid)
      (parsed : Except String Api.Invoices.CreateInvoiceBody)
  | estimate (req : Request) (auth : Option Uuid) (ledger : Uuid) (form : Estimates.EstimateBody)
  | convert (claimed inserted : Outcome) (req : Request) (auth : Option Uuid)
      (ledger estimate : Uuid)
  /-- A payment or a void. -/
  | payment (op : Payments.Op)

/-- The database after a request. -/
def step (db : Db) : Op → Db
  | .invoice req auth ledger form => (Invoices.create db req auth ledger form).2
  | .apiInvoice req user ledger parsed => (Api.Invoices.create db req user ledger parsed).2
  | .estimate req auth ledger form => (Estimates.create db req auth ledger form).2
  | .convert claimed inserted req auth ledger estimate =>
    (Estimates.convert claimed inserted db req auth ledger estimate).2
  | .payment op => Payments.step db op

/-- The request makes no estimate of the ledger with a positive total. -/
def Unquoted (ledger : Uuid) (db : Db) : Op → Prop
  | .estimate req auth l form => l = ledger →
      ∀ read ∈ (Estimates.readCreate db auth l form).toOption,
        (Estimates.insertEstimate db req l read).isOk → read.total ≤ 0
  | .invoice .. | .apiInvoice .. | .convert .. | .payment _ => True

instance (ledger : Uuid) (db : Db) : (op : Op) → Decidable (Unquoted ledger db op)
  | .estimate req auth l form => inferInstanceAs (Decidable (l = ledger →
      ∀ read ∈ (Estimates.readCreate db auth l form).toOption,
        (Estimates.insertEstimate db req l read).isOk → read.total ≤ 0))
  | .invoice .. | .apiInvoice .. | .convert .. | .payment _ => inferInstanceAs (Decidable True)

/-! ## What a request adds -/

/-- A document is added, and nothing has been paid on it. -/
structure Adds (db db' : Db) (i : Invoice) : Prop where
  invoices : db'.invoices = db.invoices ++ [i]
  payments : db'.payments = db.payments
  fresh : ∀ j ∈ db.invoices, j.id ≠ i.id
  unpaid : i.amountPaid = 0

theorem invoice_adds (db : Db) (req : Request) (auth : Option Uuid) (ledger : Uuid)
    (form : Invoices.NewInvoiceForm) :
    (Invoices.create db req auth ledger form).2 = db ∨
      ∃ i, i.docKind = .invoice ∧ Adds db (Invoices.create db req auth ledger form).2 i := by
  rcases Invoices.create_cases db req auth ledger form with
    hsame | ⟨read, number, db₁, db', -, hnumber, hinsert, hcreate⟩
  · exact Or.inl hsame
  · obtain ⟨rows, rfl⟩ := Invoices.chooseNumber_rows hnumber
    obtain ⟨⟨total, lines, rfl⟩, hfresh, -⟩ := Invoices.insertNumbered_ok hinsert
    rw [hcreate]
    exact Or.inr ⟨{ Invoices.invoiceRow req ledger read number with total := total }, rfl, rfl, rfl,
      hfresh, rfl⟩

theorem apiInvoice_adds (db : Db) (req : Request) (user ledger : Uuid)
    (parsed : Except String Api.Invoices.CreateInvoiceBody) :
    (Api.Invoices.create db req user ledger parsed).2 = db ∨
      ∃ i, i.docKind = .invoice ∧ Adds db (Api.Invoices.create db req user ledger parsed).2 i := by
  rcases Api.Invoices.create_cases db req user ledger parsed with
    hsame | ⟨body, kind, total, lines, -, -, hcreate, hfresh⟩
  · exact Or.inl hsame
  · rw [hcreate]
    exact Or.inr ⟨_, rfl, rfl, rfl, hfresh, rfl⟩

/-- An estimate is a draft of a receivable over the total of its lines. -/
theorem estimate_adds {db db' : Db} {req : Request} {ledger : Uuid}
    {read : Estimates.CreateRead} (h : Estimates.insertEstimate db req ledger read = .ok db') :
    ∃ i, Adds db db' i ∧ i.ledgerId = ledger ∧ i.kind = .receivable ∧ i.docKind = .estimate ∧
      i.status = .draft ∧ i.total = roundDp 4 read.total := by
  obtain ⟨⟨total, lines, htotal, rfl⟩, hfresh⟩ := Estimates.insertEstimate_ok h
  exact ⟨_, ⟨rfl, rfl, hfresh, rfl⟩, rfl, rfl, rfl, rfl, numeric_eq_some htotal⟩

theorem copyLines_ok {req : Request} {ls : List InvoiceLine} :
    ∀ {k : ℕ} {db db' : Db}, Estimates.copyLines req k db ls = .ok db' →
      ∃ rows, db' = { db with invoiceLines := rows } := by
  induction ls with
  | nil =>
    intro k db db' h
    cases h
    exact ⟨_, rfl⟩
  | cons l ls ih =>
    intro k db db' h
    simp only [Estimates.copyLines, bind_eq_ok] at h
    obtain ⟨db₁, hline, h⟩ := h
    obtain ⟨row, rfl⟩ := Api.Invoices.insertInvoiceLine_ok hline
    obtain ⟨rows, hrows⟩ := ih h
    exact ⟨rows, hrows⟩

theorem convert_adds {db db' : Db} {req : Request} {ledger estimate id : Uuid}
    {c : Estimates.Claimed}
    (h : Estimates.insertConverted db req ledger estimate c = .ok (id, db')) :
    ∃ i, i.docKind = .invoice ∧ Adds db db' i := by
  simp only [Estimates.insertConverted, bind_eq_ok, mapError_eq_ok] at h
  obtain ⟨db₁, hinvoice, db₂, hlines, h⟩ := h
  cases h
  obtain ⟨⟨total, rfl⟩, hfresh, -⟩ := Api.Invoices.insertInvoice_ok hinvoice
  obtain ⟨lines, rfl⟩ := copyLines_ok hlines
  exact ⟨{ Estimates.convertedRow req ledger c with total := total }, rfl, rfl, rfl, hfresh, rfl⟩

/-! ## What a request keeps -/

/-- The tables are in order, and every estimate of the ledger is covered by what it has been paid.
-/
structure Covered (ledger : Uuid) (db : Db) : Prop where
  stored : Payments.Stored db
  covered : ∀ i ∈ db.invoices, i.ledgerId = ledger → i.docKind = .estimate → i.total ≤ i.amountPaid

theorem stored_of_adds {db db' : Db} {i : Invoice} (hs : Payments.Stored db) (h : Adds db db' i) :
    Payments.Stored db' := by
  refine ⟨?_, ?_, fun p hp j hj => ?_, ?_, ?_⟩
  · rw [h.payments]
    exact hs.payment_ids
  · rw [h.invoices]
    exact nodup_map_concat.mpr ⟨hs.invoice_ids, h.fresh⟩
  · rw [h.payments] at hp
    rw [h.invoices, List.map_append]
    exact List.mem_append_left _ (hs.invoice_fk p hp j hj)
  · rw [h.payments]
    exact hs.amounts
  · rw [h.invoices, List.forall_mem_append, List.forall_mem_singleton, h.unpaid]
    exact ⟨hs.paid, le_rfl, hasScale_zero 4⟩

section Steps

variable {ledger : Uuid} {db db' : Db}

theorem Covered.adds (hc : Covered ledger db) {i : Invoice} (h : Adds db db' i)
    (hi : i.ledgerId = ledger → i.docKind = .estimate → i.total ≤ 0) : Covered ledger db' := by
  refine ⟨stored_of_adds hc.stored h, ?_⟩
  rw [h.invoices, List.forall_mem_append, List.forall_mem_singleton, h.unpaid]
  exact ⟨hc.covered, hi⟩

theorem Covered.of_map (hc : Covered ledger db) (hs : Payments.Stored db') {f : Invoice → Invoice}
    (hrows : db'.invoices = db.invoices.map f)
    (hf : ∀ i ∈ db.invoices, (f i).ledgerId = i.ledgerId ∧ (f i).docKind = i.docKind ∧
      (f i).total = i.total ∧ i.amountPaid ≤ (f i).amountPaid) : Covered ledger db' := by
  refine ⟨hs, ?_⟩
  rw [hrows, List.forall_mem_map]
  intro i hi
  obtain ⟨hledger, hkind, htotal, hpaid⟩ := hf i hi
  rw [hledger, hkind, htotal]
  exact fun hl hk => (hc.covered i hi hl hk).trans hpaid

theorem Covered.exact (hc : Covered ledger db) : Exact ledger db := by
  refine exact_iff.mpr fun i hi hselected => ?_
  cases hkind : i.docKind with
  | invoice => rfl
  | estimate =>
    have hcovered := hc.covered i hi hselected.1 hkind
    have hpos : 0 < i.total - i.amountPaid := hselected.2.2.2
    linarith

/-- A property that the claim keeps, and the invoice that is added, the conversion keeps. -/
theorem convert_invariant {P : Db → Prop} {l estimate : Uuid} (hdb : P db)
    (hclaim : ∀ db, P db → P (Estimates.markConverted db l estimate))
    (hadds : ∀ db db' i, P db → i.docKind = .invoice → Adds db db' i → P db')
    (claimed inserted : Outcome) (req : Request) (auth : Option Uuid) :
    P (Estimates.convert claimed inserted db req auth l estimate).2 := by
  refine andThen_invariant (commitAs_invariant hdb fun c db₁ h => ?_) fun c db₁ hdb₁ =>
    commitAs_invariant hdb₁ fun id db₂ h => ?_
  · simp only [mapError_eq_ok, Estimates.claim, bind_eq_ok] at h
    obtain ⟨-, -, -, -, found, -, h⟩ := h
    cases h
    exact hclaim db hdb
  · obtain ⟨i, hi, hadd⟩ := convert_adds (mapError_eq_ok.mp h)
    exact hadds db₁ db₂ i hdb₁ hi hadd

theorem markConverted_stored (hs : Payments.Stored db) (l estimate : Uuid) :
    Payments.Stored (Estimates.markConverted db l estimate) := by
  refine hs.of_invoices rfl rfl fun i hi => ?_
  split <;> exact ⟨rfl, hs.paid i hi⟩

theorem step_stored (hs : Payments.Stored db) (op : Op) : Payments.Stored (step db op) := by
  cases op with
  | invoice req auth l form =>
    rcases invoice_adds db req auth l form with hsame | ⟨i, -, hadds⟩
    · rw [step, hsame]
      exact hs
    · exact stored_of_adds hs hadds
  | apiInvoice req user l parsed =>
    rcases apiInvoice_adds db req user l parsed with hsame | ⟨i, -, hadds⟩
    · rw [step, hsame]
      exact hs
    · exact stored_of_adds hs hadds
  | estimate req auth l form =>
    rcases Estimates.create_cases db req auth l form with ⟨hsame, -⟩ | ⟨read, -, hinsert⟩
    · rw [step, hsame]
      exact hs
    · obtain ⟨i, hadds, -⟩ := estimate_adds hinsert
      exact stored_of_adds hs hadds
  | convert claimed inserted req auth l estimate =>
    exact convert_invariant hs (fun _ h => markConverted_stored h l estimate)
      (fun _ _ _ h _ hadds => stored_of_adds h hadds) claimed inserted req auth
  | payment op => exact Payments.step_stored hs op

/-- No payment uncovers an estimate. -/
theorem payment_covered (hc : Covered ledger db) (op : Payments.Op) :
    Covered ledger (Payments.step db op) := by
  have hs := hc.stored
  have hstored := Payments.step_stored hs op
  cases op with
  | create req auth l form =>
    rw [Payments.step, Payments.create_unchanged]
    exact hc
  | apply auth l payment invoice =>
    rw [Payments.step] at hstored ⊢
    rcases Payments.apply_cases hs auth l payment invoice with
      ⟨hsame, -⟩ | ⟨p, hp, i, hi, -, paid, hpaid, hwrite⟩
    · rw [hsame]
      exact hc
    · have hexact : paid = i.amountPaid + p.amount :=
        numeric_of_hasScale ((hs.paid i hi).2.add (hs.amounts p hp).2) hpaid
      have hnonneg := (hs.amounts p hp).1
      rw [hwrite] at hstored ⊢
      refine hc.of_map hstored rfl fun j hj => ?_
      split
      · next hid =>
          have hrow : j = i := List.inj_on_of_nodup_map hs.invoice_ids hj hi hid
          subst hrow
          refine ⟨rfl, rfl, rfl, ?_⟩
          show j.amountPaid ≤ paid
          linarith
      · exact ⟨rfl, rfl, rfl, le_rfl⟩
  | apiCreate req user l parsed =>
    rw [Payments.step] at hstored ⊢
    cases parsed with
    | error e =>
      rcases commit_cases db (Api.Payments.execute db req user l (.error e)) with
        hsame | ⟨_, _, hexecute, -⟩
      · rw [Api.Payments.create, hsame]
        exact hc
      · simp [Api.Payments.execute, mapError, bind_eq_ok] at hexecute
    | ok body =>
      rcases Payments.apiCreate_cases db req user l body with
        ⟨hsame, -⟩ | ⟨hrec, kind, method, hwrite⟩
      · rw [hsame]
        exact hc
      · rw [hwrite] at hstored ⊢
        split at hstored
        · next db' happlied =>
            obtain ⟨f, hrows, -, hf⟩ := Payments.applyToInvoice_adds happlied
            refine hc.of_map hstored hrows fun i hi => ?_
            obtain ⟨-, hpaid, hledger, hkind, htotal⟩ := hf i hi
            refine ⟨hledger, hkind, htotal, ?_⟩
            rw [hpaid]
            split
            · rw [roundDp_add (hs.paid i hi).2 (hs.paid i hi).1 hrec.2.2.2.1.le]
              have hnonneg := roundDp_nonneg (n := 4) hrec.2.2.2.1.le
              linarith
            · exact le_rfl
        · exact hc
  | void auth l invoice form =>
    rw [Payments.step] at hstored ⊢
    rcases Invoices.void_cases db auth l invoice form with hsame | ⟨reason, hwrite⟩
    · rw [hsame]
      exact hc
    · rw [hwrite] at hstored ⊢
      refine hc.of_map hstored rfl fun i hi => ?_
      split <;> exact ⟨rfl, rfl, rfl, le_rfl⟩

/-- The invariant, for one step without a priced estimate. -/
theorem step_covered (hc : Covered ledger db) {op : Op} (h : Unquoted ledger db op) :
    Covered ledger (step db op) := by
  cases op with
  | invoice req auth l form =>
    rcases invoice_adds db req auth l form with hsame | ⟨i, hi, hadds⟩
    · rw [step, hsame]
      exact hc
    · exact hc.adds hadds fun _ hkind => nomatch hi.symm.trans hkind
  | apiInvoice req user l parsed =>
    rcases apiInvoice_adds db req user l parsed with hsame | ⟨i, hi, hadds⟩
    · rw [step, hsame]
      exact hc
    · exact hc.adds hadds fun _ hkind => nomatch hi.symm.trans hkind
  | estimate req auth l form =>
    rcases Estimates.create_cases db req auth l form with ⟨hsame, -⟩ | ⟨read, hread, hinsert⟩
    · rw [step, hsame]
      exact hc
    · obtain ⟨i, hadds, hl, -, -, -, htotal⟩ := estimate_adds hinsert
      refine hc.adds hadds fun hledger _ => ?_
      have hmem : read ∈ (Estimates.readCreate db auth l form).toOption := by
        rw [hread]
        rfl
      have hnonpos := h (hl.symm.trans hledger) read hmem (by rw [hinsert]; rfl)
      rw [htotal]
      exact roundDp_le (hasScale_zero 4) hnonpos
  | convert claimed inserted req auth l estimate =>
    refine convert_invariant hc (fun db hdb => ?_) (fun _ _ i hdb hi hadds => ?_) claimed inserted
      req auth
    · refine hdb.of_map (markConverted_stored hdb.stored l estimate) rfl fun i _ => ?_
      split <;> exact ⟨rfl, rfl, rfl, le_rfl⟩
    · exact hdb.adds hadds fun _ hkind => nomatch hi.symm.trans hkind
  | payment op => exact payment_covered hc op

/-- Any other step leaves an estimate that the report counts. -/
theorem step_not_exact {op : Op} (h : ¬ Unquoted ledger db op) : ¬ Exact ledger (step db op) := by
  cases op with
  | estimate req auth l form =>
    simp only [Unquoted, not_forall, not_le] at h
    obtain ⟨rfl, read, hread, hok, hpos⟩ := h
    have hread : Estimates.readCreate db auth l form = .ok read := by
      cases hresult : Estimates.readCreate db auth l form with
      | error e =>
        rw [hresult] at hread
        cases hread
      | ok r =>
        rw [hresult] at hread
        cases hread
        rfl
    rcases Estimates.create_cases db req auth l form with
      ⟨-, hrefused⟩ | ⟨r, hread', hinsert⟩
    · rw [hrefused read hread] at hok
      cases hok
    · cases hread.symm.trans hread'
      obtain ⟨i, hadds, hledger, hkind, hdoc, hstatus, htotal⟩ := estimate_adds hinsert
      rw [roundDp_of_hasScale (read.hasScale_total.mono (by decide))] at htotal
      have hmem : i ∈ (step db (.estimate req auth l form)).invoices := by
        rw [step, hadds.invoices]
        exact List.mem_append_right _ (List.mem_singleton_self i)
      have hselected : Selected l .receivable i := by
        refine ⟨hledger, hkind, by rw [hstatus]; decide, ?_⟩
        rw [outstanding, htotal, hadds.unpaid, sub_zero]
        exact hpos
      intro hexact
      exact nomatch (exact_iff.mp hexact i hmem hselected).symm.trans hdoc
  | invoice | apiInvoice | convert | payment => exact absurd trivial h

/-! ## Runs -/

/-- A run from a database without estimates has an exact report at any time exactly when no request
makes an estimate with a positive total. -/
theorem exact_iff_unquoted {actions : List Op} (hs : Payments.Stored db)
    (hnone : ∀ i ∈ db.invoices, i.docKind = .invoice) :
    (∀ db' ∈ Runs.visited step db actions, Exact ledger db') ↔
      Runs.Meets step (Unquoted ledger) db actions := by
  have hc : Covered ledger db :=
    ⟨hs, fun i hi _ hkind => nomatch (hnone i hi).symm.trans hkind⟩
  -- Without an exact report the estimates need not be covered any more.
  refine Runs.forall_visited_iff_meets_of_meets (D := fun _ _ => True)
    (Q := fun db => Payments.Stored db ∧ (Exact ledger db → Covered ledger db))
    (fun db op hdb hexact _ => ⟨step_stored hdb.1 op, fun hnext => ?_⟩)
    (fun db op hdb hexact _ => ⟨fun hnext => ?_, fun h => (step_covered (hdb.2 hexact) h).exact⟩)
    ⟨hs, fun _ => hc⟩ hc.exact (Runs.meets_of_forall fun _ _ => trivial)
  · refine step_covered (hdb.2 hexact) ?_
    by_contra h
    exact step_not_exact h hnext
  · by_contra h
    exact step_not_exact h hnext

end Steps

namespace Sample

open OpenAccounting.Sample

def start : Db :=
  { OpenAccounting.Sample.db with contacts := [{ id := 31, ledgerId := ledgerId, name := "Ada" }] }

theorem start_stored : Payments.Stored start where
  payment_ids := List.nodup_nil
  invoice_ids := List.nodup_nil
  invoice_fk := by simp [start, OpenAccounting.Sample.db]
  amounts := by simp [start, OpenAccounting.Sample.db]
  paid := by simp [start, OpenAccounting.Sample.db]

theorem start_none : ∀ i ∈ start.invoices, i.docKind = .invoice := by
  simp [start, OpenAccounting.Sample.db]

/-- The form of an estimate with one line. -/
def quote (price : ℚ) : Estimates.EstimateBody where
  contactId := some 31
  invoiceDate := some (march 1)
  dueDate := some (march 10)
  description := ["Work"]
  quantity := [some 1]
  unitPrice := [some price]

/-- An estimate over the price that is converted. -/
def quoted (price : ℚ) : List Op :=
  [.estimate (request 1) (some owner) ledgerId (quote price),
    .convert .done .done (request 2) (some owner) ledgerId ((request 1).rowId 0)]

/-- The form of an invoice over 50. -/
def bill : Invoices.NewInvoiceForm where
  contactId := some 31
  kind := "receivable"
  invoiceNumber := some "A-1"
  invoiceDate := some (march 1)
  dueDate := some (march 31)
  lines := [{ description := "Work", quantity := some 1, unitPrice := some 50 }]

/-- An estimate over nothing, and an invoice. -/
def billed : List Op :=
  quoted 0 ++ [.invoice (request 3) (some owner) ledgerId bill]

end Sample

/-- A converted estimate over 50 is reported twice. -/
theorem quoted_not_exact :
    Payments.Stored Sample.start ∧ (∀ i ∈ Sample.start.invoices, i.docKind = .invoice) ∧
      ¬ Exact Sample.ledgerId (Runs.exec step Sample.start (Sample.quoted 50)) := by
  refine ⟨Sample.start_stored, Sample.start_none, fun h => ?_⟩
  have htwice : grandTotal (computeAging (Runs.exec step Sample.start (Sample.quoted 50))
      Sample.ledgerId .receivable (Sample.march 31)) = 100 := by decide +kernel
  have honce : receivables (Runs.exec step Sample.start (Sample.quoted 50)) Sample.ledgerId =
      50 := by decide +kernel
  have hsame := (h (Sample.march 31)).1
  rw [htwice, honce] at hsame
  norm_num at hsame

theorem exact_iff_unquoted_billed :
    Exact Sample.ledgerId (Runs.exec step Sample.start Sample.billed) := by
  have hmeets : Runs.Meets step (Unquoted Sample.ledgerId) Sample.start Sample.billed := by
    refine ⟨?_, ?_, ?_, trivial⟩ <;> decide +kernel
  exact (exact_iff_unquoted Sample.start_stored Sample.start_none).mpr hmeets _
    (Runs.exec_mem_visited _ _)

end OpenAccounting.Aging
