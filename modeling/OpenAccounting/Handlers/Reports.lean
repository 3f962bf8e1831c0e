import OpenAccounting.Handlers.Access
import OpenAccounting.Lib.SortedMap
import OpenAccounting.Reports.BalanceSheet
import OpenAccounting.Reports.IncomeStatement

/-!
# The report pages

The balance sheet page of `handlers/reports.rs`: the sheet as of a date with the net
income from the first day of the current year, the amounts of a year before beside it, and
a notice of the closed years.
-/

namespace OpenAccounting

open Calendar Commit Relational

namespace Reports

/-- How a page fails. -/
inductive PageError where
  | app (e : AppError)
  /-- Date arithmetic that leaves the range of dates panics. -/
  | panicked
deriving DecidableEq

structure BalanceSheetPage where
  ledgerId : Uuid
  asOf : NaiveDate
  assets : List BalanceSheetSection
  liabilities : List BalanceSheetSection
  equity : List AccountTotal
  netIncome : ℚ
  totalAssets : ℚ
  totalLiabEquity : ℚ
  balanced : Bool
  closedNotice : String
deriving DecidableEq

def closedYears (db : Db) (ledger : Uuid) : List ℤ :=
  orderBy id ((db.closedPeriods.filter fun p => p.ledgerId = ledger).map ClosedPeriod.periodYear)

def closedNotice (years : List ℤ) (inRange : ℤ → Bool) : String :=
  let matching := years.filter inRange
  let list := matching.map fun y => "FY" ++ toString y
  match list.getLast? with
  | none => ""
  | some last =>
    let rest := list.dropLast
    let joined := if rest = [] then last else ", ".intercalate rest ++ " and " ++ last
    let verb := if matching.length = 1 then "is" else "are"
    joined ++ " " ++ verb ++ " closed — these figures are final."

/-- The date of the comparative: a year before, or 365 days where the year before has no
such day.  Both dates are computed. -/
def priorAsOf (asOf : NaiveDate) : Option NaiveDate := do
  let earlier ← asOf.subDays 365
  return (asOf.withYear (asOf.year - 1)).getD earlier

/-- `fill_prior_sections`: the amount the account has in the section of the same label. -/
def fillPriorSections (sections prior : List BalanceSheetSection) : List BalanceSheetSection :=
  sections.map fun sec =>
    { sec with
      accounts := sec.accounts.map fun a =>
        { a with
          priorAmount := (prior.find? fun p => p.label = sec.label).bind fun p =>
            (p.accounts.find? fun q => q.accountId = a.accountId).map AccountTotal.amount } }

/-- The same for the list of equity accounts. -/
def fillPriorEquity (equity prior : List AccountTotal) : List AccountTotal :=
  equity.map fun a =>
    { a with
      priorAmount := (prior.find? fun p => p.accountId = a.accountId).map AccountTotal.amount }

/-- The income statement behind the page: from the first day of the current year, on the
accrual basis. -/
def pageStatement (db : Db) (today : NaiveDate) (ledger : Uuid) (asOf : NaiveDate) :
    IncomeStatementResult :=
  buildIncomeStatement db.books ledger today.firstOfYear asOf .accrual

def pageSheet (db : Db) (today : NaiveDate) (ledger : Uuid) (asOf : NaiveDate) :
    BalanceSheetResult :=
  buildBalanceSheet db.books ledger asOf (pageStatement db today ledger asOf).netIncome

/-- `balance_sheet`, with the date of the query as the parser leaves it. -/
def balanceSheet (db : Db) (today : NaiveDate) (user ledger : Uuid)
    (asOfParam : Option NaiveDate) : Except PageError BalanceSheetPage := do
  let _ ← mapError .app (db.ensureOwner user ledger)
  let asOf := asOfParam.getD today
  let bs := pageSheet db today ledger asOf
  let prior ← okOr (priorAsOf asOf) .panicked
  let priorBs := buildBalanceSheet db.books ledger prior 0
  .ok {
    ledgerId := ledger
    asOf := asOf
    assets := fillPriorSections bs.assets priorBs.assets
    liabilities := fillPriorSections bs.liabilities priorBs.liabilities
    equity := fillPriorEquity bs.equity priorBs.equity
    netIncome := bs.netIncome
    totalAssets := bs.totalAssets
    totalLiabEquity := bs.totalLiabEquity
    balanced := bs.totalAssets = bs.totalLiabEquity
    closedNotice := closedNotice (closedYears db ledger) fun y => y ≤ asOf.year }

theorem balanceSheet_totals {db : Db} {today : NaiveDate} {user ledger : Uuid}
    {asOfParam : Option NaiveDate} {page : BalanceSheetPage}
    (h : balanceSheet db today user ledger asOfParam = .ok page) :
    page.totalAssets = (pageSheet db today ledger (asOfParam.getD today)).totalAssets ∧
      page.totalLiabEquity = (pageSheet db today ledger (asOfParam.getD today)).totalLiabEquity := by
  simp only [balanceSheet, bind_eq_ok, mapError_eq_ok, okOr_eq_ok] at h
  generalize pageSheet db today ledger (asOfParam.getD today) = sheet at h ⊢
  obtain ⟨_, -, _, -, hpage⟩ := h
  cases hpage
  exact ⟨rfl, rfl⟩

end Reports

end OpenAccounting

/-!
## Aging

`compute_aging` of `handlers/aging.rs`: what the contacts of a ledger still owe, by the days a
document is overdue.  The query reads the rows of `invoices` whatever their `doc_kind`.
-/

namespace OpenAccounting.Aging

open Calendar Relational

structure AgingBucketData where
  contactName : String
  current : ℚ := 0
  days1To30 : ℚ := 0
  days31To60 : ℚ := 0
  days61To90 : ℚ := 0
  days90Plus : ℚ := 0
  total : ℚ := 0
deriving DecidableEq

/-- The sum of the five buckets. -/
def AgingBucketData.buckets (b : AgingBucketData) : ℚ :=
  b.current + b.days1To30 + b.days31To60 + b.days61To90 + b.days90Plus

def outstanding (i : Invoice) : ℚ := i.total - i.amountPaid

/-- The rows that the query selects. -/
def Selected (ledger : Uuid) (kind : InvoiceKind) (i : Invoice) : Prop :=
  i.ledgerId = ledger ∧ i.kind = kind ∧ i.status ≠ .void ∧ 0 < outstanding i

instance (ledger : Uuid) (kind : InvoiceKind) : DecidablePred (Selected ledger kind) := fun _ => by
  unfold Selected
  infer_instance

/-- `COALESCE((SELECT name FROM contacts WHERE id = i.contact_id), 'Unknown')`. -/
def contactName (db : Db) (contact : Uuid) : String :=
  ((db.contacts.find? fun c => c.id = contact).map Contact.name).getD "Unknown"

/-- An amount enters its bucket and the total. -/
def AgingBucketData.add (daysOverdue : ℤ) (amount : ℚ) (b : AgingBucketData) : AgingBucketData :=
  let b :=
    if daysOverdue ≤ 0 then { b with current := b.current + amount }
    else if daysOverdue ≤ 30 then { b with days1To30 := b.days1To30 + amount }
    else if daysOverdue ≤ 60 then { b with days31To60 := b.days31To60 + amount }
    else if daysOverdue ≤ 90 then { b with days61To90 := b.days61To90 + amount }
    else { b with days90Plus := b.days90Plus + amount }
  { b with total := b.total + amount }

/-- A row of the query enters the bucket of its contact. -/
def enter (db : Db) (today : NaiveDate) (byContact : List (Uuid × AgingBucketData)) (i : Invoice) :
    List (Uuid × AgingBucketData) :=
  SortedMap.entry i.contactId { contactName := contactName db i.contactId }
    (AgingBucketData.add (today.dayNumber - i.dueDate.dayNumber) (outstanding i)) byContact

/-- `by_contact`.  The order of a `HashMap` is not specified. -/
def byContact (db : Db) (ledger : Uuid) (kind : InvoiceKind) (today : NaiveDate) :
    List (Uuid × AgingBucketData) :=
  (db.invoices.filter fun i => Selected ledger kind i).foldl (enter db today) []

def computeAging (db : Db) (ledger : Uuid) (kind : InvoiceKind) (today : NaiveDate) :
    List AgingBucketData :=
  orderByDesc AgingBucketData.total ((byContact db ledger kind today).map Prod.snd)

def grandTotal (rows : List AgingBucketData) : ℚ := (rows.map AgingBucketData.total).sum

/-! ## The totals -/

theorem AgingBucketData.add_total (days : ℤ) (amount : ℚ) (b : AgingBucketData) :
    (b.add days amount).total = b.total + amount := by
  rw [AgingBucketData.add]
  split_ifs <;> rfl

theorem AgingBucketData.add_buckets (days : ℤ) (amount : ℚ) (b : AgingBucketData) :
    (b.add days amount).buckets = b.buckets + amount := by
  rw [AgingBucketData.add]
  split_ifs <;> simp only [AgingBucketData.buckets] <;> ring

theorem buckets_eq_total {db : Db} {ledger : Uuid} {kind : InvoiceKind} {today : NaiveDate} :
    ∀ row ∈ computeAging db ledger kind today, row.buckets = row.total := by
  have hrows : ∀ rows : List Invoice, ∀ m : List (Uuid × AgingBucketData),
      (∀ e ∈ m, e.2.buckets = e.2.total) →
        ∀ e ∈ rows.foldl (enter db today) m, e.2.buckets = e.2.total := by
    intro rows
    induction rows with
    | nil => exact fun m hm => hm
    | cons i rows ih =>
      intro m hm
      refine ih _ (SortedMap.forall_entry (P := fun b : AgingBucketData => b.buckets = b.total)
        ?_ ?_ hm)
      · simp [AgingBucketData.buckets]
      · intro b hb
        rw [AgingBucketData.add_buckets, AgingBucketData.add_total, hb]
  intro row hrow
  obtain ⟨e, he, rfl⟩ := List.mem_map.mp ((List.perm_insertionSort _ _).mem_iff.mp hrow)
  exact hrows _ [] (fun _ h => nomatch h) e he

theorem grandTotal_computeAging (db : Db) (ledger : Uuid) (kind : InvoiceKind)
    (today : NaiveDate) :
    grandTotal (computeAging db ledger kind today) =
      ((db.invoices.filter fun i => Selected ledger kind i).map outstanding).sum := by
  have hstep : ∀ (m : List (Uuid × AgingBucketData)) (i : Invoice),
      ((enter db today m i).map fun e => e.2.total).sum =
        (m.map fun e => e.2.total).sum + outstanding i := fun m _ =>
    SortedMap.sum_entry (g := AgingBucketData.total) rfl (AgingBucketData.add_total _ _) m
  have hsum := measure_foldl
    (m := fun m : List (Uuid × AgingBucketData) => (m.map fun e => e.2.total).sum) hstep
    (db.invoices.filter fun i => Selected ledger kind i) []
  rw [grandTotal, computeAging, orderByDesc,
    ((List.perm_insertionSort _ _).map AgingBucketData.total).sum_eq, List.map_map]
  rw [List.map_nil, List.sum_nil, zero_add] at hsum
  exact hsum

end OpenAccounting.Aging
