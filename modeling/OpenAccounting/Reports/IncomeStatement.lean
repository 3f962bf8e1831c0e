import OpenAccounting.Reports.TrialBalance

/-!
# The income statement

`reports/income_statement.rs`.  Accounts, postings and transactions are inner-joined, so a
posting counts only with a reportable transaction in the period.  On the cash basis a
posting counts only where another posting of its transaction is on an account named after
cash or a bank.

The result has one section for each subtype of income and expense.  The six subtypes are
all that the types admit, so the net income is the sum over all rows of the query
(`netIncome_eq`).
-/

namespace OpenAccounting

open Calendar Relational

inductive ReportBasis where
  | accrual
  | cash
deriving DecidableEq, Repr

namespace Reports

structure IncomeStatementSection where
  label : String
  accounts : List AccountTotal
  total : ℚ
deriving DecidableEq

/-- `ExcludedTotals` and `UnassignedTotals`: a revenue and an expense. -/
structure RevenueExpense where
  revenue : ℚ := 0
  expense : ℚ := 0
deriving DecidableEq

structure IncomeStatementResult where
  basis : ReportBasis
  revenue : IncomeStatementSection
  costOfGoodsSold : IncomeStatementSection
  grossProfit : ℚ
  operatingExpenses : IncomeStatementSection
  operatingIncome : ℚ
  nonOperating : Option IncomeStatementSection
  incomeBeforeTax : ℚ
  taxExpense : Option IncomeStatementSection
  netIncome : ℚ
  excluded : Option RevenueExpense
  unassigned : Option RevenueExpense
deriving DecidableEq

/-! ## The query -/

/-- A row of the joined tables. -/
abbrev IncomeJoinedRow := (Account × Posting) × Transaction

/-- `peer_is_cash`: another posting of the transaction is on a cash or bank account. -/
def PeerIsCash (b : Books) (p : Posting) : Prop :=
  ∃ p2 ∈ b.postings, p2.transactionId = p.transactionId ∧ p2.id ≠ p.id ∧
    b.PostedOn (fun a2 => a2.nameContains "cash" ∨ a2.nameContains "bank") p2

instance (b : Books) : DecidablePred (PeerIsCash b) := by
  unfold PeerIsCash
  infer_instance

/-- `t.txn_date BETWEEN $2 AND $3 AND t.kind NOT IN ('draft','pending')`. -/
def InPeriod (first last : NaiveDate) (t : Transaction) : Prop :=
  (first ≤ t.txnDate ∧ t.txnDate ≤ last) ∧ t.kind.reportable

instance (first last : NaiveDate) : DecidablePred (InPeriod first last) := by
  unfold InPeriod
  infer_instance

/-- `a.ledger_id = $1 AND a.type IN ('INCOME','EXPENSE')`. -/
def OnStatement (ledger : Uuid) (a : Account) : Prop :=
  a.ledgerId = ledger ∧ (a.type = .income ∨ a.type = .expense)

instance (ledger : Uuid) : DecidablePred (OnStatement ledger) := by
  unfold OnStatement
  infer_instance

/-- `FROM accounts a JOIN postings p ON … JOIN transactions t ON … WHERE …`.  The common
table expression `peer` has one row for each posting and is joined on the key, so it is
read as a property of the posting. -/
def incomeJoined (b : Books) (ledger : Uuid) (first last : NaiveDate) (filter : DimensionFilter) :
    List IncomeJoinedRow :=
  (innerJoin (fun (r : Account × Posting) (t : Transaction) =>
      t.id = r.2.transactionId ∧ InPeriod first last t)
    (innerJoin (OnAccount filter) b.accounts b.postings) b.transactions).filter
      fun r => OnStatement ledger r.1.1

/-- `SUM(CASE WHEN p.direction = side AND counts THEN p.amount ELSE 0 END)`. -/
def sumCase (side : Direction) (counts : Posting → Prop) [DecidablePred counts]
    (rows : List IncomeJoinedRow) : ℚ :=
  (rows.map fun r =>
    if r.1.2.direction = side ∧ counts r.1.2 then r.1.2.amount else 0).sum

structure IncomeRow where
  account : Account
  accrualRawNet : ℚ
  cashRawNet : ℚ
deriving DecidableEq

/-- The query. -/
def incomeRows (b : Books) (ledger : Uuid) (first last : NaiveDate) (filter : DimensionFilter) :
    List IncomeRow :=
  orderBy (fun r => toLex (r.account.type.asStr, toLex (r.account.subtype.asStr, r.account.name)))
    ((groupBy (·.1.1) (incomeJoined b ledger first last filter)).map fun g =>
      { account := g.1
        accrualRawNet := sumCase .debit (fun _ => True) g.2 - sumCase .credit (fun _ => True) g.2
        cashRawNet := sumCase .debit (PeerIsCash b) g.2 - sumCase .credit (PeerIsCash b) g.2 })

/-! ## The statement -/

def rawNetForBasis (basis : ReportBasis) (row : IncomeRow) : ℚ :=
  match basis with
  | .accrual => row.accrualRawNet
  | .cash => row.cashRawNet

/-- The amount shown: income is credit-normal. -/
def shownAmount (basis : ReportBasis) (row : IncomeRow) : ℚ :=
  if row.account.type = .income then -rawNetForBasis basis row else rawNetForBasis basis row

def makeAccounts (rows : List IncomeRow) (basis : ReportBasis) (type : AccountType)
    (subtype : AccountSubtype) : List AccountTotal :=
  ((rows.filter fun r => r.account.type = type ∧ r.account.subtype = subtype).map fun r =>
    { accountId := r.account.id, accountName := r.account.name,
      accountType := r.account.subtype.asStr,
      amount := shownAmount basis r : AccountTotal }).filter fun a => a.amount ≠ 0

def totalOf (accounts : List AccountTotal) : ℚ := (accounts.map AccountTotal.amount).sum

/-- The query of `unassigned_totals`: the type, the accrual net and the cash net. -/
def unassignedRows (b : Books) (ledger : Uuid) (first last : NaiveDate)
    (filter : DimensionFilter) : List (AccountType × ℚ × ℚ) :=
  let rows := (incomeJoined b ledger first last .empty).filter fun r => Untagged filter r.1.2
  (groupBy (·.1.1.type) rows).map fun g =>
    (g.1, sumCase .debit (fun _ => True) g.2 - sumCase .credit (fun _ => True) g.2,
      sumCase .debit (PeerIsCash b) g.2 - sumCase .credit (PeerIsCash b) g.2)

def unassignedTotals (b : Books) (ledger : Uuid) (first last : NaiveDate) (basis : ReportBasis)
    (filter : DimensionFilter) : RevenueExpense :=
  (unassignedRows b ledger first last filter).foldl (fun out r =>
    let net := match basis with
      | .accrual => r.2.1
      | .cash => r.2.2
    if r.1 = .income then { out with revenue := out.revenue + -net }
    else { out with expense := out.expense + net }) {}

/-- The footer of the cash basis: accrual totals minus the totals shown. -/
def excludedTotals (rows : List IncomeRow) (revenueTotal expenseTotal : ℚ) : RevenueExpense where
  revenue := ((rows.filter fun r => r.account.type = .income ∧
    r.account.subtype = .operatingIncome).map fun r => -r.accrualRawNet).sum - revenueTotal
  expense := ((rows.filter fun r => r.account.type = .expense).map
    IncomeRow.accrualRawNet).sum - expenseTotal

def buildIncomeStatementFiltered (b : Books) (ledger : Uuid) (first last : NaiveDate)
    (basis : ReportBasis) (filter : DimensionFilter) : IncomeStatementResult :=
  let rows := incomeRows b ledger first last filter
  let revenueAccounts := makeAccounts rows basis .income .operatingIncome
  let revenueTotal := totalOf revenueAccounts
  let cogsAccounts := makeAccounts rows basis .expense .costOfGoodsSold
  let cogsTotal := totalOf cogsAccounts
  let grossProfit := revenueTotal - cogsTotal
  let opexAccounts := makeAccounts rows basis .expense .operatingExpense
  let opexTotal := totalOf opexAccounts
  let operatingIncome := grossProfit - opexTotal
  let nonOpIncomeAccounts := makeAccounts rows basis .income .nonOperatingIncome
  let nonOpExpenseAccounts := makeAccounts rows basis .expense .nonOperatingExpense
  let nonOpNet := totalOf nonOpIncomeAccounts - totalOf nonOpExpenseAccounts
  let incomeBeforeTax := operatingIncome + nonOpNet
  let taxAccounts := makeAccounts rows basis .expense .taxExpense
  let taxTotal := totalOf taxAccounts
  { basis := basis
    revenue := ⟨"Revenue", revenueAccounts, revenueTotal⟩
    costOfGoodsSold := ⟨"Cost of Goods Sold", cogsAccounts, cogsTotal⟩
    grossProfit := grossProfit
    operatingExpenses := ⟨"Operating Expenses", opexAccounts, opexTotal⟩
    operatingIncome := operatingIncome
    nonOperating :=
      if nonOpNet ≠ 0 ∨ nonOpIncomeAccounts ≠ [] ∨ nonOpExpenseAccounts ≠ [] then
        some ⟨"Non-Operating Income (Expense)", nonOpIncomeAccounts ++ nonOpExpenseAccounts,
          nonOpNet⟩
      else none
    incomeBeforeTax := incomeBeforeTax
    taxExpense :=
      if taxTotal ≠ 0 then some ⟨"Income Tax Expense", taxAccounts, taxTotal⟩ else none
    netIncome := incomeBeforeTax - taxTotal
    excluded :=
      if basis = .cash then
        some (excludedTotals rows revenueTotal (cogsTotal + opexTotal + taxTotal))
      else none
    unassigned :=
      if filter.isActive then some (unassignedTotals b ledger first last basis filter) else none }

def buildIncomeStatement (b : Books) (ledger : Uuid) (first last : NaiveDate)
    (basis : ReportBasis) : IncomeStatementResult :=
  buildIncomeStatementFiltered b ledger first last basis .empty

/-! ## The net income -/

theorem totalOf_makeAccounts (rows : List IncomeRow) (basis : ReportBasis) (type : AccountType)
    (subtype : AccountSubtype) :
    totalOf (makeAccounts rows basis type subtype) =
      (rows.map fun r => if r.account.type = type ∧ r.account.subtype = subtype then
        shownAmount basis r else 0).sum := by
  rw [totalOf, makeAccounts, sum_amount_filter, List.map_map, ← sum_map_filter]
  rfl

theorem shownAmount_sections (basis : ReportBasis) (r : IncomeRow)
    (htype : r.account.type = .income ∨ r.account.type = .expense) :
    let shown := fun type subtype =>
      if r.account.type = type ∧ r.account.subtype = subtype then shownAmount basis r else 0
    shown .income .operatingIncome - shown .expense .costOfGoodsSold -
        shown .expense .operatingExpense +
        (shown .income .nonOperatingIncome - shown .expense .nonOperatingExpense) -
        shown .expense .taxExpense = -rawNetForBasis basis r := by
  have hvalid := r.account.subtype_valid
  rcases htype with htype | htype
  · rw [htype] at hvalid
    simp only [AccountType.validSubtypes, List.mem_cons, List.not_mem_nil, or_false] at hvalid
    rcases hvalid with hsub | hsub
    · simp [htype, hsub, shownAmount]
    · simp [htype, hsub, shownAmount]
  · rw [htype] at hvalid
    simp only [AccountType.validSubtypes, List.mem_cons, List.not_mem_nil, or_false] at hvalid
    rcases hvalid with hsub | hsub | hsub | hsub
    · simp [htype, hsub, shownAmount]
    · simp [htype, hsub, shownAmount]
    · simp [htype, hsub, shownAmount]
    · simp [htype, hsub, shownAmount]

theorem sum_sections (basis : ReportBasis) {rows : List IncomeRow}
    (htype : ∀ r ∈ rows, r.account.type = .income ∨ r.account.type = .expense) :
    let total := fun type subtype => totalOf (makeAccounts rows basis type subtype)
    total .income .operatingIncome - total .expense .costOfGoodsSold -
        total .expense .operatingExpense +
        (total .income .nonOperatingIncome - total .expense .nonOperatingExpense) -
        total .expense .taxExpense = -(rows.map (rawNetForBasis basis)).sum := by
  simp only [totalOf_makeAccounts]
  induction rows with
  | nil => simp
  | cons r rows ih =>
    have hrest := ih fun s hs => htype s (List.mem_cons_of_mem _ hs)
    have hhead := shownAmount_sections basis r (htype r List.mem_cons_self)
    simp only [List.map_cons, List.sum_cons] at hrest hhead ⊢
    linarith

def CountsOn (b : Books) (basis : ReportBasis) (p : Posting) : Prop :=
  basis = .accrual ∨ PeerIsCash b p

instance (b : Books) (basis : ReportBasis) : DecidablePred (CountsOn b basis) := by
  unfold CountsOn
  infer_instance

theorem sumCase_sub_sumCase (counts : Posting → Prop) [DecidablePred counts]
    (rows : List IncomeJoinedRow) :
    sumCase .debit counts rows - sumCase .credit counts rows =
      (rows.map fun r => if counts r.1.2 then r.1.2.signed else 0).sum := by
  induction rows with
  | nil => simp [sumCase]
  | cons r rows ih =>
    rw [List.map_cons, List.sum_cons, ← ih]
    simp only [sumCase, List.map_cons, List.sum_cons]
    by_cases hc : counts r.1.2
    · cases hd : r.1.2.direction with
      | debit => simp [hc, Posting.signed, hd]; ring
      | credit => simp [hc, Posting.signed, hd]; ring
    · simp [hc]

section NetIncome

variable (b : Books) (ledger : Uuid) (first last : NaiveDate) (filter : DimensionFilter)

theorem type_of_mem_incomeRows {r : IncomeRow} (h : r ∈ incomeRows b ledger first last filter) :
    r.account.type = .income ∨ r.account.type = .expense := by
  obtain ⟨g, hg, rfl⟩ := List.mem_map.mp (mem_orderBy.mp h)
  obtain ⟨row, hrow, hkey⟩ := List.mem_map.mp (mem_groupBy.mp hg).1
  have hon : OnStatement ledger row.1.1 := of_decide_eq_true (List.mem_filter.mp hrow).2
  rw [← hkey]
  exact hon.2

/-- What a posting adds to the net of its account. -/
def counted (b : Books) (basis : ReportBasis) (p : Posting) : ℚ :=
  if CountsOn b basis p then p.signed else 0

theorem sum_rawNetForBasis (basis : ReportBasis) :
    ((incomeRows b ledger first last filter).map (rawNetForBasis basis)).sum =
      ((incomeJoined b ledger first last filter).map fun r => counted b basis r.1.2).sum := by
  rw [incomeRows, ((orderBy_perm _ _).map _).sum_eq, List.map_map,
    ← sum_groupBy (fun r : IncomeJoinedRow => r.1.1) (fun r => counted b basis r.1.2)]
  refine congrArg List.sum (List.map_congr_left ?_)
  intro g _
  cases basis with
  | accrual => simp [rawNetForBasis, sumCase_sub_sumCase, counted, CountsOn]
  | cash => simp [rawNetForBasis, sumCase_sub_sumCase, counted, CountsOn]

/-- A joined row is a posting that passes the filter, on an account of the statement, of a
transaction in the period. -/
theorem sum_incomeJoined (f : Posting → ℚ) :
    ((incomeJoined b ledger first last filter).map fun r => f r.1.2).sum =
      ((b.postings.filter fun p => filter.Passes p ∧ b.PostedOn (OnStatement ledger) p ∧
        b.PostedBy (InPeriod first last) p).map f).sum := by
  -- A posting has one transaction, so the last join keeps it or drops it.
  have hjoin : ∀ (p : Posting) (x : ℚ), ((b.transactions.filter fun t =>
      t.id = p.transactionId ∧ InPeriod first last t).map fun _ => x).sum =
        if b.PostedBy (InPeriod first last) p then x else 0 := by
    intro p x
    rw [sum_map_filter]
    exact sum_map_ite_key b.txn_ids_nodup p.transactionId (InPeriod first last) x
  have haccount : ∀ a, ((b.postings.filter fun p => OnAccount filter a p).map fun p =>
      if b.PostedBy (InPeriod first last) p then if OnStatement ledger a then f p else 0 else 0).sum =
        if OnStatement ledger a then ((postingsOn b filter a).map fun p =>
          if b.PostedBy (InPeriod first last) p then f p else 0).sum else 0 := by
    intro a
    by_cases ha : OnStatement ledger a
    · simp only [ha, if_true, postingsOn]
    · simp [ha]
  rw [incomeJoined, sum_map_filter, sum_innerJoin, sum_innerJoin]
  simp only [hjoin, haccount]
  rw [← sum_map_filter]
  simp only [postingsOn_eq]
  rw [sum_by_key b.account_ids_nodup, ← sum_map_filter, List.filter_filter, List.filter_filter]
  refine congrArg List.sum (congrArg (List.map f) (List.filter_congr ?_))
  intro p _
  rw [← Bool.decide_and, ← Bool.decide_and, decide_eq_decide]
  constructor
  · rintro ⟨⟨hby, hon⟩, hpass⟩
    exact ⟨hpass, hon, hby⟩
  · rintro ⟨hpass, hon, hby⟩
    exact ⟨⟨hby, hon⟩, hpass⟩

theorem netIncome_eq (basis : ReportBasis) :
    (buildIncomeStatementFiltered b ledger first last basis filter).netIncome =
      -b.netWhere fun p => (filter.Passes p ∧ b.PostedOn (OnStatement ledger) p ∧
        b.PostedBy (InPeriod first last) p) ∧ CountsOn b basis p := by
  refine (sum_sections basis fun r => type_of_mem_incomeRows b ledger first last filter).trans ?_
  rw [sum_rawNetForBasis, sum_incomeJoined]
  unfold counted
  rw [← sum_map_filter, List.filter_filter]
  refine congrArg (fun ps => -Posting.net ps) (List.filter_congr ?_)
  intro p _
  rw [← Bool.decide_and, decide_eq_decide]
  exact and_comm

end NetIncome

end Reports

end OpenAccounting
