import OpenAccounting.System.IncomeSlices

/-!
# The footer of the cash basis

On the cash basis the statement ends with what it excludes: the accrual totals minus the
cash totals, for revenue and for expense.  The accrual revenue is taken from operating
income only, the accrual expense from every expense account, while the cash expense that
is subtracted leaves out the non-operating one.

So the footer leads back to the accrual net income exactly when the non-operating income
that the cash basis leaves out and the non-operating expense that it counts cancel out
(`reconciles_iff`), in particular when there is neither.
-/

namespace OpenAccounting

open Calendar Relational

namespace Reports

variable (b : Books) (ledger : Uuid) (first last : NaiveDate) (filter : DimensionFilter)

/-- `net_income(Cash) + excluded.revenue - excluded.expense = net_income(Accrual)`. -/
def Reconciles : Prop :=
  ∃ excluded,
    (buildIncomeStatementFiltered b ledger first last .cash filter).excluded = some excluded ∧
    (buildIncomeStatementFiltered b ledger first last .cash filter).netIncome +
        excluded.revenue - excluded.expense =
      (buildIncomeStatementFiltered b ledger first last .accrual filter).netIncome

/-- Debits minus credits of the reportable postings of the range on the ledger's accounts of a
subtype, of those with `counts`. -/
def subtypeNet (type : AccountType) (subtype : AccountSubtype) (counts : Posting → Prop)
    [DecidablePred counts] : ℚ :=
  b.netWhere fun p =>
    (b.PostedOn (fun a => a.ledgerId = ledger ∧ a.type = type ∧ a.subtype = subtype) p ∧
      b.PostedBy (InPeriod first last) p ∧ filter.Passes p) ∧ counts p

/-! ## The rows of a section -/

/-- The rows of a type and subtype, on a basis. -/
def sectionNet (rows : List IncomeRow) (basis : ReportBasis) (type : AccountType)
    (subtype : AccountSubtype) : ℚ :=
  (rows.map fun r => if r.account.type = type ∧ r.account.subtype = subtype then
    rawNetForBasis basis r else 0).sum

theorem totalOf_income (rows : List IncomeRow) (basis : ReportBasis) (subtype : AccountSubtype) :
    totalOf (makeAccounts rows basis .income subtype) =
      -sectionNet rows basis .income subtype := by
  rw [totalOf_makeAccounts, sectionNet, ← sum_map_neg]
  refine congrArg List.sum (List.map_congr_left ?_)
  intro r _
  by_cases hr : r.account.type = .income ∧ r.account.subtype = subtype
  · simp [hr, shownAmount]
  · simp [hr]

theorem totalOf_expense (rows : List IncomeRow) (basis : ReportBasis) (subtype : AccountSubtype) :
    totalOf (makeAccounts rows basis .expense subtype) =
      sectionNet rows basis .expense subtype := by
  rw [totalOf_makeAccounts, sectionNet]
  refine congrArg List.sum (List.map_congr_left ?_)
  intro r _
  by_cases hr : r.account.type = .expense ∧ r.account.subtype = subtype
  · simp [hr, shownAmount]
  · simp [hr]

theorem sum_operatingIncome (rows : List IncomeRow) :
    ((rows.filter fun r => r.account.type = .income ∧
        r.account.subtype = .operatingIncome).map fun r => -r.accrualRawNet).sum =
      -sectionNet rows .accrual .income .operatingIncome := by
  rw [sum_map_neg, sectionNet, sum_map_filter (fun r : IncomeRow =>
    r.account.type = .income ∧ r.account.subtype = .operatingIncome)]
  rfl

theorem sum_expense (rows : List IncomeRow) :
    ((rows.filter fun r => r.account.type = .expense).map IncomeRow.accrualRawNet).sum =
      sectionNet rows .accrual .expense .costOfGoodsSold +
        sectionNet rows .accrual .expense .operatingExpense +
        sectionNet rows .accrual .expense .nonOperatingExpense +
        sectionNet rows .accrual .expense .taxExpense := by
  rw [sum_map_filter (fun r : IncomeRow => r.account.type = .expense)]
  simp only [sectionNet, ← List.sum_map_add]
  refine congrArg List.sum (List.map_congr_left ?_)
  intro r _
  by_cases htype : r.account.type = .expense
  · have hvalid := r.account.subtype_valid
    rw [htype] at hvalid
    simp only [AccountType.validSubtypes, List.mem_cons, List.not_mem_nil, or_false] at hvalid
    rcases hvalid with hsub | hsub | hsub | hsub
    · simp [htype, hsub, rawNetForBasis]
    · simp [htype, hsub, rawNetForBasis]
    · simp [htype, hsub, rawNetForBasis]
    · simp [htype, hsub, rawNetForBasis]
  · simp [htype]

/-- What the footer misses: the excluded non-operating income, and the non-operating expense
that the cash basis shows already. -/
theorem footer_sub :
    let cash := buildIncomeStatementFiltered b ledger first last .cash filter
    let rows := incomeRows b ledger first last filter
    ∃ excluded, cash.excluded = some excluded ∧
      cash.netIncome + excluded.revenue - excluded.expense -
          (buildIncomeStatementFiltered b ledger first last .accrual filter).netIncome =
        sectionNet rows .accrual .income .nonOperatingIncome -
          sectionNet rows .cash .income .nonOperatingIncome -
          sectionNet rows .cash .expense .nonOperatingExpense := by
  refine ⟨_, rfl, ?_⟩
  simp only [buildIncomeStatementFiltered, excludedTotals, totalOf_income, totalOf_expense,
    sum_operatingIncome, sum_expense]
  ring

/-! ## The postings of a section -/

theorem postedOn_incomeJoined {r : IncomeJoinedRow}
    (hr : r ∈ incomeJoined b ledger first last filter) (P : Account → Prop) :
    b.PostedOn P r.1.2 ↔ P r.1.1 := by
  simp only [incomeJoined, innerJoin, List.mem_filter, List.mem_flatMap, List.mem_map] at hr
  obtain ⟨⟨_, ⟨a, ha, p, ⟨-, hon⟩, rfl⟩, _, -, rfl⟩, -⟩ := hr
  exact Books.postedOn_iff ha (of_decide_eq_true hon).1.symm

/-- The net of a section is that of its postings. -/
theorem sectionNet_eq (basis : ReportBasis) (type : AccountType) (subtype : AccountSubtype)
    (htype : type = .income ∨ type = .expense) :
    sectionNet (incomeRows b ledger first last filter) basis type subtype =
      subtypeNet b ledger first last filter type subtype (CountsOn b basis) := by
  let here := fun a : Account => a.type = type ∧ a.subtype = subtype
  have hgroups := sum_groupBy (fun r : IncomeJoinedRow => r.1.1)
    (fun r => if here r.1.1 then counted b basis r.1.2 else 0)
    (incomeJoined b ledger first last filter)
  have hrows := sum_incomeJoined b ledger first last filter fun p =>
    if b.PostedOn here p then counted b basis p else 0
  calc sectionNet (incomeRows b ledger first last filter) basis type subtype
      = _ := by
        rw [sectionNet, incomeRows, ((orderBy_perm _ _).map _).sum_eq, List.map_map]
        refine congrArg List.sum (List.map_congr_left ?_)
        intro g hg
        have hkey : ∀ r ∈ g.2, r.1.1 = g.1 := by
          intro r hr
          rw [(mem_groupBy.mp hg).2] at hr
          exact of_decide_eq_true (List.mem_filter.mp hr).2
        have hsum : (g.2.map fun r => if here r.1.1 then counted b basis r.1.2 else 0).sum =
            (g.2.map fun r => if here g.1 then counted b basis r.1.2 else 0).sum :=
          congrArg List.sum (List.map_congr_left fun r hr => by rw [hkey r hr])
        rw [hsum]
        by_cases hhere : here g.1
        · cases basis with
          | accrual => simp [hhere, here, rawNetForBasis, sumCase_sub_sumCase, counted, CountsOn]
          | cash => simp [hhere, here, rawNetForBasis, sumCase_sub_sumCase, counted, CountsOn]
        · simp [hhere, here]
    _ = _ := hgroups
    _ = _ := congrArg List.sum (List.map_congr_left fun r hr => by
        rw [← if_congr (postedOn_incomeJoined b ledger first last filter hr here) rfl rfl])
    _ = _ := hrows
    _ = _ := by
        unfold counted
        rw [← sum_map_filter (b.PostedOn here), ← sum_map_filter (CountsOn b basis),
          List.filter_filter, List.filter_filter]
        refine congrArg Posting.net (List.filter_congr ?_)
        intro p hp
        obtain ⟨a, ha, hid⟩ := List.mem_map.mp (b.posting_account_fk p hp)
        rw [← Bool.decide_and, ← Bool.decide_and, decide_eq_decide]
        simp only [Books.postedOn_iff ha hid, OnStatement]
        constructor
        · rintro ⟨⟨hcounts, hhere⟩, hpass, ⟨hledger, -⟩, hby⟩
          exact ⟨⟨⟨hledger, hhere⟩, hby, hpass⟩, hcounts⟩
        · rintro ⟨⟨⟨hledger, hhere⟩, hby, hpass⟩, hcounts⟩
          exact ⟨⟨hcounts, hhere⟩, hpass, ⟨hledger, hhere.1 ▸ htype⟩, hby⟩

theorem subtypeNet_accrual (type : AccountType) (subtype : AccountSubtype) :
    subtypeNet b ledger first last filter type subtype (CountsOn b .accrual) =
      subtypeNet b ledger first last filter type subtype (CountsOn b .cash) +
        subtypeNet b ledger first last filter type subtype (fun p => ¬ PeerIsCash b p) := by
  have hsplit := Books.netWhere_split (b := b) (fun p =>
    (b.PostedOn (fun a => a.ledgerId = ledger ∧ a.type = type ∧ a.subtype = subtype) p ∧
      b.PostedBy (InPeriod first last) p ∧ filter.Passes p) ∧ CountsOn b .accrual p) (PeerIsCash b)
  refine hsplit.trans (congrArg₂ (· + ·) ?_ ?_)
  · exact Books.netWhere_congr fun p _ => by simp [CountsOn]
  · exact Books.netWhere_congr fun p _ => by simp [CountsOn]

/-- The footer of the cash basis leads to the accrual net income exactly when the non-operating
income without a cash peer and the non-operating expense with one net to the same. -/
theorem reconciles_iff :
    Reconciles b ledger first last filter ↔
      subtypeNet b ledger first last filter .income .nonOperatingIncome
          (fun p => ¬ PeerIsCash b p) =
        subtypeNet b ledger first last filter .expense .nonOperatingExpense (PeerIsCash b) := by
  obtain ⟨excluded, hexcluded, hsub⟩ := footer_sub b ledger first last filter
  have hcash : subtypeNet b ledger first last filter .expense .nonOperatingExpense
      (CountsOn b .cash) =
        subtypeNet b ledger first last filter .expense .nonOperatingExpense (PeerIsCash b) :=
    Books.netWhere_congr fun p _ => by simp [CountsOn]
  rw [sectionNet_eq _ _ _ _ _ _ _ _ (Or.inl rfl), sectionNet_eq _ _ _ _ _ _ _ _ (Or.inl rfl),
    sectionNet_eq _ _ _ _ _ _ _ _ (Or.inr rfl), subtypeNet_accrual, add_sub_cancel_left,
    hcash] at hsub
  constructor
  · rintro ⟨e, he, heq⟩
    obtain rfl : excluded = e := Option.some.inj (hexcluded.symm.trans he)
    exact sub_eq_zero.mp (hsub.symm.trans (sub_eq_zero.mpr heq))
  · intro heq
    exact ⟨excluded, hexcluded, sub_eq_zero.mp (hsub.trans (sub_eq_zero.mpr heq))⟩

/-! ## Interest paid -/

def interest : Account :=
  ⟨2, 1, "Interest", none, .expense, .nonOperatingExpense, "USD", false, by decide⟩

/-- Interest of 40 is paid from the bank account. -/
def interestBooks : Books where
  accounts := [bank, interest]
  transactions := [entryOf 1 "Interest"]
  postings := [{ id := 1, transactionId := 1, accountId := 2, amount := 40, direction := .debit },
    { id := 2, transactionId := 1, accountId := 1, amount := 40, direction := .credit }]

/-- The interest is in the cash net income, and in the footer once more. -/
theorem not_reconciles : ¬ ∀ (b : Books) (ledger : Uuid) (first last : NaiveDate),
    Reconciles b ledger first last .empty := by
  intro h
  obtain ⟨excluded, hexcluded, heq⟩ := h interestBooks 1 march march
  have hfooter : (buildIncomeStatementFiltered interestBooks 1 march march .cash .empty).excluded =
      some ⟨0, 40⟩ := by decide +kernel
  obtain rfl := Option.some.inj (hexcluded.symm.trans hfooter)
  revert heq
  decide +kernel

end Reports

end OpenAccounting
