import OpenAccounting.Handlers.Reports

/-!
# Assets equal liabilities plus equity

The balance sheet page adds five sums: the asset accounts of four subtypes, the liability
accounts of two, all equity accounts, and income minus expense from the first day of the
current year.  Every posting on an account of the ledger is in one of them or in none.
What is in none is `LeftOut`: employee advances and payables, and the income and expense
of earlier years.

In books whose entries balance, the two sides of the page differ by the net of what is
left out, up to what entries post across ledgers (`balanceSheet_balances_iff`).
-/

namespace OpenAccounting

open Calendar Relational

namespace Books

variable {b : Books}

theorem postedOn_iff {p : Posting} {a : Account} (ha : a ∈ b.accounts) (hid : a.id = p.accountId)
    {P : Account → Prop} : b.PostedOn P p ↔ P a := by
  constructor
  · rintro ⟨a', ha', hid', hP⟩
    rwa [← List.inj_on_of_nodup_map b.account_ids_nodup ha' ha (hid'.trans hid.symm)]
  · intro hP
    exact ⟨a, ha, hid, hP⟩

theorem netWhere_eq_sum (P : Posting → Prop) [DecidablePred P] :
    b.netWhere P = (b.postings.map fun p => if P p then p.signed else 0).sum :=
  sum_map_filter P Posting.signed b.postings

end Books

namespace Reports

/-! ## What the page counts -/

/-- The posting is on an account of the ledger. -/
def OnLedger (b : Books) (ledger : Uuid) (p : Posting) : Prop :=
  b.PostedOn (fun a => a.ledgerId = ledger) p

instance (b : Books) (ledger : Uuid) : DecidablePred (OnLedger b ledger) := by
  unfold OnLedger
  infer_instance

/-- The posting is part of an entry of the ledger. -/
def OfLedger (b : Books) (ledger : Uuid) (p : Posting) : Prop :=
  b.PostedBy (fun t => t.ledgerId = ledger) p

instance (b : Books) (ledger : Uuid) : DecidablePred (OfLedger b ledger) := by
  unfold OfLedger
  infer_instance

/-- The posting is on an account of the ledger and in no total of the page: it is on an
employee's advance or payable, or on income or expense outside the period of the net
income. -/
def LeftOut (b : Books) (ledger : Uuid) (first last : NaiveDate) (p : Posting) : Prop :=
  b.PostedOn (fun a => a.ledgerId = ledger ∧
      (a.subtype = .employeeAdvance ∨ a.subtype = .employeePayable)) p ∨
    (b.PostedOn (OnStatement ledger) p ∧ ¬ b.PostedBy (InPeriod first last) p)

instance (b : Books) (ledger : Uuid) (first last : NaiveDate) :
    DecidablePred (LeftOut b ledger first last) := by
  unfold LeftOut
  infer_instance

/-- What entries of other ledgers post on the ledger's accounts, minus what its own entries
post on accounts of other ledgers. -/
def crossingNet (b : Books) (ledger : Uuid) : ℚ :=
  (b.netWhere fun p => OnLedger b ledger p ∧ ¬ OfLedger b ledger p) -
    b.netWhere fun p => OfLedger b ledger p ∧ ¬ OnLedger b ledger p

variable (b : Books) (ledger : Uuid) (first last : NaiveDate)

/-- A posting on an account of the ledger is in one of the totals or left out. -/
theorem netWhere_onLedger :
    b.netWhere (OnLedger b ledger) =
      b.netWhere (b.PostedOn fun a => OnSheet ledger a ∧
        (a.type = .asset ∧ a.subtype ∈ assetSubtypes.map Prod.fst)) +
      b.netWhere (b.PostedOn fun a => OnSheet ledger a ∧
        (a.type = .liability ∧ a.subtype ∈ liabilitySubtypes.map Prod.fst)) +
      b.netWhere (b.PostedOn fun a => OnSheet ledger a ∧ a.type = .equity) +
      (b.netWhere fun p => b.PostedOn (OnStatement ledger) p ∧
        b.PostedBy (InPeriod first last) p) +
      b.netWhere (LeftOut b ledger first last) := by
  simp only [Books.netWhere_eq_sum, ← List.sum_map_add]
  refine congrArg List.sum (List.map_congr_left ?_)
  intro p hp
  obtain ⟨a, ha, hid⟩ := List.mem_map.mp (b.posting_account_fk p hp)
  have hvalid := a.subtype_valid
  simp only [OnLedger, LeftOut, Books.postedOn_iff ha hid, OnSheet, OnStatement]
  by_cases hledger : a.ledgerId = ledger
  · cases htype : a.type with
    | asset =>
      simp only [htype, AccountType.validSubtypes, List.mem_cons, List.not_mem_nil,
        or_false] at hvalid
      rcases hvalid with h | h | h | h | h
      all_goals simp [hledger, h, assetSubtypes]
    | liability =>
      simp only [htype, AccountType.validSubtypes, List.mem_cons, List.not_mem_nil,
        or_false] at hvalid
      rcases hvalid with h | h | h
      all_goals simp [hledger, h, liabilitySubtypes]
    | equity =>
      simp only [htype, AccountType.validSubtypes, List.mem_cons, List.not_mem_nil,
        or_false] at hvalid
      rcases hvalid with h | h | h
      all_goals simp [hledger, h]
    | income =>
      simp only [htype, AccountType.validSubtypes, List.mem_cons, List.not_mem_nil,
        or_false] at hvalid
      by_cases hin : b.PostedBy (InPeriod first last) p
      all_goals rcases hvalid with h | h
      all_goals simp [hledger, h, hin]
    | expense =>
      simp only [htype, AccountType.validSubtypes, List.mem_cons, List.not_mem_nil,
        or_false] at hvalid
      by_cases hin : b.PostedBy (InPeriod first last) p
      all_goals rcases hvalid with h | h | h | h
      all_goals simp [hledger, h, hin]
  · simp [hledger]

theorem netWhere_ofLedger (hbal : ∀ t ∈ b.transactions, t.ledgerId = ledger → b.Balanced t.id) :
    b.netWhere (OfLedger b ledger) = 0 := by
  refine (Books.sum_net_postingsOf fun t => t.ledgerId = ledger).symm.trans ?_
  refine List.sum_eq_zero ?_
  intro x hx
  obtain ⟨t, ht, rfl⟩ := List.mem_map.mp hx
  obtain ⟨ht, hledger⟩ := List.mem_filter.mp ht
  exact (Books.balanced_iff_net.mp (hbal t ht (of_decide_eq_true hledger))).2

/-- In balanced books the accounts of a ledger net to what crosses its border. -/
theorem netWhere_onLedger_eq_crossingNet
    (hbal : ∀ t ∈ b.transactions, t.ledgerId = ledger → b.Balanced t.id) :
    b.netWhere (OnLedger b ledger) = crossingNet b ledger := by
  have hof := netWhere_ofLedger b ledger hbal
  rw [Books.netWhere_split (OfLedger b ledger) (OnLedger b ledger)] at hof
  have hboth : (b.netWhere fun p => OnLedger b ledger p ∧ OfLedger b ledger p) =
      b.netWhere fun p => OfLedger b ledger p ∧ OnLedger b ledger p :=
    Books.netWhere_congr fun p _ => and_comm
  rw [Books.netWhere_split (OnLedger b ledger) (OfLedger b ledger), crossingNet, hboth]
  linarith

theorem accrual_netIncome_eq :
    (buildIncomeStatement b ledger first last .accrual).netIncome =
      -b.netWhere fun p => b.PostedOn (OnStatement ledger) p ∧
        b.PostedBy (InPeriod first last) p := by
  rw [buildIncomeStatement, netIncome_eq]
  refine congrArg Neg.neg (Books.netWhere_congr ?_)
  intro p _
  constructor
  · rintro ⟨⟨-, hon, hby⟩, -⟩
    exact ⟨hon, hby⟩
  · rintro ⟨hon, hby⟩
    exact ⟨⟨DimensionFilter.passes_empty p, hon, hby⟩, Or.inl rfl⟩

/-- On the page of a ledger with balanced entries, assets equal liabilities plus equity
plus net income exactly when what the page leaves out nets to what crosses the ledger's
border. -/
theorem balanceSheet_balances_iff {db : Db} {today : NaiveDate} {user ledger : Uuid}
    {asOfParam : Option NaiveDate} {page : BalanceSheetPage}
    (hpage : balanceSheet db today user ledger asOfParam = .ok page)
    (hbal : ∀ t ∈ db.books.transactions, t.ledgerId = ledger → db.books.Balanced t.id) :
    (page.totalAssets = page.totalLiabEquity ∧
        page.totalLiabEquity =
          (pageSheet db today ledger (asOfParam.getD today)).totalLiabilities +
            (pageSheet db today ledger (asOfParam.getD today)).totalEquity +
            (pageStatement db today ledger (asOfParam.getD today)).netIncome) ↔
      db.books.netWhere
          (LeftOut db.books ledger today.firstOfYear (asOfParam.getD today)) =
        crossingNet db.books ledger := by
  obtain ⟨hassets, hliabEquity⟩ := balanceSheet_totals hpage
  rw [hassets, hliabEquity]
  generalize asOfParam.getD today = asOf
  have hdef : (pageSheet db today ledger asOf).totalLiabEquity =
      (pageSheet db today ledger asOf).totalLiabilities +
        (pageSheet db today ledger asOf).totalEquity +
        (pageStatement db today ledger asOf).netIncome :=
    totalLiabEquity_eq db.books ledger asOf (pageStatement db today ledger asOf).netIncome
  have hA : (pageSheet db today ledger asOf).totalAssets = _ :=
    totalAssets_eq db.books ledger asOf (pageStatement db today ledger asOf).netIncome
  have hL : (pageSheet db today ledger asOf).totalLiabilities = _ :=
    totalLiabilities_eq db.books ledger asOf (pageStatement db today ledger asOf).netIncome
  have hE : (pageSheet db today ledger asOf).totalEquity = _ :=
    totalEquity_eq db.books ledger asOf (pageStatement db today ledger asOf).netIncome
  have hI : (pageStatement db today ledger asOf).netIncome = _ :=
    accrual_netIncome_eq db.books ledger today.firstOfYear asOf
  have hparts := netWhere_onLedger db.books ledger today.firstOfYear asOf
  rw [netWhere_onLedger_eq_crossingNet db.books ledger hbal] at hparts
  constructor
  · rintro ⟨heq, -⟩
    linarith
  · intro hout
    refine ⟨?_, hdef⟩
    linarith

/-! ## An advance -/

/-- The third of March 2025. -/
def march : NaiveDate := (NaiveDate.fromYmdOpt 2025 3 3).getD default

def bank : Account :=
  ⟨1, 1, "Bank", none, .asset, .currentAsset, "USD", false, AccountType.currentAsset_valid⟩

/-- The owner's capital. -/
def capital : Account := ⟨2, 1, "Capital", none, .equity, .equity, "USD", false,
  AccountType.equity_valid⟩

/-- Advances to employees. -/
def advances : Account :=
  ⟨3, 1, "Advances", none, .asset, .employeeAdvance, "USD", false, by decide⟩

def entryOf (id : Uuid) (description : String) : Transaction where
  id := id
  ledgerId := 1
  txnDate := march
  description := description
  currency := "USD"
  kind := .standard
  createdBy := 1

/-- The owner pays in 200. -/
def fundedBooks : Books where
  accounts := [bank, capital, advances]
  transactions := [entryOf 1 "Capital"]
  postings := [{ id := 1, transactionId := 1, accountId := 1, amount := 200, direction := .debit },
    { id := 2, transactionId := 1, accountId := 2, amount := 200, direction := .credit }]

/-- And 50 of it is advanced to an employee. -/
def advancedBooks : Books where
  accounts := [bank, capital, advances]
  transactions := [entryOf 1 "Capital", entryOf 2 "Travel advance"]
  postings := [{ id := 1, transactionId := 1, accountId := 1, amount := 200, direction := .debit },
    { id := 2, transactionId := 1, accountId := 2, amount := 200, direction := .credit },
    { id := 3, transactionId := 2, accountId := 3, amount := 50, direction := .debit },
    { id := 4, transactionId := 2, accountId := 1, amount := 50, direction := .credit }]

def ledgerWith (b : Books) : Db where
  users := [{ id := 1 }]
  ledgers := [{ id := 1, ownerId := 1 }]
  books := b

/-- The page before the advance. -/
def fundedPage : BalanceSheetPage where
  ledgerId := 1
  asOf := march
  assets := [⟨"Current Assets", [⟨1, "Bank", "ASSET", 200, some 200⟩], 200⟩]
  liabilities := []
  equity := [⟨2, "Capital", "EQUITY", 200, some 200⟩]
  netIncome := 0
  totalAssets := 200
  totalLiabEquity := 200
  balanced := true
  closedNotice := ""

/-- The page before the advance balances, and nothing is left out. -/
theorem balanceSheet_balances_iff_funded :
    balanceSheet (ledgerWith fundedBooks) march 1 1 (some march) = .ok fundedPage ∧
      ((fundedPage.totalAssets = fundedPage.totalLiabEquity ∧ fundedPage.totalLiabEquity =
          (pageSheet (ledgerWith fundedBooks) march 1 march).totalLiabilities +
            (pageSheet (ledgerWith fundedBooks) march 1 march).totalEquity +
            (pageStatement (ledgerWith fundedBooks) march 1 march).netIncome) ↔
        fundedBooks.netWhere (LeftOut fundedBooks 1 march.firstOfYear march) =
          crossingNet fundedBooks 1) := by
  have hpage : balanceSheet (ledgerWith fundedBooks) march 1 1 (some march) = .ok fundedPage := by
    decide +kernel
  have hiff := balanceSheet_balances_iff hpage (by decide +kernel)
  rw [Option.getD_some] at hiff
  exact ⟨hpage, hiff⟩

/-- The page after the advance. -/
def advancedPage : BalanceSheetPage where
  ledgerId := 1
  asOf := march
  assets := [⟨"Current Assets", [⟨1, "Bank", "ASSET", 150, some 150⟩], 150⟩]
  liabilities := []
  equity := [⟨2, "Capital", "EQUITY", 200, some 200⟩]
  netIncome := 0
  totalAssets := 150
  totalLiabEquity := 200
  balanced := false
  closedNotice := ""

/-- After the advance every entry balances, counts and is dated by then, and the page
does not balance. -/
theorem advancedPage_not_balanced :
    (∀ t ∈ advancedBooks.transactions,
        advancedBooks.Balanced t.id ∧ t.kind.reportable ∧ t.txnDate ≤ march) ∧
      balanceSheet (ledgerWith advancedBooks) march 1 1 none = .ok advancedPage ∧
      advancedPage.totalAssets ≠ advancedPage.totalLiabEquity := by
  decide +kernel

end Reports

end OpenAccounting
