import OpenAccounting.Reports.TrialBalance

/-!
# The balance sheet

`reports/balance_sheet.rs`.  Assets and liabilities are shown by subtype, from a fixed
list of subtypes each, and equity accounts in one list.  The net income is an argument.
An account whose subtype is on no list is in no section and no total.
-/

namespace OpenAccounting

open Calendar Relational

namespace Reports

structure BalanceSheetSection where
  label : String
  accounts : List AccountTotal
  total : ℚ
deriving DecidableEq

structure BalanceSheetResult where
  assets : List BalanceSheetSection
  liabilities : List BalanceSheetSection
  equity : List AccountTotal
  netIncome : ℚ
  totalAssets : ℚ
  totalLiabilities : ℚ
  totalEquity : ℚ
  totalLiabEquity : ℚ
deriving DecidableEq

/-- `a.ledger_id = $1 AND a.type IN ('ASSET','LIABILITY','EQUITY')`. -/
def OnSheet (ledger : Uuid) (a : Account) : Prop :=
  a.ledgerId = ledger ∧ (a.type = .asset ∨ a.type = .liability ∨ a.type = .equity)

instance (ledger : Uuid) : DecidablePred (OnSheet ledger) := by
  unfold OnSheet
  infer_instance

/-- The query: an account and its `raw_net`. -/
def balanceSheetNets (b : Books) (ledger : Uuid) (asOf : NaiveDate) : List (Account × ℚ) :=
  orderBy (fun r => toLex (r.1.type.asStr, toLex (r.1.subtype.asStr, r.1.name)))
    (accountNets b (OnSheet ledger) .empty asOf netBySides)

def assetSubtypes : List (AccountSubtype × String) :=
  [(.currentAsset, "Current Assets"), (.fixedAsset, "Fixed Assets"),
    (.intangibleAsset, "Intangible Assets"), (.otherAsset, "Other Assets")]

def liabilitySubtypes : List (AccountSubtype × String) :=
  [(.currentLiability, "Current Liabilities"), (.longTermLiability, "Long-Term Liabilities")]

/-- The accounts of one section, without those that show zero. -/
def sectionAccounts (rows : List (Account × ℚ)) (type : AccountType) (amount : ℚ → ℚ)
    (subtype : AccountSubtype) : List AccountTotal :=
  ((rows.filter fun r => r.1.type = type ∧ r.1.subtype = subtype).map fun r =>
    { accountId := r.1.id, accountName := r.1.name, accountType := r.1.type.asStr,
      amount := amount r.2 : AccountTotal }).filter fun a => a.amount ≠ 0

/-- One turn of a loop over subtypes: a section without accounts is left out. -/
def addSection (rows : List (Account × ℚ)) (type : AccountType) (amount : ℚ → ℚ)
    (acc : List BalanceSheetSection × ℚ) (entry : AccountSubtype × String) :
    List BalanceSheetSection × ℚ :=
  let accounts := sectionAccounts rows type amount entry.1
  let total := (accounts.map AccountTotal.amount).sum
  if accounts = [] then acc else (acc.1 ++ [⟨entry.2, accounts, total⟩], acc.2 + total)

/-- The loop over asset subtypes: an asset shows debits minus credits. -/
def assetSections (rows : List (Account × ℚ)) : List BalanceSheetSection × ℚ :=
  assetSubtypes.foldl (addSection rows .asset id) ([], 0)

/-- The loop over liability subtypes: a liability shows credits minus debits. -/
def liabilitySections (rows : List (Account × ℚ)) : List BalanceSheetSection × ℚ :=
  liabilitySubtypes.foldl (addSection rows .liability fun raw => -raw) ([], 0)

/-- One turn of the loop over equity accounts.  The total names the subtype. -/
def addEquity (acc : List AccountTotal × ℚ) (r : Account × ℚ) : List AccountTotal × ℚ :=
  if r.1.type = .equity then
    let amount := -r.2
    if amount ≠ 0 then
      (acc.1 ++ [⟨r.1.id, r.1.name, r.1.subtype.asStr, amount, none⟩], acc.2 + amount)
    else acc
  else acc

def buildBalanceSheet (b : Books) (ledger : Uuid) (asOf : NaiveDate) (netIncome : ℚ) :
    BalanceSheetResult :=
  let rows := balanceSheetNets b ledger asOf
  let (assets, totalAssets) := assetSections rows
  let (liabilities, totalLiab) := liabilitySections rows
  let (equity, totalEq) := rows.foldl addEquity ([], 0)
  { assets := assets
    liabilities := liabilities
    equity := equity
    netIncome := netIncome
    totalAssets := totalAssets
    totalLiabilities := totalLiab
    totalEquity := totalEq
    totalLiabEquity := totalLiab + totalEq + netIncome }

/-! ## The totals -/

variable {rows : List (Account × ℚ)} {type : AccountType} {amount : ℚ → ℚ}

theorem sum_sectionAccounts (subtype : AccountSubtype) :
    ((sectionAccounts rows type amount subtype).map AccountTotal.amount).sum =
      (((rows.filter fun r => r.1.type = type).filter fun r => r.1.subtype = subtype).map
        fun r => amount r.2).sum := by
  rw [sectionAccounts, sum_amount_filter, List.map_map, List.filter_filter]
  refine congrArg List.sum (congrArg (List.map _) (List.filter_congr ?_))
  intro r _
  rw [Bool.decide_and, Bool.and_comm]

theorem addSection_total (acc : List BalanceSheetSection × ℚ) (entry : AccountSubtype × String) :
    (addSection rows type amount acc entry).2 =
      acc.2 + ((sectionAccounts rows type amount entry.1).map AccountTotal.amount).sum := by
  rw [addSection]
  split
  · next hnone => simp [hnone]
  · rfl

theorem foldl_addSection_total (entries : List (AccountSubtype × String))
    (acc : List BalanceSheetSection × ℚ) :
    (entries.foldl (addSection rows type amount) acc).2 = acc.2 + (entries.map fun entry =>
      ((sectionAccounts rows type amount entry.1).map AccountTotal.amount).sum).sum :=
  measure_foldl (m := Prod.snd) addSection_total entries acc

/-- The total of the sections is the sum over the accounts whose subtype is listed. -/
theorem sections_total {entries : List (AccountSubtype × String)}
    (hnodup : (entries.map Prod.fst).Nodup) :
    (entries.foldl (addSection rows type amount) ([], 0)).2 =
      ((rows.filter fun r => r.1.type = type ∧ r.1.subtype ∈ entries.map Prod.fst).map
        fun r => amount r.2).sum := by
  have hsum := sum_by_key hnodup (fun _ => True) (fun r : Account × ℚ => r.1.subtype)
    (fun r => amount r.2) (rows.filter fun r => r.1.type = type)
  simp only [decide_true, List.filter_true, and_true] at hsum
  rw [foldl_addSection_total, zero_add]
  simp only [sum_sectionAccounts]
  rw [hsum, List.filter_filter]
  refine congrArg List.sum (congrArg (List.map _) (List.filter_congr ?_))
  intro r _
  rw [← Bool.decide_and, decide_eq_decide, List.mem_map]
  exact and_comm

theorem addEquity_total (acc : List AccountTotal × ℚ) (r : Account × ℚ) :
    (addEquity acc r).2 = acc.2 + if r.1.type = .equity then -r.2 else 0 := by
  by_cases htype : r.1.type = .equity
  · by_cases hzero : r.2 = 0
    · simp [addEquity, htype, hzero]
    · simp [addEquity, htype, hzero]
  · simp [addEquity, htype]

theorem foldl_addEquity_total (acc : List AccountTotal × ℚ) :
    (rows.foldl addEquity acc).2 =
      acc.2 + ((rows.filter fun r => r.1.type = .equity).map fun r => -r.2).sum := by
  rw [sum_map_filter (fun r : Account × ℚ => r.1.type = .equity)]
  exact measure_foldl (m := Prod.snd) addEquity_total rows acc

section Totals

variable (b : Books) (ledger : Uuid) (asOf : NaiveDate) (netIncome : ℚ)

/-- Every asset, liability and equity account of the ledger has one net in the query. -/
theorem mem_balanceSheetNets {a : Account} {x : ℚ} :
    (a, x) ∈ balanceSheetNets b ledger asOf ↔
      a ∈ b.accounts ∧ OnSheet ledger a ∧ x = Posting.net (postingsOn b .empty a) := by
  rw [balanceSheetNets, mem_orderBy, mem_accountNets .empty asOf netBySides_eq]

/-- The nets of the rows with `P` sum to the net of the postings on such accounts. -/
theorem sum_balanceSheetNets (P : Account → Prop) [DecidablePred P] :
    (((balanceSheetNets b ledger asOf).filter fun r => P r.1).map Prod.snd).sum =
      b.netWhere (b.PostedOn fun a => OnSheet ledger a ∧ P a) := by
  rw [balanceSheetNets, (((orderBy_perm _ _).filter _).map _).sum_eq,
    sum_accountNets .empty asOf netBySides_eq]
  refine Books.netWhere_congr ?_
  intro p _
  exact and_iff_right (DimensionFilter.passes_empty p)

theorem buildBalanceSheet_totals :
    (buildBalanceSheet b ledger asOf netIncome).totalAssets =
        (assetSections (balanceSheetNets b ledger asOf)).2 ∧
      (buildBalanceSheet b ledger asOf netIncome).totalLiabilities =
        (liabilitySections (balanceSheetNets b ledger asOf)).2 ∧
      (buildBalanceSheet b ledger asOf netIncome).totalEquity =
        ((balanceSheetNets b ledger asOf).foldl addEquity ([], 0)).2 := by
  delta buildBalanceSheet
  dsimp only
  generalize assetSections (balanceSheetNets b ledger asOf) = assets
  generalize liabilitySections (balanceSheetNets b ledger asOf) = liabilities
  generalize (balanceSheetNets b ledger asOf).foldl addEquity ([], 0) = equity
  exact ⟨rfl, rfl, rfl⟩

theorem totalLiabEquity_eq :
    (buildBalanceSheet b ledger asOf netIncome).totalLiabEquity =
      (buildBalanceSheet b ledger asOf netIncome).totalLiabilities +
        (buildBalanceSheet b ledger asOf netIncome).totalEquity + netIncome := by
  obtain ⟨-, hliabilities, hequity⟩ := buildBalanceSheet_totals b ledger asOf netIncome
  rw [hliabilities, hequity, buildBalanceSheet]

theorem totalAssets_eq :
    (buildBalanceSheet b ledger asOf netIncome).totalAssets =
      b.netWhere (b.PostedOn fun a => OnSheet ledger a ∧
        (a.type = .asset ∧ a.subtype ∈ assetSubtypes.map Prod.fst)) := by
  have hnodup : (assetSubtypes.map Prod.fst).Nodup := by decide
  rw [← sum_balanceSheetNets b ledger asOf,
    (buildBalanceSheet_totals b ledger asOf netIncome).1, assetSections,
    sections_total hnodup]
  rfl

/-- Total liabilities: credits minus debits of the accounts of the two listed subtypes. -/
theorem totalLiabilities_eq :
    (buildBalanceSheet b ledger asOf netIncome).totalLiabilities =
      -b.netWhere (b.PostedOn fun a => OnSheet ledger a ∧
        (a.type = .liability ∧ a.subtype ∈ liabilitySubtypes.map Prod.fst)) := by
  have hnodup : (liabilitySubtypes.map Prod.fst).Nodup := by decide
  rw [← sum_balanceSheetNets b ledger asOf, List.sum_neg, List.map_map,
    (buildBalanceSheet_totals b ledger asOf netIncome).2.1, liabilitySections, sections_total hnodup]
  rfl

theorem totalEquity_eq :
    (buildBalanceSheet b ledger asOf netIncome).totalEquity =
      -b.netWhere (b.PostedOn fun a => OnSheet ledger a ∧ a.type = .equity) := by
  rw [← sum_balanceSheetNets b ledger asOf, List.sum_neg, List.map_map,
    (buildBalanceSheet_totals b ledger asOf netIncome).2.2, foldl_addEquity_total, zero_add]
  rfl

end Totals

end Reports

end OpenAccounting

/-!
## The three balances of an account

The trial balance, the balance sheet and the general ledger each compute a balance for an
account at a date.  They agree on one figure, which the general ledger writes in the
account's own sense: the figure itself for a debit-normal account, its negation for a
credit-normal one.  Where the postings outside the report's scope net to zero, the figure
is the sum of the postings inside it.
-/

namespace OpenAccounting

open Calendar

namespace Reports

/-- The transaction counts in a report as of `d`. -/
def InScope (d : NaiveDate) (t : Transaction) : Prop := t.kind.reportable ∧ t.txnDate ≤ d

instance (d : NaiveDate) : DecidablePred (InScope d) := by
  unfold InScope
  infer_instance

/-- Debits minus credits of the account over the transactions in scope. -/
def asOfNet (b : Books) (a : Account) (d : NaiveDate) : ℚ :=
  b.netWhere fun p => p.accountId = a.id ∧ b.PostedBy (InScope d) p

/-- Debits minus credits of the account over the drafts, the pending journals and the
transactions dated later. -/
def outOfScopeNet (b : Books) (a : Account) (d : NaiveDate) : ℚ :=
  b.netWhere fun p => p.accountId = a.id ∧ ¬ b.PostedBy (InScope d) p

theorem net_postingsOn_empty (b : Books) (a : Account) (d : NaiveDate) :
    Posting.net (postingsOn b .empty a) = asOfNet b a d + outOfScopeNet b a d := by
  have hall : Posting.net (postingsOn b .empty a) = b.netWhere fun p => p.accountId = a.id := by
    refine congrArg Posting.net (List.filter_congr ?_)
    intro p _
    exact decide_eq_decide.mpr (and_iff_left (DimensionFilter.passes_empty p))
  rw [hall, asOfNet, outOfScopeNet]
  exact Books.netWhere_split _ _

theorem inNormalSense_eq (type : AccountType) (net : ℚ) :
    inNormalSense type net = if type.normalDirection = .debit then net else -net := by
  cases type <;> rfl

/-- The three reports show one figure for an account, the general ledger with the sign of
the account's normal side, and it is the as-of sum where nothing out of scope is left
over. -/
theorem reports_agree (b : Books) (ledger : Uuid) (first d : NaiveDate)
    (accountFilter : Option Uuid) {a : Account} (ha : a ∈ b.accounts)
    (hledger : a.ledgerId = ledger) :
    ∃ figure : ℚ,
      (∀ net, (a, net) ∈ trialBalanceNets b ledger d .empty ↔ net = figure) ∧
      (a.type = .asset ∨ a.type = .liability ∨ a.type = .equity →
        ∀ rawNet, (a, rawNet) ∈ balanceSheetNets b ledger d ↔ rawNet = figure) ∧
      (buildGeneralLedger b ledger first d accountFilter).2 a.id =
        some (if a.type.normalDirection = .debit then figure else -figure) ∧
      (outOfScopeNet b a d = 0 → figure = asOfNet b a d) := by
  refine ⟨Posting.net (postingsOn b .empty a), ?_, ?_, ?_, ?_⟩
  · intro net
    rw [mem_trialBalanceNets, and_iff_right ha, and_iff_right hledger]
  · intro htype rawNet
    rw [mem_balanceSheetNets, and_iff_right ha, and_iff_right ⟨hledger, htype⟩]
  · rw [buildGeneralLedger_balance ha hledger, inNormalSense_eq]
  · intro hout
    rw [net_postingsOn_empty b a d, hout, add_zero]

/-! ## A purchase on credit -/

def june : NaiveDate := (NaiveDate.fromYmdOpt 2025 6 1).getD default

def supplies : Account :=
  ⟨1, 1, "Supplies", none, .asset, .currentAsset, "USD", false, AccountType.currentAsset_valid⟩

/-- The account of what is owed to suppliers. -/
def payable : Account :=
  ⟨2, 1, "Accounts Payable", none, .liability, .currentLiability, "USD", false, by decide⟩

/-- The entry of a purchase. -/
def paper : Transaction where
  id := 1
  ledgerId := 1
  txnDate := june
  description := "Paper"
  currency := "USD"
  kind := .standard
  createdBy := 1

/-- Supplies for 100 bought on credit. -/
def creditPurchase : Books where
  accounts := [supplies, payable]
  transactions := [paper]
  postings := [{ id := 1, transactionId := 1, accountId := 1, amount := 100, direction := .debit },
    { id := 2, transactionId := 1, accountId := 2, amount := 100, direction := .credit }]

/-- The reports agree on what is owed. -/
theorem reports_agree_payable : payable ∈ creditPurchase.accounts ∧ payable.ledgerId = 1 ∧
    ∃ figure : ℚ,
      (∀ net, (payable, net) ∈ trialBalanceNets creditPurchase 1 june .empty ↔ net = figure) ∧
      (payable.type = .asset ∨ payable.type = .liability ∨ payable.type = .equity →
        ∀ rawNet, (payable, rawNet) ∈ balanceSheetNets creditPurchase 1 june ↔ rawNet = figure) ∧
      (buildGeneralLedger creditPurchase 1 june june none).2 payable.id =
        some (if payable.type.normalDirection = .debit then figure else -figure) ∧
      (outOfScopeNet creditPurchase payable june = 0 →
        figure = asOfNet creditPurchase payable june) :=
  ⟨by decide, rfl, reports_agree creditPurchase 1 june june none (by decide) rfl⟩

/-- What is owed stands in the general ledger with the opposite sign of its sum. -/
theorem payable_closing_ne_asOfNet :
    (buildGeneralLedger creditPurchase 1 june june none).2 payable.id = some 100 ∧
      asOfNet creditPurchase payable june = -100 := by
  decide +kernel

end Reports

end OpenAccounting
