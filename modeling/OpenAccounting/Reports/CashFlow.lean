import OpenAccounting.Reports.IncomeStatement

/-!
# The cash flow statement

`reports/cash_flow.rs`.  Three queries over the postings on cash accounts: the balance as
of `from`, the balance as of `to`, and the flows of the period by account.  The first one
counts the postings dated `from`, and so does the third.

So the movement is the difference of the two balances, and the flows exceed it by what the
first day of the period moved (`cashFlow_tiesOut_iff`).
-/

namespace OpenAccounting

open Calendar Relational

namespace Reports

structure CashFlowLine where
  accountName : String
  amount : ℚ
deriving DecidableEq

structure CashFlowResult where
  basis : ReportBasis
  opening : ℚ := 0
  closing : ℚ := 0
  movement : ℚ := 0
  inflows : List CashFlowLine := []
  outflows : List CashFlowLine := []
  totalInflows : ℚ := 0
  totalOutflows : ℚ := 0
deriving DecidableEq

/-! ## The queries -/

/-- `type = 'ASSET' AND (LOWER(name) LIKE '%cash%' OR LOWER(name) LIKE '%bank%' OR code LIKE '1%')`,
in the ledger. -/
def IsCash (ledger : Uuid) (a : Account) : Prop :=
  a.ledgerId = ledger ∧ a.type = .asset ∧
    (a.nameContains "cash" ∨ a.nameContains "bank" ∨ a.code.any fun c => "1".toList <+: c.toList)

instance (ledger : Uuid) : DecidablePred (IsCash ledger) := by
  unfold IsCash
  infer_instance

def cashIds (b : Books) (ledger : Uuid) : List Uuid :=
  (b.accounts.filter fun a => IsCash ledger a).map Account.id

/-- The transaction is the ledger's, reportable, and its date has `P`. -/
def CashTransaction (ledger : Uuid) (P : NaiveDate → Prop) (t : Transaction) : Prop :=
  t.ledgerId = ledger ∧ P t.txnDate ∧ t.kind.reportable

instance (ledger : Uuid) (P : NaiveDate → Prop) [DecidablePred P] :
    DecidablePred (CashTransaction ledger P) := by
  unfold CashTransaction
  infer_instance

def balQuery (b : Books) (ledger : Uuid) (ids : List Uuid) (on : NaiveDate) : ℚ :=
  let rows := (innerJoin (fun (p : Posting) (t : Transaction) => t.id = p.transactionId)
    b.postings b.transactions).filter fun r =>
      r.1.accountId ∈ ids ∧ CashTransaction ledger (· ≤ on) r.2
  Posting.sumOn .debit (rows.map Prod.fst) - Posting.sumOn .credit (rows.map Prod.fst)

/-- `flow_rows`: an account and its `raw`. -/
def flowRows (b : Books) (ledger : Uuid) (ids : List Uuid) (first last : NaiveDate) :
    List (Account × ℚ) :=
  let rows := (innerJoin (fun (r : Account × Posting) (t : Transaction) =>
      t.id = r.2.transactionId)
    (innerJoin (fun (a : Account) (p : Posting) => p.accountId = a.id) b.accounts b.postings)
    b.transactions).filter fun r =>
      r.1.1.id ∈ ids ∧ CashTransaction ledger (fun d => first ≤ d ∧ d ≤ last) r.2
  orderBy (fun r => r.1.name) ((groupBy (·.1.1) rows).map fun g =>
    (g.1, Posting.sumOn .debit (g.2.map (·.1.2)) - Posting.sumOn .credit (g.2.map (·.1.2))))

/-- One turn of the loop over the flows. -/
def addFlow (acc : CashFlowResult) (r : Account × ℚ) : CashFlowResult :=
  if 0 < r.2 then
    { acc with
      totalInflows := acc.totalInflows + r.2
      inflows := acc.inflows ++ [⟨r.1.name, r.2⟩] }
  else if r.2 < 0 then
    { acc with
      totalOutflows := acc.totalOutflows + -r.2
      outflows := acc.outflows ++ [⟨r.1.name, -r.2⟩] }
  else acc

def buildCashFlow (b : Books) (ledger : Uuid) (first last : NaiveDate) (basis : ReportBasis) :
    CashFlowResult :=
  let ids := cashIds b ledger
  if ids = [] then { basis := basis }
  else
    let opening := balQuery b ledger ids first
    let closing := balQuery b ledger ids last
    let flows := (flowRows b ledger ids first last).foldl addFlow { basis := basis }
    { flows with
      opening := opening
      closing := closing
      movement := closing - opening }

/-! ## What the queries compute -/

variable {b : Books} {ledger : Uuid} {first last : NaiveDate} {basis : ReportBasis}

/-- The posting is on a cash account, of a transaction whose date has `P`. -/
def CashPosting (b : Books) (ledger : Uuid) (P : NaiveDate → Prop) (p : Posting) : Prop :=
  b.PostedOn (IsCash ledger) p ∧ b.PostedBy (CashTransaction ledger P) p

instance (b : Books) (ledger : Uuid) (P : NaiveDate → Prop) [DecidablePred P] :
    DecidablePred (CashPosting b ledger P) := by
  unfold CashPosting
  infer_instance

theorem mem_cashIds {id : Uuid} :
    id ∈ cashIds b ledger ↔ ∃ a ∈ b.accounts, a.id = id ∧ IsCash ledger a := by
  rw [cashIds, List.mem_map]
  constructor
  · rintro ⟨a, ha, hid⟩
    obtain ⟨ha, hcash⟩ := List.mem_filter.mp ha
    exact ⟨a, ha, hid, of_decide_eq_true hcash⟩
  · rintro ⟨a, ha, hid, hcash⟩
    exact ⟨a, List.mem_filter.mpr ⟨ha, decide_eq_true hcash⟩, hid⟩

theorem sum_joinTransaction {α : Type*} (ref : α → Uuid) (R : α → Prop) [DecidablePred R]
    (Q : Transaction → Prop) [DecidablePred Q] (f : α → ℚ) (rows : List α) :
    (((innerJoin (fun a (t : Transaction) => t.id = ref a) rows b.transactions).filter fun r =>
        R r.1 ∧ Q r.2).map fun r => f r.1).sum =
      ((rows.filter fun a => R a ∧ ∃ t ∈ b.transactions, t.id = ref a ∧ Q t).map f).sum := by
  rw [sum_map_filter (fun r : α × Transaction => R r.1 ∧ Q r.2), sum_innerJoin,
    sum_map_filter (fun a => R a ∧ ∃ t ∈ b.transactions, t.id = ref a ∧ Q t)]
  refine congrArg List.sum (List.map_congr_left ?_)
  intro a _
  rw [sum_map_filter (fun t : Transaction => t.id = ref a)]
  by_cases hR : R a
  · have hone := sum_map_ite_key b.txn_ids_nodup (ref a) Q (f a)
    simp only [hR, true_and, ← ite_and]
    exact hone
  · simp [hR]

theorem balQuery_eq (on : NaiveDate) :
    balQuery b ledger (cashIds b ledger) on = b.netWhere (CashPosting b ledger (· ≤ on)) := by
  have hsum := sum_joinTransaction (b := b) Posting.transactionId
    (fun p => p.accountId ∈ cashIds b ledger) (CashTransaction ledger (· ≤ on)) Posting.signed
    b.postings
  rw [balQuery, Posting.sumOn_sub_sumOn, Posting.net, List.map_map]
  refine hsum.trans (congrArg Posting.net (List.filter_congr ?_))
  intro p _
  exact decide_eq_decide.mpr (and_congr_left' mem_cashIds)

/-- The rows of the flow query, summed over the postings joined with their accounts. -/
theorem sum_flowRows_joined (ids : List Uuid) :
    ((flowRows b ledger ids first last).map Prod.snd).sum =
      (((innerJoin (fun (a : Account) (p : Posting) => p.accountId = a.id) b.accounts
          b.postings).filter fun r => r.1.id ∈ ids ∧
            b.PostedBy (CashTransaction ledger fun d => first ≤ d ∧ d ≤ last) r.2).map
              fun r => r.2.signed).sum := by
  rw [flowRows, ((orderBy_perm _ _).map _).sum_eq, List.map_map]
  refine Eq.trans ?_ (sum_joinTransaction (fun r : Account × Posting => r.2.transactionId)
    (fun r => r.1.id ∈ ids) (CashTransaction ledger fun d => first ≤ d ∧ d ≤ last)
    (fun r => r.2.signed) _)
  refine Eq.trans ?_ (sum_groupBy (fun r : (Account × Posting) × Transaction => r.1.1)
    (fun r => r.1.2.signed) _)
  refine congrArg List.sum (List.map_congr_left fun g _ => ?_)
  exact (Posting.sumOn_sub_sumOn _).trans (congrArg List.sum List.map_map)

theorem sum_flowRows :
    ((flowRows b ledger (cashIds b ledger) first last).map Prod.snd).sum =
      b.netWhere (CashPosting b ledger fun d => first ≤ d ∧ d ≤ last) := by
  let dated := b.PostedBy (CashTransaction ledger fun d => first ≤ d ∧ d ≤ last)
  have haccounts := sum_by_key b.account_ids_nodup (fun a => a.id ∈ cashIds b ledger)
    Posting.accountId Posting.signed (b.postings.filter fun p => dated p)
  rw [sum_map_filter (fun a : Account => a.id ∈ cashIds b ledger), List.filter_filter] at haccounts
  rw [sum_flowRows_joined, sum_map_filter (fun r : Account × Posting =>
    r.1.id ∈ cashIds b ledger ∧ dated r.2), sum_innerJoin]
  calc _ = _ := by
        refine congrArg List.sum (List.map_congr_left fun a _ => ?_)
        by_cases ha : a.id ∈ cashIds b ledger
        · simp only [ha, true_and, if_true]
          rw [← sum_map_filter dated, List.filter_filter, List.filter_filter]
          refine congrArg List.sum (congrArg (List.map _) (List.filter_congr fun p _ => ?_))
          exact Bool.and_comm _ _
        · simp [ha]
    _ = _ := haccounts
    _ = b.netWhere (CashPosting b ledger fun d => first ≤ d ∧ d ≤ last) := by
        refine congrArg Posting.net (List.filter_congr fun p _ => ?_)
        rw [← Bool.decide_and, decide_eq_decide]
        refine and_congr_left fun _ => ?_
        constructor
        · rintro ⟨a, ha, hid, hcash⟩
          obtain ⟨a', ha', hid', hcash'⟩ := mem_cashIds.mp hcash
          exact ⟨a', ha', hid'.trans hid, hcash'⟩
        · rintro ⟨a, ha, hid, hcash⟩
          exact ⟨a, ha, hid, mem_cashIds.mpr ⟨a, ha, rfl, hcash⟩⟩

theorem addFlow_totals (acc : CashFlowResult) (r : Account × ℚ) :
    (addFlow acc r).totalInflows - (addFlow acc r).totalOutflows =
      acc.totalInflows - acc.totalOutflows + r.2 := by
  rw [addFlow]
  split
  · simp only
    ring
  · split
    · simp only
      ring
    · next hpos hneg => rw [le_antisymm (not_lt.mp hpos) (not_lt.mp hneg), add_zero]

/-! ## The statement -/

theorem netWhere_cashPosting_of_nil (hnone : cashIds b ledger = []) (P : NaiveDate → Prop)
    [DecidablePred P] : b.netWhere (CashPosting b ledger P) = 0 := by
  have hempty : (b.postings.filter fun p => CashPosting b ledger P p) = [] := by
    rw [List.filter_eq_nil_iff]
    intro p _ hp
    obtain ⟨a, ha, hid, hcash⟩ := (of_decide_eq_true hp).1
    have hmem := mem_cashIds.mpr ⟨a, ha, rfl, hcash⟩
    rw [hnone] at hmem
    cases hmem
  rw [Books.netWhere, hempty]
  rfl

theorem buildCashFlow_movement :
    (buildCashFlow b ledger first last basis).movement =
        (buildCashFlow b ledger first last basis).closing -
          (buildCashFlow b ledger first last basis).opening ∧
      (buildCashFlow b ledger first last basis).movement =
        b.netWhere (CashPosting b ledger (· ≤ last)) -
          b.netWhere (CashPosting b ledger (· ≤ first)) := by
  rw [buildCashFlow]
  by_cases hnone : cashIds b ledger = []
  · rw [if_pos hnone]
    simp [netWhere_cashPosting_of_nil hnone]
  · rw [if_neg hnone]
    simp [balQuery_eq]

theorem buildCashFlow_flows :
    (buildCashFlow b ledger first last basis).totalInflows -
        (buildCashFlow b ledger first last basis).totalOutflows =
      b.netWhere (CashPosting b ledger fun d => first ≤ d ∧ d ≤ last) := by
  rw [buildCashFlow]
  by_cases hnone : cashIds b ledger = []
  · rw [if_pos hnone]
    simp [netWhere_cashPosting_of_nil hnone]
  · rw [if_neg hnone, ← sum_flowRows]
    have hfold := measure_foldl (m := fun acc : CashFlowResult =>
      acc.totalInflows - acc.totalOutflows) addFlow_totals
        (flowRows b ledger (cashIds b ledger) first last) { basis := basis }
    exact hfold.trans ((congrArg (· + _) (sub_self 0)).trans (zero_add _))

theorem cashPosting_iff {p : Posting} {t : Transaction} (ht : t ∈ b.transactions)
    (hid : t.id = p.transactionId) (P : NaiveDate → Prop) :
    CashPosting b ledger P p ↔ b.PostedOn (IsCash ledger) p ∧ CashTransaction ledger P t := by
  refine and_congr_right fun _ => ?_
  constructor
  · rintro ⟨t', ht', hid', hcash⟩
    rwa [← Books.txn_eq_of_id_eq ht' ht (hid'.trans hid.symm)]
  · exact fun hcash => ⟨t, ht, hid, hcash⟩

/-- The movement counts the days after `first`, the flows count `first` as well. -/
theorem netWhere_dates (hle : first ≤ last) :
    b.netWhere (CashPosting b ledger (· ≤ last)) +
        b.netWhere (CashPosting b ledger (· = first)) =
      b.netWhere (CashPosting b ledger (· ≤ first)) +
        b.netWhere (CashPosting b ledger fun d => first ≤ d ∧ d ≤ last) := by
  simp only [Books.netWhere, sum_map_filter, Posting.net, ← List.sum_map_add]
  refine congrArg List.sum (List.map_congr_left ?_)
  intro p hp
  obtain ⟨t, ht, hid⟩ := List.mem_map.mp (b.posting_txn_fk p hp)
  simp only [cashPosting_iff ht hid, CashTransaction]
  rcases lt_trichotomy t.txnDate first with hlt | heq | hgt
  · simp [hlt.le, hlt.ne, hlt.le.trans hle, not_le.mpr hlt]
  · simp [heq, hle]
  · simp [hgt.le, hgt.ne', not_le.mpr hgt]

/-- `movement = closing - opening = total_inflows - total_outflows`. -/
def CashFlowResult.TiesOut (result : CashFlowResult) : Prop :=
  result.movement = result.closing - result.opening ∧
    result.movement = result.totalInflows - result.totalOutflows

/-- The statement ties out exactly when the cash postings of its first day net to zero. -/
theorem cashFlow_tiesOut_iff (b : Books) (ledger : Uuid) {first last : NaiveDate}
    (basis : ReportBasis) (hle : first ≤ last) :
    (buildCashFlow b ledger first last basis).TiesOut ↔
      b.netWhere (CashPosting b ledger (· = first)) = 0 := by
  obtain ⟨hdiff, hmovement⟩ := @buildCashFlow_movement b ledger first last basis
  have hdates := @netWhere_dates b ledger first last hle
  rw [CashFlowResult.TiesOut, and_iff_right hdiff, hmovement, buildCashFlow_flows]
  constructor
  · intro h
    linarith
  · intro h
    linarith

/-! ## A loan on the first day -/

def till : Account :=
  ⟨1, 1, "Cash", some "1000", .asset, .currentAsset, "USD", false, AccountType.currentAsset_valid⟩

def loan : Account :=
  ⟨2, 1, "Loan", none, .liability, .longTermLiability, "USD", false, by decide⟩

def juneDay (day : ℕ) : NaiveDate := (NaiveDate.fromYmdOpt 2025 6 day).getD default

/-- A loan of 500 is paid out on the first of June. -/
def loanBooks : Books where
  accounts := [till, loan]
  transactions := [
    { id := 1, ledgerId := 1, txnDate := juneDay 1, description := "Loan", currency := "USD",
      kind := .standard, createdBy := 1 }]
  postings := [{ id := 1, transactionId := 1, accountId := 1, amount := 500, direction := .debit },
    { id := 2, transactionId := 1, accountId := 2, amount := 500, direction := .credit }]

/-- A period that begins on the second of June. -/
theorem cashFlow_tiesOut_iff_loan : juneDay 2 ≤ juneDay 30 ∧
    ((buildCashFlow loanBooks 1 (juneDay 2) (juneDay 30) .accrual).TiesOut ↔
      loanBooks.netWhere (CashPosting loanBooks 1 (· = juneDay 2)) = 0) :=
  ⟨by decide, cashFlow_tiesOut_iff loanBooks 1 .accrual (by decide)⟩

/-- A period that begins on the first of June shows an inflow of 500 and no movement. -/
theorem not_cashFlow_tiesOut : ¬ ∀ (b : Books) (ledger : Uuid) (first last : NaiveDate)
    (basis : ReportBasis), first ≤ last →
      (buildCashFlow b ledger first last basis).TiesOut := by
  intro h
  have htie := h loanBooks 1 (juneDay 1) (juneDay 30) .accrual (by decide)
  have hflows : (buildCashFlow loanBooks 1 (juneDay 1) (juneDay 30) .accrual).movement ≠
      (buildCashFlow loanBooks 1 (juneDay 1) (juneDay 30) .accrual).totalInflows -
        (buildCashFlow loanBooks 1 (juneDay 1) (juneDay 30) .accrual).totalOutflows := by
    decide +kernel
  exact hflows htie.2

end Reports

end OpenAccounting
