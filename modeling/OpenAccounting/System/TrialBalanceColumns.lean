import OpenAccounting.System.AccountingEquation

/-!
# The two columns of the trial balance

The loop of the trial balance shows a positive net of a debit-normal account in the debit
column and a negative net of any other account in the credit column.  A balance against
the account's normal side (an overdrawn bank account, an income account with more refunds
than sales) goes into neither: its row shows zero twice and the totals lose it.

So in a settled ledger the report ties out exactly when no account stands against its
normal side and the ledger's entries stay within the ledger (`tiesOut_iff`).
-/

namespace OpenAccounting

open Calendar Relational

namespace Reports

/-- Debit minus credit in the rows of an account. -/
def TrialBalanceResult.shown (result : TrialBalanceResult) (account : Uuid) : ℚ :=
  ((result.rows.filter fun r => r.accountId = account).map fun r => r.debit - r.credit).sum

/-- Every entry of the ledger counts, is dated by `asOf` and balances. -/
def Settled (b : Books) (ledger : Uuid) (asOf : NaiveDate) : Prop :=
  ∀ t ∈ b.transactions, t.ledgerId = ledger →
    t.kind.reportable ∧ t.txnDate ≤ asOf ∧ b.Balanced t.id

instance (b : Books) (ledger : Uuid) (asOf : NaiveDate) : Decidable (Settled b ledger asOf) := by
  unfold Settled
  infer_instance

/-- The columns have one total, and every account shows its net. -/
structure TiesOut (b : Books) (ledger : Uuid) (asOf : NaiveDate) : Prop where
  totals : (buildTrialBalance b ledger asOf).totalDebit =
    (buildTrialBalance b ledger asOf).totalCredit
  nets : ∀ a ∈ b.accounts, a.ledgerId = ledger →
    (buildTrialBalance b ledger asOf).shown a.id = netOf b a.id

/-- No account of the ledger stands against its normal side. -/
def NormalBalances (b : Books) (ledger : Uuid) : Prop :=
  ∀ a ∈ b.accounts, a.ledgerId = ledger → 0 ≤ inNormalSense a.type (netOf b a.id)

/-! ## One row -/

/-- What a net shows in the two columns. -/
def shownNet (r : Account × ℚ) : ℚ := (columns r.1.type r.2).1 - (columns r.1.type r.2).2

/-- The columns show the part of a net that is on the account's normal side. -/
theorem shownNet_eq (a : Account) (net : ℚ) :
    shownNet (a, net) = inNormalSense a.type (max (inNormalSense a.type net) 0) := by
  cases htype : a.type with
  | asset => simp [shownNet, columns, inNormalSense, htype]
  | liability => simp [shownNet, columns, inNormalSense, htype]
  | equity => simp [shownNet, columns, inNormalSense, htype]
  | income => simp [shownNet, columns, inNormalSense, htype]
  | expense => simp [shownNet, columns, inNormalSense, htype]

theorem shownNet_eq_self_iff (a : Account) (net : ℚ) :
    shownNet (a, net) = net ↔ 0 ≤ inNormalSense a.type net := by
  rw [shownNet_eq]
  constructor
  · intro h
    have hmax := congrArg (inNormalSense a.type) h
    rw [inNormalSense_inNormalSense] at hmax
    exact max_eq_left_iff.mp hmax
  · intro h
    rw [max_eq_left h, inNormalSense_inNormalSense]

theorem columns_zero (type : AccountType) : columns type 0 = (0, 0) := by
  cases type <;> simp [columns]

variable (acc : TrialBalanceResult) (r : Account × ℚ)

theorem addTrialBalanceRow_totals :
    (addTrialBalanceRow acc r).totalDebit - (addTrialBalanceRow acc r).totalCredit =
      acc.totalDebit - acc.totalCredit + shownNet r := by
  rw [addTrialBalanceRow]
  split
  · next hzero => simp [shownNet, hzero, columns_zero]
  · simp only [shownNet]
    ring

theorem addTrialBalanceRow_shown (account : Uuid) :
    (addTrialBalanceRow acc r).shown account =
      acc.shown account + if r.1.id = account then shownNet r else 0 := by
  rw [addTrialBalanceRow]
  split
  · next hzero => simp [shownNet, hzero, columns_zero]
  · by_cases hid : r.1.id = account
    · simp [TrialBalanceResult.shown, hid, shownNet]
    · simp [TrialBalanceResult.shown, hid]

/-! ## The report -/

variable (b : Books) (ledger : Uuid) (asOf : NaiveDate)

/-- The rows of the query are the accounts of the ledger with their nets, in some order. -/
theorem trialBalanceNets_perm :
    (trialBalanceNets b ledger asOf .empty).Perm
      ((b.accounts.filter fun a => a.ledgerId = ledger).map fun a => (a, netOf b a.id)) := by
  refine (orderBy_perm _ _).trans ?_
  refine (accountNets_perm .empty asOf netBySides_eq).trans (List.Perm.of_eq ?_)
  refine List.map_congr_left ?_
  intro a _
  rw [net_postingsOn]

theorem totals_sub :
    (buildTrialBalance b ledger asOf).totalDebit - (buildTrialBalance b ledger asOf).totalCredit =
      ((b.accounts.filter fun a => a.ledgerId = ledger).map fun a =>
        shownNet (a, netOf b a.id)).sum := by
  have hfold := measure_foldl (m := fun acc : TrialBalanceResult =>
    acc.totalDebit - acc.totalCredit) addTrialBalanceRow_totals
      (trialBalanceNets b ledger asOf .empty) {}
  rw [((trialBalanceNets_perm b ledger asOf).map _).sum_eq, List.map_map, sub_self,
    zero_add] at hfold
  exact hfold

theorem shown_eq {a : Account} (ha : a ∈ b.accounts) (hledger : a.ledgerId = ledger) :
    (buildTrialBalance b ledger asOf).shown a.id = shownNet (a, netOf b a.id) := by
  have hfold := measure_foldl (m := fun acc : TrialBalanceResult => acc.shown a.id)
    (fun acc r => addTrialBalanceRow_shown acc r a.id) (trialBalanceNets b ledger asOf .empty) {}
  have hone := sum_map_ite_key b.account_ids_nodup a.id (fun a' => a'.ledgerId = ledger)
    (shownNet (a, netOf b a.id))
  rw [if_pos ⟨a, ha, rfl, hledger⟩] at hone
  refine hfold.trans ((zero_add _).trans ?_)
  rw [((trialBalanceNets_perm b ledger asOf).map _).sum_eq, List.map_map, sum_map_filter, ← hone]
  refine congrArg List.sum (List.map_congr_left ?_)
  intro a' ha'
  by_cases hid : a'.id = a.id
  · rw [Books.account_eq_of_id_eq ha' ha hid]
    simp
  · simp [hid]

theorem sum_netOf :
    ((b.accounts.filter fun a => a.ledgerId = ledger).map fun a => netOf b a.id).sum =
      b.netWhere (OnLedger b ledger) :=
  sum_by_key b.account_ids_nodup (fun a => a.ledgerId = ledger) Posting.accountId Posting.signed
    b.postings

/-- In a settled ledger the trial balance ties out exactly when no account stands against
its normal side and what crosses the ledger's border nets to zero. -/
theorem tiesOut_iff (hsettled : Settled b ledger asOf) :
    TiesOut b ledger asOf ↔ NormalBalances b ledger ∧ crossingNet b ledger = 0 := by
  have hcross : b.netWhere (OnLedger b ledger) = crossingNet b ledger :=
    netWhere_onLedger_eq_crossingNet b ledger fun t ht hledger => (hsettled t ht hledger).2.2
  have hnets : (∀ a ∈ b.accounts, a.ledgerId = ledger →
      (buildTrialBalance b ledger asOf).shown a.id = netOf b a.id) ↔ NormalBalances b ledger := by
    refine forall₃_congr fun a ha hledger => ?_
    rw [shown_eq b ledger asOf ha hledger, shownNet_eq_self_iff]
  -- Once every account shows its net, the totals differ by the net of the ledger's accounts.
  have htotals : NormalBalances b ledger →
      (buildTrialBalance b ledger asOf).totalDebit -
        (buildTrialBalance b ledger asOf).totalCredit = crossingNet b ledger := by
    intro hnormal
    rw [totals_sub, ← hcross, ← sum_netOf]
    refine congrArg List.sum (List.map_congr_left ?_)
    intro a ha
    obtain ⟨ha, hledger⟩ := List.mem_filter.mp ha
    exact (shownNet_eq_self_iff a _).mpr (hnormal a ha (of_decide_eq_true hledger))
  constructor
  · intro h
    have hnormal := hnets.mp h.nets
    exact ⟨hnormal, (htotals hnormal).symm.trans (sub_eq_zero.mpr h.totals)⟩
  · rintro ⟨hnormal, hzero⟩
    exact ⟨sub_eq_zero.mp ((htotals hnormal).trans hzero), hnets.mpr hnormal⟩

/-! ## An overdrawn account -/

/-- The trial balance of the funded ledger ties out. -/
theorem tiesOut_iff_funded : Settled fundedBooks 1 march ∧
    (TiesOut fundedBooks 1 march ↔
      NormalBalances fundedBooks 1 ∧ crossingNet fundedBooks 1 = 0) :=
  ⟨by decide +kernel, tiesOut_iff fundedBooks 1 march (by decide +kernel)⟩

/-- An advance of 75 is paid from an empty bank account. -/
def overdrawnBooks : Books where
  accounts := [bank, advances]
  transactions := [entryOf 1 "Travel advance"]
  postings := [{ id := 1, transactionId := 1, accountId := 3, amount := 75, direction := .debit },
    { id := 2, transactionId := 1, accountId := 1, amount := 75, direction := .credit }]

/-- The overdrawn bank account shows zero in both columns, and the totals are 75 and 0. -/
theorem not_tiesOut : ¬ ∀ (b : Books) (ledger : Uuid) (asOf : NaiveDate),
    Settled b ledger asOf → TiesOut b ledger asOf := by
  intro h
  have hsettled : Settled overdrawnBooks 1 march := by decide +kernel
  have htotals : (buildTrialBalance overdrawnBooks 1 march).totalDebit ≠
      (buildTrialBalance overdrawnBooks 1 march).totalCredit := by decide +kernel
  exact htotals (h overdrawnBooks 1 march hsettled).totals

end Reports

end OpenAccounting
