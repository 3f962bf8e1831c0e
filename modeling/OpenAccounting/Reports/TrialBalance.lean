import Mathlib.Data.String.Basic
import OpenAccounting.Reports.AccountNets

/-!
# The trial balance

`reports/trial_balance.rs`.  The query gives every account of the ledger its net, and the
loop puts a positive net of a debit-normal account into the debit column and a negative
net of the others into the credit column.  A dimension slice adds the postings without
the sliced dimension as one unassigned pair of sums.
-/

namespace OpenAccounting

open Calendar Relational

namespace Reports

structure TrialBalanceRow where
  accountId : Uuid
  accountName : String
  accountType : AccountType
  debit : ℚ
  credit : ℚ
deriving DecidableEq

structure TrialBalanceResult where
  rows : List TrialBalanceRow := []
  totalDebit : ℚ := 0
  totalCredit : ℚ := 0
  /-- Debits and credits of the postings without the sliced dimension. -/
  unassigned : Option (ℚ × ℚ) := none
deriving DecidableEq

/-- The query of `build_trial_balance_filtered`: an account and its `net`. -/
def trialBalanceNets (b : Books) (ledger : Uuid) (asOf : NaiveDate) (filter : DimensionFilter) :
    List (Account × ℚ) :=
  orderBy (fun r => toLex (r.1.type.asStr, r.1.name))
    (accountNets b (fun a => a.ledgerId = ledger) filter asOf netBySides)

/-- The two columns of a net. -/
def columns (type : AccountType) (net : ℚ) : ℚ × ℚ :=
  match type with
  | .asset | .expense => (max net 0, 0)
  | _ => (0, max (-net) 0)

/-- One turn of the loop over the query's rows. -/
def addTrialBalanceRow (acc : TrialBalanceResult) (r : Account × ℚ) : TrialBalanceResult :=
  if r.2 = 0 then acc
  else
    let (debit, credit) := columns r.1.type r.2
    { acc with
      rows := acc.rows ++ [⟨r.1.id, r.1.name, r.1.type, debit, credit⟩]
      totalDebit := acc.totalDebit + debit
      totalCredit := acc.totalCredit + credit }

/-- `($3 AND p.cost_center_id IS NULL) OR ($4 AND p.project_id IS NULL)`. -/
def Untagged (filter : DimensionFilter) (p : Posting) : Prop :=
  (filter.costCenterId.isSome ∧ p.costCenterId = none) ∨
    (filter.projectId.isSome ∧ p.projectId = none)

instance (filter : DimensionFilter) : DecidablePred (Untagged filter) := by
  unfold Untagged
  infer_instance

def unassignedSums (b : Books) (ledger : Uuid) (asOf : NaiveDate) (filter : DimensionFilter) :
    ℚ × ℚ :=
  let dated := innerJoin (fun (p : Posting) (t : Transaction) =>
    t.id = p.transactionId ∧ t.txnDate ≤ asOf ∧ t.kind.reportable) b.postings b.transactions
  let rows := innerJoin (fun (r : Posting × Transaction) (a : Account) =>
    a.id = r.1.accountId ∧ a.ledgerId = ledger) dated b.accounts
  let kept := (rows.filter fun r => Untagged filter r.1.1).map fun r => r.1.1
  (Posting.sumOn .debit kept, Posting.sumOn .credit kept)

def buildTrialBalanceFiltered (b : Books) (ledger : Uuid) (asOf : NaiveDate)
    (filter : DimensionFilter) : TrialBalanceResult :=
  let result := (trialBalanceNets b ledger asOf filter).foldl addTrialBalanceRow {}
  { result with
    unassigned := if filter.isActive then some (unassignedSums b ledger asOf filter) else none }

def buildTrialBalance (b : Books) (ledger : Uuid) (asOf : NaiveDate) : TrialBalanceResult :=
  buildTrialBalanceFiltered b ledger asOf .empty

variable {b : Books} {ledger : Uuid} {asOf : NaiveDate} {filter : DimensionFilter}

/-- Every account of the ledger has one net in the query, that of its postings. -/
theorem mem_trialBalanceNets {a : Account} {x : ℚ} :
    (a, x) ∈ trialBalanceNets b ledger asOf filter ↔
      a ∈ b.accounts ∧ a.ledgerId = ledger ∧ x = Posting.net (postingsOn b filter a) := by
  rw [trialBalanceNets, mem_orderBy, mem_accountNets filter asOf netBySides_eq]

end Reports

end OpenAccounting

/-!
## The general ledger

`reports/general_ledger.rs`.  The entries of the period, and for every account its
balance at the end of the period.  A balance is written in the account's own sense: the
net of the query for a debit-normal account, its negation for a credit-normal one.
-/

namespace OpenAccounting

open Calendar Relational

namespace Reports

structure GeneralLedgerEntry where
  txnId : Uuid
  txnDate : NaiveDate
  description : String
  payee : String
  accountId : Uuid
  accountName : String
  direction : Direction
  amount : ℚ
  memo : String
deriving DecidableEq

/-- An entry as its row gives it: missing texts are empty. -/
def GeneralLedgerEntry.ofRow (r : (Posting × Transaction) × Account) : GeneralLedgerEntry where
  txnId := r.1.2.id
  txnDate := r.1.2.txnDate
  description := r.1.2.description
  payee := r.1.2.payee.getD ""
  accountId := r.2.id
  accountName := r.2.name
  direction := r.1.1.direction
  amount := r.1.1.amount
  memo := r.1.1.memo.getD ""

/-- The entries of the period, of one account if a filter is given. -/
def generalLedgerEntries (b : Books) (ledger : Uuid) (first last : NaiveDate)
    (accountFilter : Option Uuid) : List GeneralLedgerEntry :=
  let posted := innerJoin (fun (p : Posting) (t : Transaction) => t.id = p.transactionId)
    b.postings b.transactions
  let rows := innerJoin (fun (r : Posting × Transaction) (a : Account) => a.id = r.1.accountId)
    posted b.accounts
  let kept := rows.filter fun r => r.1.2.ledgerId = ledger ∧
    (first ≤ r.1.2.txnDate ∧ r.1.2.txnDate ≤ last) ∧
    (accountFilter = none ∨ some r.1.1.accountId = accountFilter) ∧ r.1.2.kind.reportable
  (orderBy (fun r => toLex (r.1.2.txnDate, toLex (r.1.2.createdAt, r.1.1.id))) kept).map
    GeneralLedgerEntry.ofRow

/-- The second query: an account and its `net` up to `last`. -/
def generalLedgerNets (b : Books) (ledger : Uuid) (last : NaiveDate) : List (Account × ℚ) :=
  accountNets b (fun a => a.ledgerId = ledger) .empty last netSigned

/-- A net in the account's own sense. -/
def inNormalSense (type : AccountType) (net : ℚ) : ℚ :=
  match type with
  | .asset | .expense => net
  | _ => -net

@[simp] theorem inNormalSense_inNormalSense (type : AccountType) (net : ℚ) :
    inNormalSense type (inNormalSense type net) = net := by
  cases type <;> simp [inNormalSense]

@[simp] theorem inNormalSense_zero (type : AccountType) : inNormalSense type 0 = 0 := by
  cases type <;> simp [inNormalSense]

theorem inNormalSense_eq_zero_iff {type : AccountType} {net : ℚ} :
    inNormalSense type net = 0 ↔ net = 0 := by
  cases type <;> simp [inNormalSense]

theorem inNormalSense_add (type : AccountType) (x y : ℚ) :
    inNormalSense type (x + y) = inNormalSense type x + inNormalSense type y := by
  cases type <;> simp [inNormalSense, add_comm]

theorem inNormalSense_neg (type : AccountType) (net : ℚ) :
    inNormalSense type (-net) = -inNormalSense type net := by
  cases type <;> simp [inNormalSense]

theorem hasScale_inNormalSense {type : AccountType} {net : ℚ} (h : Rounding.HasScale 4 net) :
    Rounding.HasScale 4 (inNormalSense type net) := by
  cases type with
  | asset => exact h
  | expense => exact h
  | liability => exact h.neg
  | equity => exact h.neg
  | income => exact h.neg

def buildGeneralLedger (b : Books) (ledger : Uuid) (first last : NaiveDate)
    (accountFilter : Option Uuid) : List GeneralLedgerEntry × (Uuid → Option ℚ) :=
  (generalLedgerEntries b ledger first last accountFilter,
    insertAll ((generalLedgerNets b ledger last).map fun r =>
      (r.1.id, inNormalSense r.1.type r.2)))

variable {b : Books} {ledger : Uuid} {first last : NaiveDate} {accountFilter : Option Uuid}

/-- The balance of an account of the ledger is the net of its postings, in the account's
own sense. -/
theorem buildGeneralLedger_balance {a : Account} (ha : a ∈ b.accounts)
    (hledger : a.ledgerId = ledger) :
    (buildGeneralLedger b ledger first last accountFilter).2 a.id =
      some (inNormalSense a.type (Posting.net (postingsOn b .empty a))) := by
  have hkeys : (((generalLedgerNets b ledger last).map fun r =>
      (r.1.id, inNormalSense r.1.type r.2)).map Prod.fst).Nodup := by
    rw [List.map_map]
    exact nodup_accountNets_ids .empty last netSigned_eq
  have hmem : (a, Posting.net (postingsOn b .empty a)) ∈ generalLedgerNets b ledger last :=
    (mem_accountNets .empty last netSigned_eq).mpr ⟨ha, hledger, rfl⟩
  exact (insertAll_eq_some hkeys).mpr (List.mem_map.mpr ⟨_, hmem, rfl⟩)

end Reports

end OpenAccounting
