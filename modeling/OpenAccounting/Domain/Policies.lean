import OpenAccounting.Domain.Account
import OpenAccounting.Lib.Binary64
import OpenAccounting.Lib.Calendar

/-!
# Reimbursement policies

`domain/policies.rs`.  A policy is evaluated against the lines of a claim, and the result is the list
of its violations.  A config that does not parse gives none.  Amounts are decimals, and a decimal
operation that overflows panics.  Violations have their amounts in cents.
-/

namespace OpenAccounting.Policies

open Calendar

inductive PolicyKind where
  | categoryCap
  | receiptRequired
  | perDiem
deriving DecidableEq

inductive Severity where
  | hard
  | soft
deriving DecidableEq

structure Policy (Json : Type) where
  id : Uuid
  name : String
  kind : PolicyKind
  config : Json
  severity : Severity

structure PolicyLine where
  category : String
  txnDate : NaiveDate
  amount : ℚ
  hasReceipt : Bool
deriving DecidableEq

inductive Violation where
  /-- The lines of a category on a date exceed the cap. -/
  | categoryCapOver (category : String) (date : NaiveDate) (actual cap : ℤ)
  /-- A line of at least the minimum has no receipt. -/
  | receiptMissing (amount minRequired : ℤ)
  /-- A line exceeds the daily allowance. -/
  | perDiemOver (destination : String) (date : NaiveDate) (actual dailyRate : ℤ)
deriving DecidableEq

structure CategoryCapConfig where
  category : String
  maxPerDay : ℚ

structure ReceiptRequiredConfig where
  minAmount : ℚ

/-- `serde_json::from_value` at the configs. -/
structure Serde (Json : Type) where
  categoryCap : Json → Option CategoryCapConfig
  receiptRequired : Json → Option ReceiptRequiredConfig

section

variable {Json : Type} (d : Decimal.Checked) (serde : Serde Json)

/-- `decimal_to_cents`: the decimal digits of a hundred times the amount are read as an `f64`. -/
def decimalToCents (amount : ℚ) : Option ℤ :=
  (d.mul amount 100).map fun cents => Binary64.toI64 (Binary64.nearest cents)

def daySum (category : String) (lines : List PolicyLine) (date : NaiveDate) : Option ℚ :=
  d.sum ((lines.filter fun l => l.category = category ∧ l.txnDate = date).map (·.amount))

/-- The local variables of `eval_category_cap`. -/
structure CapState where
  seen : List (String × NaiveDate) := []
  out : List Violation := []

/-- One line of the loop of `eval_category_cap`. -/
def capStep (cfg : CategoryCapConfig) (lines : List PolicyLine) (s : CapState) (line : PolicyLine) :
    Option CapState :=
  if line.category ≠ cfg.category then some s
  else
    let key := (cfg.category, line.txnDate)
    if key ∈ s.seen then some s
    else do
      let sum ← daySum d cfg.category lines line.txnDate
      if cfg.maxPerDay < sum then
        let actual ← decimalToCents d sum
        let cap ← decimalToCents d cfg.maxPerDay
        some
          { seen := key :: s.seen
            out := s.out ++ [.categoryCapOver cfg.category line.txnDate actual cap] }
      else some s

def evalCategoryCap (policy : Policy Json) (lines : List PolicyLine) : Option (List Violation) :=
  match serde.categoryCap policy.config with
  | none => some []
  | some cfg => (lines.foldlM (capStep d cfg lines) {}).map CapState.out

def evalReceiptRequired (policy : Policy Json) (lines : List PolicyLine) :
    Option (List Violation) :=
  match serde.receiptRequired policy.config with
  | none => some []
  | some cfg =>
    (lines.filter fun l => cfg.minAmount ≤ l.amount ∧ l.hasReceipt = false).mapM fun l => do
      let amount ← decimalToCents d l.amount
      let minRequired ← decimalToCents d cfg.minAmount
      some (.receiptMissing amount minRequired)

/-- `eval_per_diem`: the lines have no destination yet, so every line is skipped. -/
def evalPerDiem (_policy : Policy Json) (_lines : List PolicyLine) : List Violation := []

/-- `evaluate`, or none where it panics. -/
def evaluate (policy : Policy Json) (lines : List PolicyLine) : Option (List Violation) :=
  match policy.kind with
  | .categoryCap => evalCategoryCap d serde policy lines
  | .receiptRequired => evalReceiptRequired d serde policy lines
  | .perDiem => some (evalPerDiem policy lines)

end

end OpenAccounting.Policies
