import OpenAccounting.Handlers.Access
import OpenAccounting.Jobs.AutomationRules
import OpenAccounting.Lib.Regex

/-!
# Reconciliation rules

The rules of a ledger and the routes that apply them.
-/

/-!
## Reconciliation rules

`domain/reconciliation_rules.rs`.  A rule has a predicate and an action, both in JSON.  Of the keys of
a predicate that are known all have to hold, and of the rules that are active the first one that
matches decides.
-/

namespace OpenAccounting.ReconciliationRules

open Automation (Value)

inductive RuleKind where
  | «match»
  | categorize
  | flag
deriving DecidableEq

structure Rule (Number : Type) where
  id : Uuid
  name : String
  kind : RuleKind
  priority : ℤ
  predicate : Value Number
  action : Value Number
  isActive : Bool

structure Line where
  description : String
  amountCents : ℤ
  currency : String

/-- What the code takes from its libraries.  `Number` are the numbers of JSON. -/
structure Libraries (Number : Type) where
  /-- `regex::Regex`. -/
  regex : Regex.Engine
  /-- `Value::as_i64`, of a number. -/
  asI64 : Number → Option ℤ
  /-- `Uuid::parse_str`. -/
  parseUuid : String → Option Uuid

/-! ## Patterns -/

/-- The characters that get a backslash. -/
def escaped : List Char := ['.', '(', ')', '[', ']', '\\', '+', '*', '?', '|', '^', '$']

/-- What a character of a pattern is translated to. -/
def translate (c : Char) : List Char :=
  if c = '%' then ['.', '*']
  else if c = '_' then ['.']
  else if c ∈ escaped then ['\\', c]
  else [c]

/-- The expression of a pattern. -/
def likeRegex (pattern : String) : String :=
  String.ofList ('^' :: (pattern.toList.flatMap translate ++ ['$']))

def sqlLikeMatch (regex : Regex.Engine) (pattern s : String) : Bool :=
  ((regex.compile (likeRegex pattern)).map fun isMatch => isMatch s).getD false

/-! ## Predicates -/

section

variable {Number : Type} (lib : Libraries Number)

def asI64 : Value Number → Option ℤ
  | .number n => lib.asI64 n
  | _ => none

def asBool : Value Number → Option Bool
  | .bool b => some b
  | _ => none

/-- A key of a predicate that is a text. -/
def textHolds (p : Value Number) (key : String) (holds : String → Bool) : Bool :=
  (((p.get key).bind Value.asStr).map holds).getD true

/-- A key of a predicate that is an amount. -/
def centsHold (p : Value Number) (key : String) (holds : ℤ → Bool) : Bool :=
  (((p.get key).bind (asI64 lib)).map holds).getD true

def evaluatePredicate (p : Value Number) (line : Line) : Bool :=
  textHolds p "payee_glob" (fun glob => sqlLikeMatch lib.regex glob line.description) &&
    textHolds p "description_glob" (fun glob => sqlLikeMatch lib.regex glob line.description) &&
    centsHold lib p "amount_cents_eq" (fun eq => decide (line.amountCents = eq)) &&
    centsHold lib p "amount_cents_lt" (fun lt => decide (line.amountCents < lt)) &&
    centsHold lib p "amount_cents_gt" (fun gt => decide (gt < line.amountCents)) &&
    textHolds p "currency" (fun ccy => RustStr.eqIgnoreAsciiCase line.currency ccy)

/-! ## Rules -/

inductive AppliedAction where
  | categorize (glAccountId : Uuid)
  | «match» (linkByAmountDate : Bool)
  | flag (reasonText flagColor : String)

def AppliedAction.from (value : Value Number) : AppliedAction :=
  match ((value.get "gl_account_id").bind Value.asStr).bind lib.parseUuid with
  | some uuid => .categorize uuid
  | none =>
    if ((value.get "link_by_amount_date").bind asBool).getD false then .match true
    else
      .flag (((value.get "reason_text").bind Value.asStr).getD "")
        (((value.get "flag_color").bind Value.asStr).getD "amber")

def firstMatch (rules : List (Rule Number)) (line : Line) : Option (Rule Number × AppliedAction) :=
  ((Relational.orderBy Rule.priority (rules.filter Rule.isActive)).find? fun r =>
    evaluatePredicate lib r.predicate line).map fun r => (r, AppliedAction.from lib r.action)

end

end OpenAccounting.ReconciliationRules

/-!
## Rules applied to stored transactions

`apply_rules` of `handlers/rules_apply.rs`.  For each of the selected transactions the first
categorize rule that matches it gives a new account, and the account of its income or expense leg is
the old one.  A dry run returns the list of these changes.  In the mode `apply` every change is
written, one `UPDATE` for each, in one transaction.

The rules are read without an order and all get the priority zero.  The line that a rule is compared
with has no currency, and its amount is the sum of the debits less the credits.
-/

namespace OpenAccounting.RulesApply

open Commit ReconciliationRules

/-- A row of `reconciliation_rules`. -/
structure StoredRule (Number : Type) extends Rule Number where
  ledgerId : Uuid

/-- The table `reconciliation_rules`, in the order in which the database returns its rows. -/
structure RuleTable (Number : Type) where
  rows : List (StoredRule Number)
  /-- The primary key. -/
  ids_nodup : (rows.map fun r => r.id).Nodup

/-- What the code takes from its libraries and from the database. -/
structure Environment (Number : Type) extends Libraries Number where
  /-- A `NUMERIC` decoded as `i64`.  `sqlx` refuses it. -/
  decodeI64 : ℚ → Option ℤ
  /-- Which of several rows with the largest amount comes first. -/
  tie : List Posting → ℕ

/-! ## The form -/

structure ApplyRulesForm where
  transactionIds : List String := []
  mode : String := ""

def ApplyRulesForm.field (form : ApplyRulesForm) (key value : String) : ApplyRulesForm :=
  if key = "transaction_ids" then { form with transactionIds := form.transactionIds ++ [value] }
  else if key = "mode" then { form with mode := value }
  else form

/-- `ApplyRulesForm::parse`, from the pairs of `form_urlencoded::parse`. -/
def ApplyRulesForm.parse (pairs : List (String × String)) : ApplyRulesForm :=
  pairs.foldl (fun form pair => form.field pair.1 pair.2) {}

/-! ## The changes -/

/-- A change, as the dry run lists it. -/
structure Change where
  transactionId : Uuid
  oldAccount : Option Uuid
  newAccount : Uuid
  rule : String
deriving DecidableEq

inductive Response where
  | dryRun (changes : List Change)
  | applied (changed selected : ℕ)
deriving DecidableEq

section

variable {Number : Type} (env : Environment Number)

/-- The rules that are read. -/
def categorizeRules (rules : RuleTable Number) (ledger : Uuid) : List (StoredRule Number) :=
  rules.rows.filter fun r => r.ledgerId = ledger ∧ r.kind = .categorize ∧ r.isActive

/-- A rule as it is rebuilt from its row. -/
def StoredRule.rebuild (r : StoredRule Number) : Rule Number :=
  { r.toRule with kind := .categorize, priority := 0, isActive := true }

/-- The line a transaction is compared as. -/
def lineOf (b : Books) (t : Transaction) : Line where
  description := t.description ++ " " ++ t.payee.getD ""
  amountCents := (env.decodeI64 (Posting.net (b.postingsOf t.id) * 100)).getD 0
  currency := ""

/-- The rule for a transaction, with its action. -/
def ruleFor (rules : RuleTable Number) (b : Books) (ledger : Uuid) (t : Transaction) :
    Option (Rule Number × AppliedAction) :=
  firstMatch env.toLibraries ((categorizeRules rules ledger).map StoredRule.rebuild)
    (lineOf env b t)

/-- The account of the largest income or expense leg. -/
def contraOf (accounts : List Account) (legs : List Posting) : Option Uuid :=
  let contra := legs.filter fun p =>
    ∃ a ∈ accounts, a.id = p.accountId ∧ (a.type = .income ∨ a.type = .expense)
  let largest := contra.filter fun p => ∀ q ∈ contra, q.amount ≤ p.amount
  largest[env.tie largest % largest.length]?.map Posting.accountId

/-- `SELECT p.account_id … ORDER BY p.amount DESC LIMIT 1`. -/
def contraAccount (b : Books) (txn : Uuid) : Option Uuid :=
  contraOf env b.accounts (b.postingsOf txn)

def changeOf (rules : RuleTable Number) (b : Books) (ledger txn : Uuid) : Option Change :=
  match b.findTxnIn txn ledger with
  | none => none
  | some t =>
    match ruleFor env rules b ledger t with
    | some (rule, .categorize new) =>
      if contraAccount env b txn = some new then none
      else
        some { transactionId := txn, oldAccount := contraAccount env b txn, newAccount := new,
               rule := rule.name }
    | some (_, .match _) | some (_, .flag ..) | none => none

/-- The changes, in the order of the selection. -/
def listChanges (rules : RuleTable Number) (b : Books) (ledger : Uuid) (ids : List Uuid) :
    List Change :=
  ids.filterMap (changeOf env rules b ledger)

end

/-! ## The update -/

/-- The postings of a transaction on one account are moved to another account. -/
def redirect (b : Books) (txn old new : Uuid) (h : new ∈ b.accountIds) : Books :=
  { b with
    postings := b.postings.map fun p =>
      if p.transactionId = txn ∧ p.accountId = old then { p with accountId := new } else p
    posting_txn_fk := by
      intro q hq
      obtain ⟨p, hp, rfl⟩ := List.mem_map.mp hq
      split <;> exact b.posting_txn_fk p hp
    posting_account_fk := by
      intro q hq
      obtain ⟨p, hp, rfl⟩ := List.mem_map.mp hq
      split
      · exact h
      · exact b.posting_account_fk p hp }

/-- The balance trigger, for rows of one transaction.  A disabled trigger does not fire. -/
def fireTrigger (db : Db) (b : Books) (txn : Uuid) : Except SqlError Unit :=
  if db.balanceTrigger then Db.checkPostingBalance b txn else .ok ()

section

variable {Number : Type} (env : Environment Number)

/-- `UPDATE postings SET account_id = $2 …`.  The trigger tests the transaction once it has touched
a row of it. -/
def recategorize (db : Db) (txn new : Uuid) : Except SqlError Db :=
  match contraAccount env db.books txn with
  | none => .ok db
  | some old =>
    if h : new ∈ db.books.accountIds then do
      let b := redirect db.books txn old new h
      fireTrigger db b txn
      .ok { db with books := b }
    else .error (.foreignKeyViolation "account_id")

def writeChanges (db : Db) : List Change → Except SqlError Db
  | [] => .ok db
  | c :: changes => do
    let db ← recategorize env db c.transactionId c.newAccount
    writeChanges db changes

/-! ## The handler -/

/-- The transaction lies in a closed year. -/
def InClosedYear (db : Db) (txn : Uuid) : Prop :=
  ∃ t ∈ db.books.transactions, t.id = txn ∧ ∃ c ∈ db.closedPeriods,
    c.ledgerId = t.ledgerId ∧ c.periodYear = Transaction.numberYear t.txnDate

instance (db : Db) (txn : Uuid) : Decidable (InClosedYear db txn) := by
  unfold InClosedYear
  infer_instance

/-- The checks.  Ids that are no UUIDs are passed over. -/
def checkSelection (db : Db) (auth : Option Uuid) (ledger : Uuid) (form : ApplyRulesForm) :
    Except AppError (List Uuid) := do
  let user ← okOr auth .unauthorized
  let _ ← db.ensureOwner user ledger
  let ids := form.transactionIds.filterMap fun s => env.parseUuid (RustStr.trim s)
  ensure (ids ≠ []) (.validation "select at least one transaction")
  ensure (∀ txn ∈ ids, ¬ InClosedYear db txn)
    (.conflict "selection includes transactions in a closed period; nothing was changed")
  .ok ids

def applyRules (rules : RuleTable Number) (db : Db) (auth : Option Uuid) (ledger : Uuid)
    (form : ApplyRulesForm) : Except AppError Response × Db :=
  match checkSelection env db auth ledger form with
  | .error e => (.error e, db)
  | .ok ids =>
    let changes := listChanges env rules db.books ledger ids
    if form.mode ≠ "apply" then (.ok (.dryRun changes), db)
    else commit db do
      let db ← mapError .db (writeChanges env db changes)
      .ok (.applied changes.length ids.length, db)

end

end OpenAccounting.RulesApply
