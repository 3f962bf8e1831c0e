import OpenAccounting.Db.Books

/-!
# The database

The tables the modelled handlers read and write, as lists of rows in insertion
order, and the one piece of schema state that changes at run time: whether the
trigger `trg_posting_balance` is enabled.  `ALTER TABLE … DISABLE TRIGGER` is
transactional in PostgreSQL, so the flag is part of the state that a rollback
restores and a commit keeps.

A request reads a clock and the database draws ids for it.  Both are in
`Request`, so a statement about every request is one about every clock reading
and every draw.
-/

namespace OpenAccounting

open Calendar

structure User where
  id : Uuid
  /-- `role = 'admin'`. -/
  isAdmin : Bool := false
deriving DecidableEq

/-- `ledgers.inventory_method`. -/
inductive InventoryMethod where
  | fifo
  | average
deriving DecidableEq, Repr

structure Ledger where
  id : Uuid
  ownerId : Uuid
  baseCurrency : String := "USD"
  appendOnly : Bool := false
  approvalThreshold : ℚ := 10000
  inventoryMethod : InventoryMethod := .average
deriving DecidableEq

/-- `ledger_members.role`. -/
inductive MemberRole where
  | editor
  | viewer
  | accountant
  | auditor
deriving DecidableEq, Repr

structure LedgerMember where
  ledgerId : Uuid
  userId : Uuid
  role : MemberRole
deriving DecidableEq

/-- `journal_approvals.status`. -/
inductive ApprovalStatus where
  | pending
  | approved
  | rejected
deriving DecidableEq, Repr

structure JournalApproval where
  txnId : Uuid
  ledgerId : Uuid
  maker : Uuid
  checker : Option Uuid := none
  status : ApprovalStatus := .pending
  amount : ℚ
deriving DecidableEq

structure ClosedPeriod where
  ledgerId : Uuid
  periodYear : ℤ
  closedThrough : Option NaiveDate
deriving DecidableEq

structure ReopenEvent where
  ledgerId : Uuid
  closedThrough : Option NaiveDate
  reopenedBy : Uuid
  reason : String
deriving DecidableEq

/-- A row of `cost_centers`, `projects` or `tags`: a name unique in its ledger. -/
structure NamedRow where
  id : Uuid
  ledgerId : Uuid
  name : String
deriving DecidableEq

structure TransactionTag where
  transactionId : Uuid
  tagId : Uuid
deriving DecidableEq

structure Contact where
  id : Uuid
  ledgerId : Uuid
  name : String := ""
deriving DecidableEq

structure PostingTax where
  postingId : Uuid
  taxRateId : Uuid
  taxAmount : ℚ
  baseAmount : ℚ
deriving DecidableEq

/-- A row of `transaction_templates`. -/
structure TransactionTemplate where
  id : Uuid
  ledgerId : Uuid
  description : String
  payee : Option String := none
  reference : Option String := none
  frequency : String
  nextDate : NaiveDate
  isActive : Bool := true
deriving DecidableEq

structure TemplatePosting where
  templateId : Uuid
  accountId : Uuid
  direction : Direction
  amount : ℚ
  memo : Option String := none
  /-- The column is `NUMERIC(20,4)`. -/
  amount_scale : Rounding.HasScale 4 amount := by decide +kernel

/-- `tax_rates.kind`. -/
inductive TaxKind where
  | purchaseTax
  | salesTax
deriving DecidableEq, Repr

/-- The text of the column. -/
def TaxKind.asStr : TaxKind → String
  | .purchaseTax => "purchase_tax"
  | .salesTax => "sales_tax"

/-- A row of `tax_rates`. -/
structure TaxRate where
  id : Uuid
  ledgerId : Uuid
  name : String
  rate : ℚ
  kind : TaxKind := .salesTax
  accountId : Uuid
  isActive : Bool := true
deriving DecidableEq

structure Budget where
  id : Uuid
  ledgerId : Uuid
  accountId : Uuid
  amount : ℚ
deriving DecidableEq

structure InventoryItem where
  id : Uuid
  ledgerId : Uuid
  assetAccountId : Uuid
  cogsAccountId : Uuid
  incomeAccountId : Uuid
  quantityOnHand : ℤ := 0
  unitCost : ℚ := 0
  updatedAt : ℤ := 0
deriving DecidableEq

structure InventoryLayer where
  id : Uuid
  itemId : Uuid
  quantity : ℤ
  unitCost : ℚ
  remaining : ℤ
  purchaseDate : NaiveDate
  createdAt : ℤ
deriving DecidableEq

/-- `fixed_assets.depreciation_method`. -/
inductive DepreciationMethod where
  | straightLine
  | decliningBalance
deriving DecidableEq, Repr

/-- `fixed_assets.status`. -/
inductive AssetStatus where
  | active
  | disposed
  | fullyDepreciated
deriving DecidableEq, Repr

structure FixedAsset where
  id : Uuid
  ledgerId : Uuid
  accountId : Uuid
  purchaseCost : ℚ
  salvageValue : ℚ := 0
  usefulLifeYears : ℤ
  depreciationMethod : DepreciationMethod
  accumulatedDepreciation : ℚ := 0
  status : AssetStatus := .active
  disposedDate : Option NaiveDate := none
  disposedAmount : Option ℚ := none
  updatedAt : ℤ := 0
deriving DecidableEq

/-- A row of `automation_rules`. -/
structure AutomationRule where
  id : Uuid
  ledgerId : Uuid
  isEnabled : Bool := true
deriving DecidableEq

/-- `reimbursement_claims.status`. -/
inductive ClaimStatus where
  | draft
  | submitted
  | partiallyApproved
  | fullyApproved
  | approved
  | rejected
  | paid
deriving DecidableEq, Repr

/-- A row of `reimbursement_claims`. -/
structure Claim where
  id : Uuid
  ledgerId : Uuid
  shortId : String
  employeeId : Uuid
  employeeName : String
  currency : String
  status : ClaimStatus := .draft
  approvedBy : Option Uuid := none
deriving DecidableEq

/-- A row of `reimbursement_lines`. -/
structure ClaimLine where
  claimId : Uuid
  txnDate : NaiveDate
  amount : ℚ
  glAccountId : Uuid
  taxAmount : ℚ := 0
  advanceAmount : ℚ := 0
deriving DecidableEq

/-- `reimbursement_approval_policies.approver_role`. -/
inductive ApproverRole where
  | admin
  | accountant
deriving DecidableEq, Repr

/-- A row of `reimbursement_approval_policies`. -/
structure ApprovalPolicy where
  ledgerId : Uuid
  minAmount : ℚ
  approverRole : ApproverRole
  level : ℤ
deriving DecidableEq

/-- A row of `reimbursement_approval_steps`. -/
structure ApprovalStep where
  claimId : Uuid
  level : ℤ
  approverId : Uuid
deriving DecidableEq

structure InterLedgerTransfer where
  fromLedgerId : Uuid
  toLedgerId : Uuid
  fromAccountId : Uuid
  toAccountId : Uuid
  amount : ℚ
  currency : String
  fromTxnId : Uuid
  toTxnId : Uuid
  feeAmount : ℚ
  feeAccountId : Option Uuid
  description : String
deriving DecidableEq

/-- `invoices.kind`. -/
inductive InvoiceKind where
  | receivable
  | payable
deriving DecidableEq, Repr

/-- `invoices.doc_kind`. -/
inductive DocKind where
  | invoice
  | estimate
deriving DecidableEq, Repr

/-- `invoices.status`.  The column value of `opened` is `open`. -/
inductive InvoiceStatus where
  | opened
  | paid
  | overdue
  | void
  | draft
  | sent
  | accepted
  | declined
  | expired
  | converted
deriving DecidableEq, Repr

/-- A row of `invoices`. -/
structure Invoice where
  id : Uuid
  ledgerId : Uuid
  contactId : Uuid
  kind : InvoiceKind
  docKind : DocKind := .invoice
  invoiceNumber : Option String := none
  invoiceDate : NaiveDate
  dueDate : NaiveDate
  total : ℚ
  amountPaid : ℚ := 0
  status : InvoiceStatus := .opened
  recurringTemplateId : Option Uuid := none
  voidReason : Option String := none
deriving DecidableEq

/-- A row of `invoice_lines`. -/
structure InvoiceLine where
  id : Uuid
  invoiceId : Uuid
  description : String
  quantity : ℚ
  unitPrice : ℚ
  amount : ℚ
  sortOrder : ℤ := 0
deriving DecidableEq

inductive PaymentMethod where
  | cash
  | check
  | bankTransfer
  | creditCard
  | other
deriving DecidableEq, Repr

inductive PaymentKind where
  | received
  | made
deriving DecidableEq, Repr

structure Payment where
  id : Uuid
  ledgerId : Uuid
  contactId : Option Uuid := none
  invoiceId : Option Uuid := none
  transactionId : Option Uuid := none
  amount : ℚ
  paymentDate : NaiveDate
  paymentMethod : PaymentMethod
  reference : Option String := none
  kind : PaymentKind
deriving DecidableEq

/-- A row of `recurring_invoice_templates`. -/
structure RecurringInvoiceTemplate where
  id : Uuid
  ledgerId : Uuid
  contactId : Uuid
  kind : InvoiceKind
  frequency : String
  nextDate : NaiveDate
  isActive : Bool := true
deriving DecidableEq

/-- A row of `recurring_invoice_lines`. -/
structure RecurringInvoiceLine where
  templateId : Uuid
  description : String
  quantity : ℚ
  unitPrice : ℚ
  sortOrder : ℤ := 0
deriving DecidableEq

/-- A row of `recurring_journal_templates`. -/
structure RecurringJournalTemplate where
  id : Uuid
  ledgerId : Uuid
  name : String
  frequency : String
  endDate : Option NaiveDate := none
  maxOccurrences : Option ℤ := none
  isPaused : Bool := false
  nextPeriod : NaiveDate
deriving DecidableEq

/-- A row of `recurring_journal_lines`. -/
structure RecurringJournalLine where
  templateId : Uuid
  accountId : Uuid
  direction : Direction
  amount : ℚ
  memo : Option String := none
  costCenterId : Option Uuid := none
  projectId : Option Uuid := none
deriving DecidableEq

/-- `recurring_journal_runs.status`. -/
inductive RunStatus where
  | preview
  | posted
  | skipped
deriving DecidableEq, Repr

structure RecurringJournalRun where
  id : Uuid
  templateId : Uuid
  periodKey : String
  draftTxnId : Option Uuid := none
  status : RunStatus
deriving DecidableEq

/-- A row of `amortization_schedules`. -/
structure AmortizationSchedule where
  id : Uuid
  ledgerId : Uuid
  description : String
  sourceAccountId : Uuid
  targetAccountId : Uuid
  totalAmount : ℚ
  periodUnit : String
  periods : ℤ
  startDate : NaiveDate
  endDate : NaiveDate
  nextPostDate : NaiveDate
  postedPeriods : ℤ := 0
  skippedPeriods : ℤ := 0
  isActive : Bool := true
deriving DecidableEq

/-- A row of `amortization_posted_periods`. -/
structure PostedPeriod where
  scheduleId : Uuid
  periodNumber : ℤ
deriving DecidableEq

/-- A row of `bank_statement_lines`. -/
structure BankStatementLine where
  id : Uuid
  ledgerId : Uuid
  accountId : Uuid
  statementDate : NaiveDate
  description : Option String := none
  amount : ℚ
  checkNumber : Option String := none
  externalId : Option String := none
deriving DecidableEq

/-- `rec_sessions.status`. -/
inductive RecStatus where
  | opened
  | closed
deriving DecidableEq, Repr

structure RecSession where
  id : Uuid
  ledgerId : Uuid
  accountId : Uuid
  stmtCloseDate : NaiveDate
  stmtCloseBalance : ℚ
  openingBalance : ℚ := 0
  status : RecStatus := .opened
deriving DecidableEq

/-- A row of `rec_lines`. -/
structure RecLine where
  sessionId : Uuid
  bankLineId : Uuid
  cleared : Bool := false
deriving DecidableEq

/-- A row of `invoice_sequences`. -/
structure InvoiceSequence where
  ledgerId : Uuid
  year : ℤ
  lastNo : ℤ := 0
deriving DecidableEq

/-- `fx_rates.source`. -/
inductive FxSource where
  | manual
  | ecb
deriving DecidableEq, Repr

/-- A row of `fx_rates`: the amount of `quoteCurrency` per one unit of `baseCurrency`. -/
structure FxRate where
  baseCurrency : String
  quoteCurrency : String
  rate : ℚ
  rateDate : NaiveDate
  source : FxSource := .manual
deriving DecidableEq

structure FxRevaluation where
  ledgerId : Uuid
  accountId : Uuid
  periodMonth : NaiveDate
  transactionId : Uuid
  fxGainLoss : ℚ
  postedBy : Uuid
deriving DecidableEq

structure InvestmentLot where
  id : Uuid
  accountId : Uuid
  acquiredAt : NaiveDate
  qty : ℚ
  unitCost : ℚ
  currency : String
  sourceTxnId : Uuid
deriving DecidableEq

structure InvestmentDisposal where
  id : Uuid
  lotId : Uuid
  qty : ℚ
  unitProceeds : ℚ
  disposedAt : NaiveDate
  sourceTxnId : Uuid
  realizedGain : ℚ
deriving DecidableEq

/-- `bank_feed_links.status`. -/
inductive LinkStatus where
  | active
  | disconnected
  | error
deriving DecidableEq, Repr

structure BankFeedLink where
  id : Uuid
  ledgerId : Uuid
  accountIdInLedger : Option Uuid := none
  status : LinkStatus := .active
  cursor : Option String := none
  errorMessage : Option String := none
deriving DecidableEq

structure BankFeedTransaction where
  id : Uuid
  linkId : Uuid
  providerTxnId : String
  transactionId : Option Uuid
deriving DecidableEq

/-- The database. -/
structure Db where
  users : List User := []
  ledgers : List Ledger := []
  members : List LedgerMember := []
  books : Books := .empty
  /-- Whether `trg_posting_balance` is enabled. -/
  balanceTrigger : Bool := true
  approvals : List JournalApproval := []
  closedPeriods : List ClosedPeriod := []
  reopenEvents : List ReopenEvent := []
  costCenters : List NamedRow := []
  projects : List NamedRow := []
  tags : List NamedRow := []
  transactionTags : List TransactionTag := []
  contacts : List Contact := []
  postingTaxes : List PostingTax := []
  templates : List TransactionTemplate := []
  templatePostings : List TemplatePosting := []
  taxRates : List TaxRate := []
  budgets : List Budget := []
  inventoryItems : List InventoryItem := []
  inventoryLayers : List InventoryLayer := []
  fixedAssets : List FixedAsset := []
  automationRules : List AutomationRule := []
  claims : List Claim := []
  claimLines : List ClaimLine := []
  approvalPolicies : List ApprovalPolicy := []
  approvalSteps : List ApprovalStep := []
  transfers : List InterLedgerTransfer := []
  invoices : List Invoice := []
  invoiceLines : List InvoiceLine := []
  payments : List Payment := []
  recurringInvoiceTemplates : List RecurringInvoiceTemplate := []
  recurringInvoiceLines : List RecurringInvoiceLine := []
  recurringJournalTemplates : List RecurringJournalTemplate := []
  recurringJournalLines : List RecurringJournalLine := []
  recurringJournalRuns : List RecurringJournalRun := []
  amortizationSchedules : List AmortizationSchedule := []
  amortizationPostedPeriods : List PostedPeriod := []
  bankStatementLines : List BankStatementLine := []
  recSessions : List RecSession := []
  recLines : List RecLine := []
  invoiceSequences : List InvoiceSequence := []
  fxRates : List FxRate := []
  fxRevaluations : List FxRevaluation := []
  investmentLots : List InvestmentLot := []
  investmentDisposals : List InvestmentDisposal := []
  bankFeedLinks : List BankFeedLink := []
  bankFeedTransactions : List BankFeedTransaction := []

/-- What a request meets outside the database state: the clock, the ids the
database draws, and the rates `fx::lookup` answers. -/
structure Request where
  /-- `Utc::now().date_naive()`. -/
  today : NaiveDate
  /-- `now()`, in microseconds. -/
  now : ℤ
  /-- The id drawn for the `n`-th transaction row of the request. -/
  txnId : ℕ → Uuid
  /-- The id drawn for the `k`-th posting of the `n`-th transaction. -/
  postingId : ℕ → ℕ → Uuid
  /-- The id drawn for the `n`-th row of any other table. -/
  rowId : ℕ → Uuid
  /-- `fx::lookup(base, quote, date)`, or the text of its error. -/
  fxLookup : String → String → NaiveDate → Except String ℚ

namespace Db

/-- `SELECT … FROM ledgers WHERE id = $1`. -/
def findLedger (db : Db) (ledger : Uuid) : Option Ledger :=
  db.ledgers.find? fun l => l.id = ledger

/-- The ledger exists. -/
def HasLedger (db : Db) (ledger : Uuid) : Prop := ∃ l ∈ db.ledgers, l.id = ledger

instance (db : Db) (ledger : Uuid) : Decidable (db.HasLedger ledger) := by
  unfold HasLedger
  infer_instance

end Db

end OpenAccounting
