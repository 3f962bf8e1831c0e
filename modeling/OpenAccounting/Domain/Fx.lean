import OpenAccounting.Domain.PostingService
import OpenAccounting.Lib.Relational

/-!
# Foreign currency

The rates and the month-end revaluation of `domain/fx.rs`.  `runRevaluation` selects the accounts
with a foreign balance in one statement and then posts, account by account, the difference between
the balance at the current rate and its book value.  Each posting commits on its own, so a failure
leaves the accounts before it revalued.
-/

namespace OpenAccounting

open Calendar Commit Relational Rounding

namespace Fx

/-! ## Rates -/

inductive FxError where
  | missingRate (base quote : String) (date : NaiveDate)
deriving DecidableEq

/-- `CASE WHEN source = 'manual' THEN 0 ELSE 1 END`, for a descending order. -/
def precedence : FxSource → ℕ
  | .manual => 1
  | .ecb => 0

/-- The row of the pair that applies on the date, either way round: the latest one, and of one day
the manual one. -/
def applicable (db : Db) (base quote : String) (date : NaiveDate) : Option FxRate :=
  (orderByDesc (fun r => toLex (r.rateDate, precedence r.source)) (db.fxRates.filter fun r =>
    ((r.baseCurrency = base ∧ r.quoteCurrency = quote) ∨
      (r.baseCurrency = quote ∧ r.quoteCurrency = base)) ∧ r.rateDate ≤ date)).head?

/-- `lookup`.  Rate and direction are read by two statements, which find the same row. -/
def lookup (db : Db) (base quote : String) (date : NaiveDate) : Except FxError ℚ :=
  if base = quote then .ok 1
  else match applicable db base quote date with
    | none => .error (.missingRate base quote date)
    | some r =>
      if r.rate = 0 then .error (.missingRate base quote date)
      else if r.baseCurrency = base then .ok r.rate
      else .ok (1 / r.rate)

/-! ## Candidates -/

/-- How a revaluation fails. -/
inductive RevaluationError where
  | alreadyRevalued (month : String)
  | fx (e : FxError)
  | posting (e : PostingServiceError)
  | db (e : SqlError)
deriving DecidableEq

/-- The foreign amount with the sign of its side, for a posting that has one. -/
def signedForeign (p : Posting) : ℚ :=
  match p.direction with
  | .debit => p.foreignAmount.getD 0
  | .credit => -p.foreignAmount.getD 0

/-- The postings of the account with a foreign leg. -/
def foreignPostings (db : Db) (account : Uuid) : List Posting :=
  db.books.postings.filter fun p => p.accountId = account ∧ p.foreignAmount.isSome

/-- What the account holds in its currency. -/
def foreignBalance (db : Db) (account : Uuid) : ℚ :=
  ((foreignPostings db account).map signedForeign).sum

/-- The base amounts of the same postings. -/
def bookValue (db : Db) (account : Uuid) : ℚ := Posting.net (foreignPostings db account)

/-- A row of the first statement. -/
structure Candidate where
  accountId : Uuid
  currency : String
  foreignBalance : ℚ
  bookValue : ℚ

/-- An account in another currency than the ledger's, on the side of assets or liabilities. -/
def Foreign (db : Db) (ledger : Uuid) (a : Account) : Prop :=
  a.ledgerId = ledger ∧ (a.type = .asset ∨ a.type = .liability) ∧
    ∃ l ∈ db.findLedger ledger, a.currency ≠ l.baseCurrency

instance (db : Db) (ledger : Uuid) (a : Account) : Decidable (Foreign db ledger a) := by
  unfold Foreign
  infer_instance

def candidateOf (db : Db) (a : Account) : Candidate :=
  ⟨a.id, a.currency, foreignBalance db a.id, bookValue db a.id⟩

/-- The accounts with a foreign balance.  One without postings to join has none. -/
def candidates (db : Db) (ledger : Uuid) : List Candidate :=
  (db.books.accounts.filter fun a =>
    Foreign db ledger a ∧ a.isArchived = false ∧ foreignBalance db a.id ≠ 0).map (candidateOf db)

def IsRevalued (db : Db) (ledger account : Uuid) (month : NaiveDate) : Prop :=
  ∃ r ∈ db.fxRevaluations, r.ledgerId = ledger ∧ r.accountId = account ∧ r.periodMonth = month

instance (db : Db) (ledger account : Uuid) (month : NaiveDate) :
    Decidable (IsRevalued db ledger account month) := by
  unfold IsRevalued
  infer_instance

/-- The candidates that were not revalued for the month yet. -/
def pending (db : Db) (ledger : Uuid) (month : NaiveDate) : List Candidate :=
  (candidates db ledger).filter fun c => ¬ IsRevalued db ledger c.accountId month

/-! ## The accounts for gains and losses -/

/-- The code after the largest one of digits, if there is one.  The sum of an `i64` wraps around. -/
def nextCode (db : Db) (ledger : Uuid) : Except SqlError (Option String) := do
  let codes := (db.books.accounts.filter fun a => a.ledgerId = ledger).filterMap fun a =>
    a.code.bind fun code => RustStr.parseDigits code.toList
  ensure (∀ n ∈ codes, FitsI64 n) .integerOutOfRange
  .ok (codes.max?.map fun n => toString (wrapI64 (n + 1)))

def ensureOne (db : Db) (id ledger : Uuid) (name : String) (type : AccountType)
    (subtype : AccountSubtype) (h : subtype ∈ type.validSubtypes) : Except SqlError Uuid × Db :=
  commit db <|
    match db.books.accounts.find? fun a => a.ledgerId = ledger ∧ a.name = name with
    | some a => .ok (a.id, db)
    | none => do
      let code ← nextCode db ledger
      let l ← okOr (db.findLedger ledger) (.notNullViolation "currency")
      let db ← db.insertAccount
        { id := id, ledgerId := ledger, name := name, code := code, type := type,
          subtype := subtype, currency := l.baseCurrency, subtype_valid := h }
      .ok (id, db)

/-- The name of the account for gains. -/
def gainName : String := "FX Unrealized Gain/Loss"

/-- The name of the account for losses. -/
def lossName : String := "FX Unrealized Loss"

def ensureFxAccounts (db : Db) (req : Request) (ledger : Uuid) :
    Except SqlError (Uuid × Uuid) × Db :=
  andThen (ensureOne db (req.rowId 0) ledger gainName .income .operatingIncome
    AccountType.operatingIncome_valid) fun gain db =>
  andThen (ensureOne db (req.rowId 1) ledger lossName .expense .operatingExpense
    AccountType.operatingExpense_valid) fun loss db => (.ok (gain, loss), db)

/-! ## Revaluation -/

def baseCurrencyOf (db : Db) (ledger : Uuid) : Except SqlError String :=
  okOr ((db.findLedger ledger).map Ledger.baseCurrency) .rowNotFound

/-- The rate of a currency against the ledger's. -/
def rateOn (db : Db) (ledger : Uuid) (currency : String) (date : NaiveDate) :
    Except RevaluationError ℚ := do
  let base ← mapError .db (baseCurrencyOf db ledger)
  mapError .fx (lookup db currency base date)

def periodMonth (date : NaiveDate) : NaiveDate :=
  (NaiveDate.fromYmdOpt date.year date.month 1).getD date

/-- `period_month.format("%Y-%m")`. -/
def monthLabel (month : NaiveDate) : String :=
  let sign := if month.year < 0 then "-" else if 9999 < month.year then "+" else ""
  sign ++ RustStr.padZero 4 month.year.natAbs ++ "-" ++ RustStr.padZero 2 month.month

/-- The transaction of one difference. -/
def revaluationEntry (ledger : Uuid) (date : NaiveDate) (actor debit credit : Uuid)
    (currency : String) (amount : ℚ) : NewTransaction where
  ledgerId := ledger
  txnDate := date
  description := "FX revaluation " ++ monthLabel (periodMonth date) ++ " (" ++ currency ++ ")"
  createdBy := actor
  lines :=
    [{ accountId := debit, signedAmount := amount, memo := some ("FX revaluation " ++ currency) },
     { accountId := credit, signedAmount := -amount, memo := some ("FX revaluation " ++ currency) }]

def insertRevaluation (db : Db) (r : FxRevaluation) : Except SqlError Db := do
  let gain ← okOr (amountColumn r.fxGainLoss) .numericFieldOverflow
  ensure (db.HasLedger r.ledgerId) (.foreignKeyViolation "ledger_id")
  ensure (r.accountId ∈ db.books.accountIds) (.foreignKeyViolation "account_id")
  ensure (r.transactionId ∈ db.books.txnIds) (.foreignKeyViolation "transaction_id")
  ensure (∃ u ∈ db.users, u.id = r.postedBy) (.foreignKeyViolation "posted_by")
  ensure (¬ IsRevalued db r.ledgerId r.accountId r.periodMonth) (.uniqueViolation "fx_revaluations")
  .ok { db with fxRevaluations := db.fxRevaluations ++ [{ r with fxGainLoss := gain }] }

structure RevaluationPosted where
  accountId : Uuid
  currency : String
  fxGainLoss : ℚ
  transactionId : Uuid

/-- Post the difference of one account, if there is one. -/
def postDifference (db : Db) (req : Request) (ledger : Uuid) (date : NaiveDate) (actor : Uuid)
    (c : Candidate) (diff : ℚ) : Except RevaluationError RevaluationPosted × Db :=
  andThen (failAs .db (ensureFxAccounts db req ledger)) fun accounts db =>
    let sides := if 0 < diff then (c.accountId, accounts.1) else (accounts.2, c.accountId)
    andThen (failAs .posting (PostingService.create db req
        (revaluationEntry ledger date actor sides.1 sides.2 c.currency |diff|)))
      fun created db =>
    andThen (failAs .db (commit db (do
        let db ← insertRevaluation db
          { ledgerId := ledger, accountId := c.accountId, periodMonth := periodMonth date,
            transactionId := created.id, fxGainLoss := diff, postedBy := actor }
        .ok ((), db))))
      fun _ db => (.ok ⟨c.accountId, c.currency, diff, created.id⟩, db)

/-- One account. -/
def revalueOne (db : Db) (req : Request) (ledger : Uuid) (date : NaiveDate) (actor : Uuid)
    (c : Candidate) : Except RevaluationError (List RevaluationPosted) × Db :=
  match rateOn db ledger c.currency date with
  | .error e => (.error e, db)
  | .ok rate =>
    let diff := deriveBaseAmount c.foreignBalance rate - c.bookValue
    if diff = 0 then (.ok [], db)
    else andThen (postDifference db req ledger date actor c diff) fun posted db =>
      (.ok [posted], db)

/-- The accounts in order, the `k`-th one with the ids of the `k`-th request. -/
def revalueAll (reqs : ℕ → Request) (ledger : Uuid) (date : NaiveDate) (actor : Uuid) :
    ℕ → Db → List Candidate → Except RevaluationError (List RevaluationPosted) × Db
  | _, db, [] => (.ok [], db)
  | k, db, c :: cs =>
    andThen (revalueOne db (reqs k) ledger date actor c) fun posted db =>
      andThen (revalueAll reqs ledger date actor (k + 1) db cs) fun rest db =>
        (.ok (posted ++ rest), db)

def runRevaluation (db : Db) (reqs : ℕ → Request) (ledger : Uuid) (date : NaiveDate)
    (actor : Uuid) : Except RevaluationError (List RevaluationPosted) × Db :=
  let due := pending db ledger (periodMonth date)
  if due = [] then (.error (.alreadyRevalued (monthLabel (periodMonth date))), db)
  else revalueAll reqs ledger date actor 0 db due

/-! ## What it leaves alone -/

/-- Accounts are only added, and ledgers and rates stay. -/
structure Grows (db db' : Db) : Prop where
  accounts : db.books.accounts <+: db'.books.accounts
  ledgers : db'.ledgers = db.ledgers
  rates : db'.fxRates = db.fxRates

namespace Grows

variable {db db₁ db' : Db}

theorem refl (db : Db) : Grows db db := ⟨List.prefix_rfl, rfl, rfl⟩

theorem trans (h : Grows db db₁) (h' : Grows db₁ db') : Grows db db' :=
  ⟨h.accounts.trans h'.accounts, h'.ledgers.trans h.ledgers, h'.rates.trans h.rates⟩

theorem mem (h : Grows db db') {a : Account} (ha : a ∈ db.books.accounts) :
    a ∈ db'.books.accounts :=
  h.accounts.subset ha

theorem findLedger (h : Grows db db') (ledger : Uuid) :
    db'.findLedger ledger = db.findLedger ledger := by
  rw [Db.findLedger, h.ledgers, Db.findLedger]

theorem rateOn (h : Grows db db') (ledger : Uuid) (currency : String) (date : NaiveDate) :
    Fx.rateOn db' ledger currency date = Fx.rateOn db ledger currency date := by
  have hbase : baseCurrencyOf db' ledger = baseCurrencyOf db ledger := by
    rw [baseCurrencyOf, h.findLedger, baseCurrencyOf]
  have hlookup : ∀ base, lookup db' currency base date = lookup db currency base date := by
    intro base
    rw [lookup, applicable, h.rates, lookup, applicable]
  rw [Fx.rateOn, hbase, Fx.rateOn]
  simp only [hlookup]

end Grows

theorem create_grows (db : Db) (req : Request) (new : NewTransaction) :
    Grows db (PostingService.create db req new).2 := by
  have haccounts : (PostingService.create db req new).2.books.accounts = db.books.accounts := by
    rcases PostingService.createWithKind_cases db req new false with h | ⟨_, _, _, h⟩
    · rw [PostingService.create, h]
    · exact h.posts.accounts
  obtain ⟨books, trigger, taxes, approvals, h⟩ :=
    PostingService.createWithKind_frame db req new false
  refine ⟨haccounts ▸ List.prefix_rfl, ?_, ?_⟩
  · rw [PostingService.create, h]
  · rw [PostingService.create, h]

/-- The account is there or is added with a fresh id, and no posting is written. -/
theorem ensureOne_cases {db db' : Db} {id ledger : Uuid} {name : String} {type : AccountType}
    {subtype : AccountSubtype} {h : subtype ∈ type.validSubtypes} {answer : Except SqlError Uuid}
    (hr : ensureOne db id ledger name type subtype h = (answer, db')) :
    Grows db db' ∧ db'.books.postings = db.books.postings ∧
      ∀ found, answer = .ok found →
        found ∉ db.books.accountIds ∨
          ∃ a ∈ db.books.accounts, a.ledgerId = ledger ∧ a.name = name ∧ found = a.id := by
  rcases commit_eq hr with ⟨⟨e, rfl⟩, rfl⟩ | ⟨found, rfl, hbody⟩
  · exact ⟨Grows.refl _, rfl, nofun⟩
  · split at hbody
    · next a ha =>
        cases hbody
        have hkey : a.ledgerId = ledger ∧ a.name = name := by simpa using List.find?_some ha
        refine ⟨Grows.refl _, rfl, fun found hfound => Or.inr ?_⟩
        cases hfound
        exact ⟨a, List.mem_of_find?_eq_some ha, hkey.1, hkey.2, rfl⟩
    · next ha =>
        simp only [bind_eq_ok] at hbody
        obtain ⟨code, -, l, -, db₁, hinsert, hbody⟩ := hbody
        obtain ⟨hfresh, rfl⟩ := Db.insertAccount_spec hinsert
        cases hbody
        refine ⟨⟨List.prefix_append _ _, rfl, rfl⟩, rfl, fun found hfound => Or.inl ?_⟩
        cases hfound
        exact hfresh

theorem insertRevaluation_spec {db db' : Db} {r : FxRevaluation}
    (h : insertRevaluation db r = .ok db') :
    ∃ rows, db' = { db with fxRevaluations := rows } := by
  simp only [insertRevaluation, bind_eq_ok, ensure_eq_ok] at h
  obtain ⟨gain, -, -, -, -, -, -, -, -, -, -, -, h⟩ := h
  cases h
  exact ⟨_, rfl⟩

theorem ensureFxAccounts_grows (db : Db) (req : Request) (ledger : Uuid) :
    Grows db (ensureFxAccounts db req ledger).2 := by
  have hone : ∀ {db₁ : Db} (id : Uuid) (name : String) (type : AccountType)
      (subtype : AccountSubtype) (h : subtype ∈ type.validSubtypes), Grows db db₁ →
      Grows db (ensureOne db₁ id ledger name type subtype h).2 :=
    fun id name type subtype h hgrows => hgrows.trans (ensureOne_cases rfl).1
  refine andThen_invariant (hone _ _ _ _ _ (Grows.refl db)) fun gain db₁ hgain => ?_
  exact andThen_invariant (hone _ _ _ _ _ hgain) fun loss db₂ hloss => hloss

theorem postDifference_grows (db : Db) (req : Request) (ledger : Uuid) (date : NaiveDate)
    (actor : Uuid) (c : Candidate) (diff : ℚ) :
    Grows db (postDifference db req ledger date actor c diff).2 := by
  refine andThen_invariant (ensureFxAccounts_grows db req ledger) fun accounts db₁ h₁ => ?_
  refine andThen_invariant (h₁.trans (create_grows db₁ req _)) fun created db₂ h₂ => ?_
  refine andThen_invariant ?_ fun _ db₃ h₃ => h₃
  rw [failAs_snd]
  refine commit_invariant h₂ fun _ db₃ hbody => ?_
  rw [bind_eq_ok] at hbody
  obtain ⟨db₄, hinsert, hbody⟩ := hbody
  obtain ⟨rows, rfl⟩ := insertRevaluation_spec hinsert
  cases hbody
  exact h₂.trans ⟨List.prefix_rfl, rfl, rfl⟩

theorem revalueOne_grows (db : Db) (req : Request) (ledger : Uuid) (date : NaiveDate)
    (actor : Uuid) (c : Candidate) : Grows db (revalueOne db req ledger date actor c).2 := by
  rw [revalueOne]
  split
  · exact Grows.refl db
  · dsimp only
    split
    · exact Grows.refl db
    · exact andThen_invariant (postDifference_grows db req ledger date actor c _)
        fun posted db₁ h => h

theorem revalueAll_grows (reqs : ℕ → Request) (ledger : Uuid) (date : NaiveDate) (actor : Uuid)
    (k : ℕ) (db : Db) (cs : List Candidate) :
    Grows db (revalueAll reqs ledger date actor k db cs).2 := by
  induction cs generalizing k db with
  | nil => exact Grows.refl db
  | cons c cs ih =>
    refine andThen_invariant (revalueOne_grows db (reqs k) ledger date actor c)
      fun posted db₁ h => ?_
    exact andThen_invariant (h.trans (ih (k + 1) db₁)) fun rest db₂ h => h

theorem runRevaluation_grows (db : Db) (reqs : ℕ → Request) (ledger : Uuid) (date : NaiveDate)
    (actor : Uuid) : Grows db (runRevaluation db reqs ledger date actor).2 := by
  rw [runRevaluation]
  split
  · exact Grows.refl db
  · exact revalueAll_grows reqs ledger date actor 0 db _

/-! ## What it posts -/

/-- The base amounts of all postings of the account. -/
def balance (db : Db) (account : Uuid) : ℚ :=
  Posting.net (db.books.postings.filter fun p => p.accountId = account)

/-- The base amounts of the postings without a foreign leg. -/
def adjustments (db : Db) (account : Uuid) : ℚ :=
  Posting.net (db.books.postings.filter fun p => p.accountId = account ∧ p.foreignAmount = none)

theorem balance_eq (db : Db) (account : Uuid) :
    balance db account = bookValue db account + adjustments db account := by
  rw [balance, bookValue, foreignPostings, adjustments]
  induction db.books.postings with
  | nil => simp
  | cons p ps ih =>
    by_cases haccount : p.accountId = account
    · cases hforeign : p.foreignAmount with
      | none =>
        simp only [haccount, hforeign, List.filter_cons, Option.isSome_none, Bool.false_eq_true,
          and_false, decide_false, decide_true, and_true, if_true, if_false, Posting.net_cons]
        rw [ih]
        ring
      | some x =>
        simp only [haccount, hforeign, List.filter_cons, Option.isSome_some, and_true,
          decide_true, reduceCtorEq, and_false, decide_false, if_true, Bool.false_eq_true,
          if_false, Posting.net_cons]
        rw [ih]
        ring
    · simpa [haccount] using ih

/-- The base amounts of the account change by `d`, and its foreign postings stay. -/
structure Moves (account : Uuid) (d : ℚ) (db db' : Db) : Prop where
  grows : Grows db db'
  foreign_eq : foreignPostings db' account = foreignPostings db account
  balance_eq : balance db' account = balance db account + d

namespace Moves

variable {db db₁ db' : Db} {account : Uuid} {d d' : ℚ}

theorem trans (h : Moves account d db db₁) (h' : Moves account d' db₁ db') :
    Moves account (d + d') db db' :=
  ⟨h.grows.trans h'.grows, h'.foreign_eq.trans h.foreign_eq, by
    rw [h'.balance_eq, h.balance_eq, add_assoc]⟩

theorem of_postings (hgrows : Grows db db') (h : db'.books.postings = db.books.postings) :
    Moves account 0 db db' :=
  ⟨hgrows, by rw [foreignPostings, h, foreignPostings], by rw [balance, h, balance, add_zero]⟩

theorem of_append {ps : List Posting} (hgrows : Grows db db')
    (h : db'.books.postings = db.books.postings ++ ps) (hlocal : ∀ p ∈ ps, p.foreignAmount = none) :
    Moves account (Posting.net (ps.filter fun p => p.accountId = account)) db db' := by
  refine ⟨hgrows, ?_, ?_⟩
  · have hnone : ps.filter (fun p => p.accountId = account ∧ p.foreignAmount.isSome) = [] := by
      rw [List.filter_eq_nil_iff]
      intro p hp
      simp [hlocal p hp]
    rw [foreignPostings, h, List.filter_append, hnone, List.append_nil, foreignPostings]
  · rw [balance, h, List.filter_append, Posting.net_append, balance]

end Moves

variable {db db' : Db} {req : Request} {ledger : Uuid} {date : NaiveDate} {actor : Uuid}

/-- The entry of a difference adds the amount to one account and takes it from the other. -/
theorem revaluationEntry_moves {debit credit : Uuid} {currency : String} {amount : ℚ}
    {created : CreatedTransaction} (hscale : HasScale 4 amount)
    (h : PostingService.create db req (revaluationEntry ledger date actor debit credit currency
      amount) = (.ok created, db')) (account : Uuid) :
    Moves account ((if debit = account then amount else 0) - if credit = account then amount else 0)
      db db' := by
  have hgrows := create_grows db req
    (revaluationEntry ledger date actor debit credit currency amount)
  rcases PostingService.createWithKind_answer db req
    (revaluationEntry ledger date actor debit credit currency amount) false with
    ⟨e, herror⟩ | ⟨effective, t, ps, hcreated⟩
  · rw [PostingService.create, herror] at h
    cases h
  · rw [PostingService.create] at h hgrows
    rw [h] at hcreated hgrows
    have hlines : ∀ l ∈ (revaluationEntry ledger date actor debit credit currency amount).lines,
        l.foreign = none ∧ HasScale 4 l.signedAmount := by
      simp [revaluationEntry, hscale, hscale.neg]
    have hnet := hcreated.net_on (fun l hl => (hlines l hl).2) account
    rw [hcreated.effective_eq fun l hl => (hlines l hl).1] at hnet
    have hsum : PostingService.linesOn account
        (revaluationEntry ledger date actor debit credit currency amount).lines
        ((revaluationEntry ledger date actor debit credit currency amount).lines.map
          TxnLineInput.signedAmount) =
        (if debit = account then amount else 0) - if credit = account then amount else 0 := by
      simp only [revaluationEntry, List.map_cons, List.map_nil, PostingService.linesOn, add_zero]
      split <;> split <;> ring
    rw [← hsum, ← hnet]
    exact Moves.of_append hgrows hcreated.posts.postings
      (PostingService.foreignAmount_of_stored 0 (fun l hl => (hlines l hl).1) hcreated.stored)

theorem ensureFxAccounts_ok {gain loss : Uuid}
    (h : ensureFxAccounts db req ledger = (.ok (gain, loss), db')) :
    Grows db db' ∧ db'.books.postings = db.books.postings ∧
      ∀ a ∈ db.books.accounts, a.name ≠ gainName → a.name ≠ lossName →
        a.id ≠ gain ∧ a.id ≠ loss := by
  simp only [ensureFxAccounts, andThen_eq_ok] at h
  obtain ⟨gain', db₁, hgain, loss', db₂, hloss, h⟩ := h
  cases h
  obtain ⟨hgrows, hpostings, hgain⟩ := ensureOne_cases hgain
  obtain ⟨hgrows', hpostings', hloss⟩ := ensureOne_cases hloss
  refine ⟨hgrows.trans hgrows', hpostings'.trans hpostings, fun a ha hnotGain hnotLoss => ⟨?_, ?_⟩⟩
  · rintro rfl
    rcases hgain _ rfl with hfresh | ⟨c, hc, -, hname, hid⟩
    · exact hfresh (Books.mem_accountIds ha)
    · exact hnotGain (Books.account_eq_of_id_eq ha hc hid ▸ hname)
  · rintro rfl
    rcases hloss _ rfl with hfresh | ⟨c, hc, -, hname, hid⟩
    · exact hfresh (Books.mem_accountIds (hgrows.mem ha))
    · exact hnotLoss (Books.account_eq_of_id_eq (hgrows.mem ha) hc hid ▸ hname)

/-- What the revaluation makes of a candidate. -/
def difference (db : Db) (ledger : Uuid) (date : NaiveDate) (c : Candidate) : ℚ :=
  match rateOn db ledger c.currency date with
  | .ok rate => deriveBaseAmount c.foreignBalance rate - c.bookValue
  | .error _ => 0

section Account

variable {a : Account} (ha : a ∈ db.books.accounts) (hgain : a.name ≠ gainName)
  (hloss : a.name ≠ lossName)

include ha hgain hloss

theorem postDifference_moves {c : Candidate} {diff : ℚ} {posted : RevaluationPosted}
    (hscale : HasScale 4 diff) (hne : diff ≠ 0)
    (h : postDifference db req ledger date actor c diff = (.ok posted, db')) :
    Moves a.id (if c.accountId = a.id then diff else 0) db db' := by
  simp only [postDifference, andThen_eq_ok, failAs_eq_ok, commit_eq_ok, bind_eq_ok] at h
  obtain ⟨⟨gain, loss⟩, db₁, haccounts, created, db₂, hcreate, _, db₃, ⟨db₄, hinsert, hrow⟩, h⟩ := h
  obtain ⟨hgrows, hpostings, hother⟩ := ensureFxAccounts_ok haccounts
  obtain ⟨hnotGain, hnotLoss⟩ := hother a ha hgain hloss
  obtain ⟨rows, rfl⟩ := insertRevaluation_spec hinsert
  cases hrow
  cases h
  have hentry := revaluationEntry_moves hscale.abs hcreate a.id
  have hlast : Moves a.id 0 db₂ { db₂ with fxRevaluations := rows } :=
    Moves.of_postings ⟨List.prefix_rfl, rfl, rfl⟩ rfl
  have hsum : (if (if 0 < diff then (c.accountId, gain) else (loss, c.accountId)).1 = a.id
        then |diff| else 0) -
      (if (if 0 < diff then (c.accountId, gain) else (loss, c.accountId)).2 = a.id
        then |diff| else 0) = if c.accountId = a.id then diff else 0 := by
    by_cases hpos : 0 < diff
    · simp [hpos, hnotGain.symm, abs_of_pos hpos]
    · have hneg : diff < 0 := lt_of_le_of_ne (not_lt.mp hpos) hne
      simp only [hpos, if_false, hnotLoss.symm, abs_of_neg hneg, zero_sub]
      split <;> simp
  have hall := ((Moves.of_postings hgrows hpostings).trans hentry).trans hlast
  rw [hsum, zero_add, add_zero] at hall
  exact hall

theorem revalueOne_moves {c : Candidate} {posted : List RevaluationPosted}
    (hscale : HasScale 4 c.bookValue)
    (h : revalueOne db req ledger date actor c = (.ok posted, db')) :
    (∃ rate, rateOn db ledger c.currency date = .ok rate) ∧
      Moves a.id (if c.accountId = a.id then difference db ledger date c else 0) db db' := by
  rw [revalueOne] at h
  split at h
  · cases h
  · next rate hrate =>
      refine ⟨⟨rate, hrate⟩, ?_⟩
      rw [difference, hrate]
      dsimp only at h ⊢
      have hdiff : HasScale 4 (deriveBaseAmount c.foreignBalance rate - c.bookValue) := by
        rw [sub_eq_add_neg]
        exact ((hasScale_roundDp 2 _).mono (by decide)).add hscale.neg
      split at h
      · next hzero =>
          cases h
          rw [hzero, ite_self]
          exact Moves.of_postings (Grows.refl _) rfl
      · next hne =>
          rw [andThen_eq_ok] at h
          obtain ⟨one, db₁, hpost, h⟩ := h
          cases h
          exact postDifference_moves ha hgain hloss hdiff hne hpost

theorem revalueAll_moves {reqs : ℕ → Request} {k : ℕ} {cs : List Candidate}
    {posted : List RevaluationPosted} (hscale : ∀ c ∈ cs, HasScale 4 c.bookValue)
    (h : revalueAll reqs ledger date actor k db cs = (.ok posted, db')) :
    (∀ c ∈ cs, ∃ rate, rateOn db ledger c.currency date = .ok rate) ∧
      Moves a.id ((cs.filter fun c => c.accountId = a.id).map (difference db ledger date)).sum
        db db' := by
  induction cs generalizing k db posted with
  | nil =>
    cases h
    exact ⟨by simp, Moves.of_postings (Grows.refl _) rfl⟩
  | cons c cs ih =>
    obtain ⟨hc, hcs⟩ := List.forall_mem_cons.mp hscale
    simp only [revalueAll, andThen_eq_ok] at h
    obtain ⟨one, db₁, hone, rest, db₂, hrest, h⟩ := h
    cases h
    obtain ⟨hrate, hfirst⟩ := revalueOne_moves ha hgain hloss hc hone
    obtain ⟨hrates, hmoves⟩ := ih (hfirst.grows.mem ha) hcs hrest
    -- The rates are the same all along.
    have hsame : difference db₁ ledger date = difference db ledger date := by
      funext c
      rw [difference, hfirst.grows.rateOn, difference]
    simp only [hfirst.grows.rateOn, hsame] at hrates hmoves
    refine ⟨List.forall_mem_cons.mpr ⟨hrate, hrates⟩, ?_⟩
    have hall := hfirst.trans hmoves
    rw [List.filter_cons]
    by_cases hid : c.accountId = a.id
    · simpa [hid] using hall
    · simpa [hid] using hall

end Account

/-! ## A whole run -/

/-- The next run for the date revalues the account. -/
def Due (db : Db) (ledger : Uuid) (a : Account) (date : NaiveDate) : Prop :=
  a.isArchived = false ∧ foreignBalance db a.id ≠ 0 ∧
    ¬ IsRevalued db ledger a.id (periodMonth date)

instance (db : Db) (ledger : Uuid) (a : Account) (date : NaiveDate) :
    Decidable (Due db ledger a date) := by
  unfold Due
  infer_instance

theorem pending_eq (db : Db) (ledger : Uuid) (date : NaiveDate) :
    pending db ledger (periodMonth date) = (db.books.accounts.filter fun b =>
      Foreign db ledger b ∧ Due db ledger b date).map (candidateOf db) := by
  rw [pending, candidates, List.filter_map, List.filter_filter]
  refine congrArg (List.map (candidateOf db)) (List.filter_congr fun b _ => ?_)
  rw [Bool.eq_iff_iff, Bool.and_eq_true, Function.comp_apply, decide_eq_true_iff,
    decide_eq_true_iff, decide_eq_true_iff]
  constructor
  · rintro ⟨hnew, hforeign, hopen, hbalance⟩
    exact ⟨hforeign, hopen, hbalance, hnew⟩
  · rintro ⟨hforeign, hopen, hbalance, hnew⟩
    exact ⟨hnew, hforeign, hopen, hbalance⟩

theorem pending_filter {a : Account} (ha : a ∈ db.books.accounts) (hforeign : Foreign db ledger a)
    (date : NaiveDate) :
    (pending db ledger (periodMonth date)).filter (fun c => c.accountId = a.id) =
      if Due db ledger a date then [candidateOf db a] else [] := by
  have hrows := filter_key db.books.account_ids_nodup ha fun b =>
    Foreign db ledger b ∧ Due db ledger b date
  rw [pending_eq, List.filter_map, List.filter_filter]
  refine (congrArg (List.map (candidateOf db)) ((List.filter_congr fun b _ => ?_).trans
    hrows)).trans ?_
  · rw [Bool.eq_iff_iff, Bool.and_eq_true, Function.comp_apply, decide_eq_true_iff,
      decide_eq_true_iff, decide_eq_true_iff]
    exact and_comm
  · simp only [hforeign, true_and]
    split <;> rfl

theorem hasScale_bookValue (db : Db) (account : Uuid) : HasScale 4 (bookValue db account) := by
  refine HasScale.list_sum fun x hx => ?_
  obtain ⟨p, -, rfl⟩ := List.mem_map.mp hx
  rw [Posting.signed]
  split
  · exact p.amount_scale
  · exact p.amount_scale.neg

/-- A run that succeeds moves an account that is due from its book value to the balance at the rate,
and leaves the others alone.  Earlier adjustments of the account count in neither. -/
theorem runRevaluation_moves {reqs : ℕ → Request} {posted : List RevaluationPosted} {a : Account}
    (ha : a ∈ db.books.accounts) (hgain : a.name ≠ gainName) (hloss : a.name ≠ lossName)
    (hforeign : Foreign db ledger a)
    (h : runRevaluation db reqs ledger date actor = (.ok posted, db')) :
    if Due db ledger a date then
      ∃ rate, rateOn db ledger a.currency date = .ok rate ∧
        Moves a.id (deriveBaseAmount (foreignBalance db a.id) rate - bookValue db a.id) db db'
    else Moves a.id 0 db db' := by
  rw [runRevaluation] at h
  split at h
  · cases h
  · have hscale : ∀ c ∈ pending db ledger (periodMonth date), HasScale 4 c.bookValue := by
      intro c hc
      obtain ⟨b, -, rfl⟩ := List.mem_map.mp (List.mem_filter.mp hc).1
      exact hasScale_bookValue db b.id
    obtain ⟨hrates, hmoves⟩ := revalueAll_moves ha hgain hloss hscale h
    have hfilter := pending_filter ha hforeign date
    rw [hfilter] at hmoves
    split at hmoves
    · next hdue =>
        rw [if_pos hdue] at hfilter ⊢
        have hmem : candidateOf db a ∈ pending db ledger (periodMonth date) := by
          have : candidateOf db a ∈ (pending db ledger (periodMonth date)).filter
              (fun c => c.accountId = a.id) := by simp [hfilter]
          exact (List.mem_filter.mp this).1
        obtain ⟨rate, hrate⟩ := hrates _ hmem
        have hrate' : rateOn db ledger a.currency date = .ok rate := hrate
        refine ⟨rate, hrate', ?_⟩
        simpa [difference, hrate', candidateOf] using hmoves
    · next hdue =>
        rw [if_neg hdue]
        simpa using hmoves

end Fx

end OpenAccounting
