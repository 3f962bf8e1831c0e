import OpenAccounting.Domain.Fx
import OpenAccounting.System.JournalOps

/-!
# Balances at the current rate

Revaluations of a ledger run one after the other, with postings and new rates in between, and one
account in a foreign currency is followed.  A run moves the account from its book value to its
foreign balance at the rate.  The book value is that of the postings with a foreign leg alone, so
what earlier runs have posted stays on top: the account is carried at the rate after every run
exactly when each run that revalues it finds the earlier adjustments at zero (`Settled`).
-/

namespace OpenAccounting.Fx

open Calendar Commit Rounding

/-- The database and, right after a run that succeeded, the date of the run. -/
structure Closing where
  db : Db
  justRun : Option NaiveDate := none

/-- One request, or a change of the rates. -/
inductive Action where
  | create (req : Request) (new : NewTransaction)
  | setRates (rates : List FxRate)
  | revalue (reqs : ℕ → Request) (date : NaiveDate) (actor : Uuid)

/-- The state after an action. -/
def step (ledger : Uuid) (s : Closing) : Action → Closing
  | .create req new => { db := (PostingService.create s.db req new).2 }
  | .setRates rates => { db := { s.db with fxRates := rates } }
  | .revalue reqs date actor =>
    match runRevaluation s.db reqs ledger date actor with
    | (.ok _, db) => { db := db, justRun := some date }
    | (.error _, db) => { db := db }

/-- The base amounts of the account are its foreign balance at the rate of the date, if there is
one. -/
def CarriedAt (ledger : Uuid) (a : Account) (db : Db) (date : NaiveDate) : Prop :=
  ∀ rate, rateOn db ledger a.currency date = .ok rate →
    balance db a.id = deriveBaseAmount (foreignBalance db a.id) rate

/-- After a run that succeeded the account is carried at the rate. -/
def Carried (ledger : Uuid) (a : Account) (s : Closing) : Prop :=
  ∀ date ∈ s.justRun, CarriedAt ledger a s.db date

/-- An asset or liability in a foreign currency that is not used for the gains and losses of the
others. -/
structure Monetary (ledger : Uuid) (a : Account) (db : Db) : Prop where
  mem : a ∈ db.books.accounts
  is_foreign : Foreign db ledger a
  not_gain : a.name ≠ gainName
  not_loss : a.name ≠ lossName

/-- A run that succeeds and revalues the account finds no adjustment of it, and one that passes it
over finds it at the rate. -/
def Settled (ledger : Uuid) (a : Account) (s : Closing) : Action → Prop
  | .create .. => True
  | .setRates .. => True
  | .revalue reqs date actor => (runRevaluation s.db reqs ledger date actor).1.isOk →
      if Due s.db ledger a date then adjustments s.db a.id = 0 else CarriedAt ledger a s.db date

/-! ## Steps -/

variable {ledger : Uuid} {a : Account} {s : Closing} {db db' : Db}

theorem carried_of_none (h : s.justRun = none) : Carried ledger a s := by
  rw [Carried, h]
  simp

theorem Monetary.of_grows (h : Monetary ledger a db) (hgrows : Grows db db') :
    Monetary ledger a db' := by
  refine ⟨hgrows.mem h.mem, ?_, h.not_gain, h.not_loss⟩
  have hforeign := h.is_foreign
  rwa [Foreign, hgrows.findLedger, ← Foreign]

/-- The account stays monetary. -/
theorem step_monetary (h : Monetary ledger a s.db) (act : Action) :
    Monetary ledger a (step ledger s act).db := by
  cases act with
  | create req new => exact h.of_grows (create_grows s.db req new)
  | setRates rates => exact ⟨h.mem, h.is_foreign, h.not_gain, h.not_loss⟩
  | revalue reqs date actor =>
    have hgrows := runRevaluation_grows s.db reqs ledger date actor
    simp only [step]
    generalize runRevaluation s.db reqs ledger date actor = r at hgrows
    obtain ⟨answer, db'⟩ := r
    cases answer with
    | error e => exact h.of_grows hgrows
    | ok posted => exact h.of_grows hgrows

/-- What the account is carried at depends on its postings and on the rate. -/
theorem Moves.carriedAt_iff {d : ℚ} (h : Moves a.id d db db') (date : NaiveDate) :
    CarriedAt ledger a db' date ↔ ∀ rate, rateOn db ledger a.currency date = .ok rate →
      balance db a.id + d = deriveBaseAmount (foreignBalance db a.id) rate := by
  rw [CarriedAt, h.grows.rateOn, h.balance_eq, foreignBalance, h.foreign_eq, ← foreignBalance]

/-- A run carries the account at the rate exactly when no earlier adjustment is left on it. -/
theorem runRevaluation_carriedAt_iff {reqs : ℕ → Request} {date : NaiveDate} {actor : Uuid}
    {posted : List RevaluationPosted} (h : Monetary ledger a db)
    (hrun : runRevaluation db reqs ledger date actor = (.ok posted, db')) :
    CarriedAt ledger a db' date ↔
      if Due db ledger a date then adjustments db a.id = 0 else CarriedAt ledger a db date := by
  have hmoves := runRevaluation_moves h.mem h.not_gain h.not_loss h.is_foreign hrun
  split at hmoves
  · next hdue =>
      obtain ⟨rate, hrate, hmoves⟩ := hmoves
      rw [if_pos hdue, hmoves.carriedAt_iff, hrate, balance_eq]
      constructor
      · intro hcarried
        linarith [hcarried rate rfl]
      · rintro hzero _ ⟨⟩
        linarith
  · next hdue =>
      rw [if_neg hdue, hmoves.carriedAt_iff, add_zero, CarriedAt]

/-- One step leaves the account carried at the rate exactly if it is settled. -/
theorem step_carried_iff (h : Monetary ledger a s.db) (act : Action) :
    Carried ledger a (step ledger s act) ↔ Settled ledger a s act := by
  cases act with
  | create req new => exact iff_of_true (carried_of_none rfl) trivial
  | setRates rates => exact iff_of_true (carried_of_none rfl) trivial
  | revalue reqs date actor =>
    rw [step, Settled]
    generalize hrun : runRevaluation s.db reqs ledger date actor = r
    obtain ⟨answer, db'⟩ := r
    cases answer with
    | error e => exact iff_of_true (carried_of_none rfl) nofun
    | ok posted =>
      rw [← runRevaluation_carriedAt_iff h hrun]
      simp [Carried, Except.isOk, Except.toBool]

/-! ## Runs -/

/-- The account is carried at the rate after every successful run, exactly as long as no run that
revalues it finds an earlier adjustment on it. -/
theorem carried_iff_settled {actions : List Action} (h : Monetary ledger a s.db)
    (hstart : s.justRun = none) :
    (∀ s' ∈ Runs.visited (step ledger) s actions, Carried ledger a s') ↔
      Runs.Meets (step ledger) (Settled ledger a) s actions :=
  Runs.forall_visited_iff_meets (P := Carried ledger a) (Q := fun s => Monetary ledger a s.db)
    (fun _ act h => step_monetary h act) (fun _ act h _ => step_carried_iff h act) h
    (carried_of_none hstart)

instance (ledger : Uuid) (a : Account) (db : Db) (date : NaiveDate) :
    Decidable (CarriedAt ledger a db date) :=
  match hrate : rateOn db ledger a.currency date with
  | .ok rate => decidable_of_iff
      (balance db a.id = deriveBaseAmount (foreignBalance db a.id) rate)
        (by simp [CarriedAt, hrate])
  | .error _ => .isTrue (by simp [CarriedAt, hrate])

instance (ledger : Uuid) (a : Account) (s : Closing) : Decidable (Carried ledger a s) :=
  inferInstanceAs (Decidable (∀ date ∈ s.justRun, CarriedAt ledger a s.db date))

instance (ledger : Uuid) (a : Account) (s : Closing) :
    (act : Action) → Decidable (Settled ledger a s act)
  | .create .. => inferInstanceAs (Decidable True)
  | .setRates .. => inferInstanceAs (Decidable True)
  | .revalue reqs date actor => inferInstanceAs (Decidable
      ((runRevaluation s.db reqs ledger date actor).1.isOk →
        if Due s.db ledger a date then adjustments s.db a.id = 0
        else CarriedAt ledger a s.db date))

namespace Sample

open OpenAccounting.Sample

def euroBank : Account where
  id := 13
  ledgerId := ledgerId
  name := "Euro Bank"
  type := .asset
  subtype := .currentAsset
  currency := "EUR"
  subtype_valid := AccountType.currentAsset_valid

/-- A dollar ledger without maker-checker, and the bank account. -/
def start : Closing where
  db := { OpenAccounting.Sample.db with
    ledgers := [{ id := ledgerId, ownerId := owner, approvalThreshold := -1 }]
    books := .ofChart [euroBank,
      { id := sales, ledgerId := ledgerId, name := "Sales", type := .income,
        subtype := .operatingIncome, subtype_valid := AccountType.operatingIncome_valid }]
      (by decide) }

theorem start_monetary : Monetary ledgerId euroBank start.db where
  mem := List.mem_cons_self
  is_foreign := by decide
  not_gain := by decide
  not_loss := by decide

/-- The last days of two successive months. -/
def monthEnd (month : ℕ) : NaiveDate := (NaiveDate.fromYmdOpt 2026 month 30).getD default

/-- A thousand euros are received when a euro is worth a dollar. -/
def receive : Action :=
  .create { request 1 with fxLookup := fun _ _ _ => .ok 1 }
    { ledgerId := ledgerId, txnDate := march 10, description := "Sale", createdBy := owner
      lines := [
        { accountId := euroBank.id, signedAmount := 0, foreign := some ⟨1000, "EUR"⟩ },
        { accountId := sales, signedAmount := -1000 }] }

def closingRate (month : ℕ) (rate : ℚ) : FxRate where
  baseCurrency := "EUR"
  quoteCurrency := "USD"
  rate := rate
  rateDate := monthEnd month

def close (month : ℕ) : Action :=
  .revalue (fun k => request (10 * month + k)) (monthEnd month) owner

/-- The euro falls to 0.90 in March and rises to 0.95 in April. -/
def twoMonths : List Action :=
  [receive, .setRates [closingRate 3 (90 / 100), closingRate 4 (95 / 100)], close 3, close 4]

/-- The euro stands in March and falls to 0.95 in April. -/
def quietMarch : List Action :=
  [receive, .setRates [closingRate 3 1, closingRate 4 (95 / 100)], close 3, close 4]

end Sample

/-- The thousand euros are worth 950 dollars in the end, and the account stands at 850: the loss of
March was posted, and in April the loss since the receipt is posted on top of it. -/
theorem twoMonths_not_carried :
    Monetary Sample.ledgerId Sample.euroBank Sample.start.db ∧
      (∀ l ∈ Sample.start.db.ledgers, l.approvalThreshold < 0) ∧
      (∀ p ∈ (Runs.exec (step Sample.ledgerId) Sample.start
        (Sample.twoMonths.take 2)).db.books.postings,
        p.accountId = Sample.euroBank.id → p.foreignAmount.isSome) ∧
      (Runs.visited (step Sample.ledgerId) Sample.start Sample.twoMonths).map Closing.justRun =
        [none, none, none, some (Sample.monthEnd 3), some (Sample.monthEnd 4)] ∧
      balance (Runs.exec (step Sample.ledgerId) Sample.start Sample.twoMonths).db
        Sample.euroBank.id = 850 ∧
      (let db := (Runs.exec (step Sample.ledgerId) Sample.start Sample.twoMonths).db
       (rateOn db Sample.ledgerId Sample.euroBank.currency (Sample.monthEnd 4)).map
         (deriveBaseAmount (foreignBalance db Sample.euroBank.id)) = .ok 950) ∧
      ¬ Carried Sample.ledgerId Sample.euroBank
        (Runs.exec (step Sample.ledgerId) Sample.start Sample.twoMonths) := by
  refine ⟨Sample.start_monetary, ?_, ?_, ?_, ?_, ?_, ?_⟩ <;> decide +kernel

theorem carried_iff_settled_quietMarch :
    Carried Sample.ledgerId Sample.euroBank
      (Runs.exec (step Sample.ledgerId) Sample.start Sample.quietMarch) := by
  have hsettled : Runs.Meets (step Sample.ledgerId) (Settled Sample.ledgerId Sample.euroBank)
      Sample.start Sample.quietMarch := by
    refine ⟨?_, ?_, ?_, ?_, trivial⟩ <;> decide +kernel
  exact (carried_iff_settled Sample.start_monetary rfl).mpr hsettled _ (Runs.exec_mem_visited _ _)

end OpenAccounting.Fx
