import OpenAccounting.Handlers.Reimbursement
import OpenAccounting.Lib.Threads
import OpenAccounting.System.JournalOps

/-!
# Payouts of one claim

Calls of `pay` on one claim run interleaved.  Each checks the status first, and then, in a
transaction, finds the entry with the reference of the claim, prices it, and posts the payout.
Nothing locks the claim, so any number of calls may pass the check before the first one commits.

Whatever the order, every payout that commits leaves two transactions, since its row is inserted
twice (`payouts_doubled`).  So a claim is never paid by exactly one.
-/

namespace OpenAccounting.ClaimPayouts

open Calendar Commit Reimbursement

/-- Where a call is. -/
inductive Place where
  | idle
  /-- The status and the payout account have been checked. -/
  | checked (user : Uuid) (claim : Claim) (payout : Uuid)
  /-- The payable account and the entry of the claim are found. -/
  | located (user : Uuid) (claim : Claim) (payout payable txn : Uuid)
  /-- What the entry credits is added up. -/
  | priced (user : Uuid) (claim : Claim) (payout payable : Uuid) (net : ℚ)
deriving DecidableEq

/-- One action of a call. -/
inductive Action where
  | check (auth : Option Uuid) (payout : Uuid)
  | locate (tie : ℕ)
  | price
  | commit (req : Request)
  | abort

/-- The steps of `pay`. -/
def act (ledger claim : Uuid) (_ : ℕ) (db : Db) : Place → Action → Db × Place
  | .idle, .check auth payout =>
    match checkPay db auth ledger claim payout with
    | .ok (user, c) => (db, .checked user c payout)
    | .error _ => (db, .idle)
  | .checked user c payout, .locate tie =>
    match Reimbursement.locate db tie ledger c with
    | .ok (payable, txn) => (db, .located user c payout payable txn)
    | .error _ => (db, .idle)
  | .located user c payout payable txn, .price =>
    (db, .priced user c payout payable (netPayable db.books txn))
  | .priced user c payout payable net, .commit req =>
    match payOut db req user ledger c payable payout net with
    | .ok db' => (db', .idle)
    | .error _ => (db, .idle)
  | _, .abort => (db, .idle)
  | place, _ => (db, place)

/-- Everything that is under way. -/
abbrev State := Threads.State ℕ Db Place

/-- A call takes its next action. -/
def step (ledger claim : Uuid) : State → ℕ × Action → State := Threads.step (act ledger claim)

/-- A call that nothing interrupts. -/
def call (auth : Option Uuid) (payout : Uuid) (tie : ℕ) (req : Request) : List Action :=
  [.check auth payout, .locate tie, .price, .commit req]

/-- One entry is added.  It debits the payable account, and credits an asset account, by what the
approval of the claim credited to the payable account. -/
def PaidOnce (ledger : Uuid) (c : Claim) (before after : Db) : Prop :=
  ∃ approval ∈ referenced before ledger c, ∃ t debit credit,
    after.books.transactions = before.books.transactions ++ [t] ∧
    after.books.postings = before.books.postings ++ [debit, credit] ∧
    (debit.transactionId = t.id ∧ debit.direction = .debit ∧
      debit.amount = netPayable before.books approval.id ∧
      ∃ a ∈ before.books.accounts, a.id = debit.accountId ∧ a.subtype = .employeePayable) ∧
    credit.transactionId = t.id ∧ credit.direction = .credit ∧
      credit.amount = netPayable before.books approval.id ∧
      ∃ a ∈ before.books.accounts, a.id = credit.accountId ∧ a.type = .asset

theorem PaidOnce.length_eq {ledger : Uuid} {c : Claim} {before after : Db}
    (h : PaidOnce ledger c before after) :
    after.books.transactions.length = before.books.transactions.length + 1 := by
  obtain ⟨-, -, t, -, -, htransactions, -⟩ := h
  rw [htransactions, List.length_append, List.length_singleton]

/-! ## One call -/

/-- The steps of a call that nobody interrupts are `pay`. -/
theorem exec_call (ledger claim : Uuid) (n : ℕ) {s : State} (hidle : s.place n = .idle)
    (auth : Option Uuid) (payout : Uuid) (tie : ℕ) (req : Request) :
    let s' := Runs.exec (step ledger claim) s ((call auth payout tie req).map (n, ·))
    s'.shared = (pay s.shared req tie auth ledger claim payout).2 ∧ s'.place n = .idle := by
  have halone := @Threads.exec_alone ℕ _ _ _ _ (act ledger claim) n s
    (call auth payout tie req)
  rw [hidle] at halone
  dsimp only at halone ⊢
  rw [step, halone.1, halone.2]
  simp only [call, List.foldl_cons, List.foldl_nil, act, pay]
  cases hcheck : checkPay s.shared auth ledger claim payout with
  | error e => exact ⟨rfl, rfl⟩
  | ok r =>
    obtain ⟨user, c⟩ := r
    dsimp only
    cases hlocate : Reimbursement.locate s.shared tie ledger c with
    | error e => exact ⟨rfl, rfl⟩
    | ok r =>
      obtain ⟨payable, txn⟩ := r
      dsimp only
      cases hpay : payOut s.shared req user ledger c payable payout
          (netPayable s.shared.books txn) with
      | error e => simp [commit, hpay, bind, Except.bind]
      | ok db' => simp [commit, hpay, bind, Except.bind]

/-- Either the claim is paid out, or the database stays as it is. -/
theorem act_cases (ledger claim : Uuid) (n : ℕ) (db : Db) (place : Place) (a : Action) :
    (∃ req user c payable payout net debit credit,
      PaidOut db (act ledger claim n db place a).1 req user ledger c payable payout net debit
        credit) ∨ (act ledger claim n db place a).1 = db := by
  cases a with
  | commit req =>
    cases place with
    | priced user c payout payable net =>
      cases hpay : payOut db req user ledger c payable payout net with
      | ok db' =>
        obtain ⟨debit, credit, hpaid⟩ := payOut_spec hpay
        exact Or.inl ⟨req, user, c, payable, payout, net, debit, credit,
          by simpa only [act, hpay] using hpaid⟩
      | error e => exact Or.inr (by simp only [act, hpay])
    | idle | checked | located => exact Or.inr rfl
  | check auth payout =>
    refine Or.inr ?_
    cases place with
    | idle =>
      simp only [act]
      split <;> rfl
    | checked | located | priced => rfl
  | locate tie =>
    refine Or.inr ?_
    cases place with
    | checked user c payout =>
      simp only [act]
      split <;> rfl
    | idle | located | priced => rfl
  | price => exact Or.inr (by cases place <;> rfl)
  | abort => exact Or.inr (by cases place <;> rfl)

/-! ## Runs -/

/-- A payout that was committed. -/
structure Payout where
  req : Request
  user : Uuid
  claim : Claim

/-- The rows a payout leaves. -/
def Payout.rows (ledger : Uuid) (p : Payout) : List Transaction :=
  [payoutRow p.req 0 p.user ledger p.claim, payoutRow p.req 1 p.user ledger p.claim]

theorem length_flatMap_rows (ledger : Uuid) (payouts : List Payout) :
    (payouts.flatMap (Payout.rows ledger)).length = 2 * payouts.length := by
  induction payouts with
  | nil => rfl
  | cons p payouts ih =>
    rw [List.flatMap_cons, List.length_append, ih, List.length_cons]
    simp only [Payout.rows, List.length_cons, List.length_nil]
    omega

/-- The transactions `rows` and the rows of some payouts. -/
def Doubled (ledger : Uuid) (rows : List Transaction) (s : State) : Prop :=
  ∃ payouts : List Payout,
    s.shared.books.transactions = rows ++ payouts.flatMap (Payout.rows ledger)

/-- A step adds a payout, or nothing. -/
theorem step_doubled {ledger claim : Uuid} {rows : List Transaction} (s : State) (m : ℕ × Action)
    (hs : Doubled ledger rows s) : Doubled ledger rows (step ledger claim s m) := by
  obtain ⟨n, a⟩ := m
  obtain ⟨payouts, hrows⟩ := hs
  rcases act_cases ledger claim n s.shared (s.place n) a with
    ⟨req, user, c, payable, payout, net, debit, credit, hpaid⟩ | hsame
  · refine ⟨payouts ++ [⟨req, user, c⟩], ?_⟩
    show (act ledger claim n s.shared (s.place n) a).1.books.transactions = _
    rw [hpaid.transactions, hrows, List.flatMap_append, List.append_assoc]
    rfl
  · refine ⟨payouts, ?_⟩
    show (act ledger claim n s.shared (s.place n) a).1.books.transactions = _
    rw [hsame, hrows]

/-- After every interleaving each payout has left two transactions, so no claim is paid by exactly
one. -/
theorem payouts_doubled (ledger claim : Uuid) (s : State) (actions : List (ℕ × Action)) :
    Doubled ledger s.shared.books.transactions (Runs.exec (step ledger claim) s actions) ∧
      ∀ c : Claim,
        ¬ PaidOnce ledger c s.shared (Runs.exec (step ledger claim) s actions).shared := by
  have hstart : Doubled ledger s.shared.books.transactions s := ⟨[], by simp⟩
  have hdoubled : Doubled ledger s.shared.books.transactions
      (Runs.exec (step ledger claim) s actions) :=
    Runs.invariant step_doubled actions hstart _ (Runs.exec_mem_visited s actions)
  refine ⟨hdoubled, fun c hpaid => ?_⟩
  obtain ⟨payouts, hrows⟩ := hdoubled
  have hlength := hpaid.length_eq
  rw [hrows, List.length_append, length_flatMap_rows] at hlength
  omega

/-! ## A claim of fifty -/

namespace Sample

open OpenAccounting.Sample

def travel : Uuid := 21
def payable : Uuid := 22
def bank : Uuid := 23

def trip : Claim where
  id := 31
  ledgerId := ledgerId
  shortId := "R-1"
  employeeId := 9
  employeeName := "Employee"
  currency := "USD"
  status := .submitted

/-- The claim in the sample ledger. -/
def submitted : Db :=
  { OpenAccounting.Sample.db with
    books := .ofChart
      [{ id := travel, ledgerId := ledgerId, name := "Travel", type := .expense,
         subtype := .operatingExpense, subtype_valid := AccountType.operatingExpense_valid },
       { id := payable, ledgerId := ledgerId, name := "Employees", type := .liability,
         subtype := .employeePayable, subtype_valid := AccountType.employeePayable_valid },
       { id := bank, ledgerId := ledgerId, name := "Bank", type := .asset,
         subtype := .currentAsset, subtype_valid := AccountType.currentAsset_valid }] (by decide)
    claims := [trip]
    claimLines :=
      [{ claimId := trip.id, txnDate := march 2, amount := 50, glAccountId := travel }] }

/-- The owner has approved it, and no call is in flight. -/
def start : State where
  shared := (approve submitted (request 1) (some owner) ledgerId trip.id none none).2
  place _ := .idle

def alone : State :=
  Runs.exec (step ledgerId trip.id) start ((call (some owner) bank 0 (request 2)).map (0, ·))

/-- Both calls have passed the check before either commits. -/
def crossed : State :=
  Runs.exec (step ledgerId trip.id) start
    [(0, .check (some owner) bank), (1, .check (some accountant) bank), (0, .locate 0),
     (1, .locate 0), (0, .price), (1, .price), (0, .commit (request 2)), (1, .commit (request 3))]

def debited (s : State) : List ℚ :=
  (s.shared.books.postings.filter fun p => p.accountId = payable ∧ p.direction = .debit).map
    Posting.amount

end Sample

/-- One call adds two transactions, and two calls that cross pay the claim twice. -/
theorem not_paidOnce_trip :
    (∃ c ∈ Sample.start.shared.claims, c.id = Sample.trip.id ∧ c.status = .fullyApproved) ∧
    (Sample.start.shared.books.transactions.length = 1 ∧
      Sample.alone.place 0 = .idle ∧ Sample.debited Sample.alone = [50] ∧
      Sample.alone.shared.books.transactions.length = 3 ∧
      ¬ PaidOnce OpenAccounting.Sample.ledgerId Sample.trip Sample.start.shared
        Sample.alone.shared) ∧
    Sample.debited Sample.crossed = [50, 50] ∧
      Sample.crossed.shared.books.transactions.length = 5 ∧
      ¬ PaidOnce OpenAccounting.Sample.ledgerId Sample.trip Sample.start.shared
        Sample.crossed.shared := by
  have hstart : Sample.start.shared.books.transactions.length = 1 := by decide +kernel
  have halone : Sample.alone.shared.books.transactions.length = 3 := by decide +kernel
  have hcrossed : Sample.crossed.shared.books.transactions.length = 5 := by decide +kernel
  refine ⟨by decide +kernel, ⟨hstart, by decide +kernel, by decide +kernel, halone, fun h => ?_⟩,
    by decide +kernel, hcrossed, fun h => ?_⟩
  · have hlength := h.length_eq
    omega
  · have hlength := h.length_eq
    omega

end OpenAccounting.ClaimPayouts
