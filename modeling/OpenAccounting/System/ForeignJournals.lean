import OpenAccounting.Domain.PostingStatements
import OpenAccounting.System.JournalOps

/-!
# Journals in a foreign currency

A journal whose lines all carry a foreign leg of one currency.  `create` multiplies each leg with
the rate of the day, as the decimal library does, rounds the product to cents, and checks the
balance of what comes out.  So foreign amounts that cancel are refused when their rounded base
amounts do not.

As long as the base amounts are small enough for their sums to be exact, that is when they do not
sum to zero.  Two lines have base amounts of opposite sign, which are never refused.
-/

namespace OpenAccounting

open Calendar Commit Rounding

namespace PostingService.Stepwise

/-- The journal does not balance. -/
def CallError.IsUnbalanced : CallError → Prop
  | .service (.unbalanced _ _) => True
  | _ => False

open CallError (IsUnbalanced)

def foreignAmounts (lines : List TxnLineInput) : List ℚ :=
  lines.filterMap fun l => l.foreign.map ForeignLeg.signedAmount

/-- The base amounts that the lines are stored with. -/
def baseAmounts (d : Decimal.Arith) (rate : ℚ) (lines : List TxnLineInput) : List ℚ :=
  (foreignAmounts lines).map fun x => roundDp 2 (d.mul x rate)

/-- A journal of foreign legs in one currency that cancel, with a rate for the day. -/
structure ForeignJournal (db : Db) (req : Request) (new : NewTransaction) (ledger : Ledger)
    (currency : String) (rate : ℚ) : Prop where
  lines : 2 ≤ new.lines.length
  foreign : ∀ l ∈ new.lines, ∃ f, l.foreign = some f ∧ f.currency = currency ∧
    f.signedAmount ≠ 0 ∧ HasScale 2 f.signedAmount
  cancel : (foreignAmounts new.lines).sum = 0
  ledger_found : db.findLedger new.ledgerId = some ledger
  rate_found : req.fxLookup currency ledger.baseCurrency new.txnDate = .ok rate
  rate_pos : 0 < rate
  /-- A tax attribution names one of the lines. -/
  taxed : ∀ link ∈ new.taxLinks, link.postingIdx < new.lines.length

variable {d : Decimal.Arith} {sql : Statement → Outcome}

/-! ## The validation -/

theorem effectiveAmounts_foreign {req : Request} {base currency : String} {date : NaiveDate}
    {rate : ℚ} (hrate : req.fxLookup currency base date = .ok rate) :
    ∀ {ls : List TxnLineInput}, (∀ l ∈ ls, ∃ f, l.foreign = some f ∧ f.currency = currency) →
      effectiveAmounts d req base date ls = .ok (baseAmounts d rate ls)
  | [], _ => rfl
  | l :: ls, h => by
    obtain ⟨⟨f, hf, hcurrency⟩, hrest⟩ := List.forall_mem_cons.mp h
    have hone : effectiveAmount d req base date l = .ok (roundDp 2 (d.mul f.signedAmount rate)) := by
      rw [effectiveAmount, hf]
      dsimp only
      rw [hcurrency, hrate]
      rfl
    have hamounts : foreignAmounts (l :: ls) = f.signedAmount :: foreignAmounts ls :=
      List.filterMap_cons_some (by rw [hf, Option.map_some])
    rw [effectiveAmounts, hone, ok_bind, effectiveAmounts_foreign hrate hrest, ok_bind,
      baseAmounts, baseAmounts, hamounts, List.map_cons]

section

variable {db : Db} {req : Request} {new : NewTransaction} {ledger : Ledger} {currency : String}
  {rate : ℚ}

theorem ForeignJournal.resolveAmounts_eq (h : ForeignJournal db req new ledger currency rate) :
    resolveAmounts d sql db req new =
      answered sql .baseCurrency >>= fun _ => .ok (baseAmounts d rate new.lines) := by
  have hany : (new.lines.any fun l => l.foreign.isSome) = true := by
    have hne : new.lines ≠ [] := by
      intro hnil
      have hlines := h.lines
      rw [hnil] at hlines
      cases hlines
    obtain ⟨l, hl⟩ := List.exists_mem_of_ne_nil _ hne
    obtain ⟨f, hf, -⟩ := h.foreign l hl
    exact List.any_eq_true.mpr ⟨l, hl, by rw [hf]; rfl⟩
  have hamounts : effectiveAmounts d req ledger.baseCurrency new.txnDate new.lines =
      .ok (baseAmounts d rate new.lines) :=
    effectiveAmounts_foreign h.rate_found fun l hl => by
      obtain ⟨f, hf, hcurrency, -⟩ := h.foreign l hl
      exact ⟨f, hf, hcurrency⟩
  rw [resolveAmounts, if_pos hany, h.ledger_found]
  show (answered sql .baseCurrency >>= fun _ => mapError .service
    (effectiveAmounts d req ledger.baseCurrency new.txnDate new.lines)) = _
  rw [hamounts]
  rfl

end

/-! ## What the database transaction fails with -/

theorem not_unbalanced_answered (s : Statement) : ¬ Fails IsUnbalanced (answered sql s) := by
  rw [answered, fails_ensure]
  exact fun h => h.2

theorem not_unbalanced_ensure {c : Prop} [Decidable c] {e : CallError} (he : ¬ e.IsUnbalanced) :
    ¬ Fails IsUnbalanced (ensure c e) := by
  rw [fails_ensure]
  exact fun h => he h.2

theorem not_unbalanced_mapDb {α : Type*} {x : Except SqlError α} :
    ¬ Fails IsUnbalanced (mapError (fun e => CallError.service (.db e)) x) := by
  rw [fails_mapError]
  exact not_fails_false

variable {isDraft : Bool} {new : NewTransaction}

theorem not_unbalanced_checkPeriod {db : Db} :
    ¬ Fails IsUnbalanced (checkPeriod sql db new isDraft) := by
  cases isDraft with
  | true => exact fails_ok
  | false =>
    exact not_fails_bind (not_unbalanced_answered _) fun _ _ => not_unbalanced_ensure id

theorem not_unbalanced_checkAccounts {b : Books} {ledger : Uuid} :
    ∀ {k : ℕ} {ls : List TxnLineInput}, ¬ Fails IsUnbalanced (checkAccounts sql b ledger k ls)
  | _, [] => fails_ok
  | k, l :: ls => by
    refine not_fails_bind (not_unbalanced_answered _) fun _ _ => ?_
    split
    · exact not_unbalanced_checkAccounts
    · refine not_fails_bind (not_unbalanced_answered _) fun _ _ h => ?_
      rw [fails_error] at h
      split at h <;> exact h

theorem not_unbalanced_checkDimension {rows : List NamedRow} {ledger : Uuid} {s : Statement}
    {e : Uuid → PostingServiceError} (he : ∀ id, ¬ (CallError.service (e id)).IsUnbalanced)
    {o : Option Uuid} : ¬ Fails IsUnbalanced (checkDimension sql rows ledger s e o) := by
  cases o with
  | none => exact fails_ok
  | some id =>
    exact not_fails_bind (not_unbalanced_answered _) fun _ _ => not_unbalanced_ensure (he id)

theorem not_unbalanced_checkDimensions {db : Db} {ledger : Uuid} :
    ∀ {k : ℕ} {ls : List TxnLineInput}, ¬ Fails IsUnbalanced (checkDimensions sql db ledger k ls)
  | _, [] => fails_ok
  | _, _ :: _ =>
    not_fails_bind (not_unbalanced_checkDimension fun _ => id) fun _ _ =>
      not_fails_bind (not_unbalanced_checkDimension fun _ => id) fun _ _ =>
        not_unbalanced_checkDimensions

theorem not_unbalanced_resolveNumber {b : Books} :
    ¬ Fails IsUnbalanced (mapError CallError.service (resolveNumber b new)) := by
  rw [fails_mapError]
  unfold resolveNumber
  dsimp only
  split
  · refine not_fails_bind (fun h => ?_) fun _ _ => fails_ok
    exact (fails_ensure.mp h).2
  · exact fails_ok

theorem not_unbalanced_readThreshold : ¬ Fails IsUnbalanced (readThreshold sql new isDraft) := by
  unfold readThreshold
  split
  · exact not_unbalanced_answered _
  · exact fails_ok

theorem not_unbalanced_insertPostings :
    ∀ {k : ℕ} {db : Db} {rows : List PostingRow},
      ¬ Fails IsUnbalanced (insertPostings sql k db rows)
  | _, _, [] => fails_ok
  | _, _, _ :: _ =>
    not_fails_bind (not_unbalanced_answered _) fun _ _ =>
      not_fails_bind not_unbalanced_mapDb fun _ _ => not_unbalanced_insertPostings

theorem not_unbalanced_insertTaxLinks {ids : List Uuid} :
    ∀ {k : ℕ} {links : List TaxLink} {db : Db}, (∀ link ∈ links, link.postingIdx < ids.length) →
      ¬ Fails IsUnbalanced (insertTaxLinks sql ids k db links)
  | _, [], _, _ => fails_ok
  | k, link :: links, db, h => by
    obtain ⟨hlink, hrest⟩ := List.forall_mem_cons.mp h
    refine not_fails_bind ?_ fun _ _ => not_fails_bind (not_unbalanced_answered _) fun _ _ =>
      not_fails_bind not_unbalanced_mapDb fun _ _ => not_unbalanced_insertTaxLinks hrest
    rw [fails_okOr]
    exact fun hnone => absurd hlink (not_lt.mpr (List.getElem?_eq_none_iff.mp hnone.1))

theorem not_unbalanced_writeTransaction {db : Db} {req : Request} {effective : List ℚ}
    (hlen : effective.length = new.lines.length)
    (htaxed : ∀ link ∈ new.taxLinks, link.postingIdx < new.lines.length) :
    ¬ Fails IsUnbalanced (writeTransaction d sql db req new isDraft effective) := by
  have hids : ∀ link ∈ new.taxLinks, link.postingIdx <
      ((lineRows req 0 new.lines effective).map PostingRow.id).length := by
    rw [List.length_map, lineRows_length hlen]
    exact htaxed
  refine not_fails_bind (not_unbalanced_answered _) fun _ _ =>
    not_fails_bind (not_unbalanced_answered _) fun _ _ =>
    not_fails_bind (not_unbalanced_answered _) fun _ _ =>
    not_fails_bind (fun h => (fails_okOr.mp h).2) fun _ _ =>
    not_fails_bind not_unbalanced_checkPeriod fun _ _ =>
    not_fails_bind not_unbalanced_checkAccounts fun _ _ =>
    not_fails_bind not_unbalanced_checkDimensions fun _ _ =>
    not_fails_bind (not_unbalanced_answered _) fun _ _ =>
    not_fails_bind not_unbalanced_resolveNumber fun _ _ =>
    not_fails_bind not_unbalanced_readThreshold fun _ _ =>
    not_fails_bind (not_unbalanced_answered _) fun _ _ =>
    not_fails_bind (fun h => (fails_okOr.mp h).2) fun _ _ =>
    not_fails_bind not_unbalanced_mapDb fun _ _ =>
    not_fails_bind not_unbalanced_insertPostings fun _ _ =>
    not_fails_bind (not_unbalanced_insertTaxLinks hids) fun _ _ => fails_ok

/-- Of the errors of `create`, only the check of the totals says that they differ. -/
theorem ForeignJournal.unbalanced_iff {db : Db} {req : Request} {ledger : Ledger}
    {currency : String} {rate : ℚ} (h : ForeignJournal db req new ledger currency rate) :
    Fails IsUnbalanced (create d sql db req new).1 ↔ sql .baseCurrency = .done ∧
      debitTotal d (baseAmounts d rate new.lines) ≠
        creditTotal d (baseAmounts d rate new.lines) := by
  by_cases hanswered : sql .baseCurrency = .done
  swap
  · have hvalid : validate d sql db req new = .error (.unanswered .baseCurrency) := by
      rw [validate, ensure, if_pos h.lines, ok_bind, h.resolveAmounts_eq, answered, ensure,
        if_neg hanswered]
      rfl
    rw [create, createWithKind, hvalid]
    exact iff_of_false (fun hfails => fails_error.mp hfails) fun hne => hanswered hne.1
  have hamounts : resolveAmounts d sql db req new = .ok (baseAmounts d rate new.lines) := by
    rw [h.resolveAmounts_eq, answered, ensure, if_pos hanswered, ok_bind]
  by_cases hsame : debitTotal d (baseAmounts d rate new.lines) =
    creditTotal d (baseAmounts d rate new.lines)
  · have hwrite : ¬ Fails IsUnbalanced
        (writeTransaction d sql db req new false (baseAmounts d rate new.lines)) :=
      not_unbalanced_writeTransaction (resolveAmounts_length hamounts) h.taxed
    rw [create, createWithKind, validate_eq_ok.mpr ⟨h.lines, hamounts, hsame⟩]
    refine iff_of_false (not_fails_andThen (not_fails_commitAs id hwrite) fun r db' => ?_)
      fun hne => hne.2 hsame
    split
    · exact not_fails_commitAs (fun he => he)
        (not_fails_bind not_unbalanced_mapDb fun _ _ => fails_ok)
    · exact fails_ok
  · have hvalid : validate d sql db req new = .error (.service (.unbalanced
        (debitTotal d (baseAmounts d rate new.lines))
        (creditTotal d (baseAmounts d rate new.lines)))) := by
      rw [validate, ensure, if_pos h.lines, ok_bind, hamounts, ok_bind, ensure, if_neg hsame]
      rfl
    rw [create, createWithKind, hvalid]
    exact iff_of_true (fails_error.mpr trivial) ⟨hanswered, hsame⟩

/-! ## Amounts of four decimals -/

/-- Decimals of four places are added without rounding as long as the total stays small. -/
theorem foldl_add_of_hasScale {d : Decimal.Arith} (hd : d.Lawful) (xs : List ℚ) :
    ∀ total : ℚ, HasScale 4 total → 0 ≤ total → (∀ x ∈ xs, HasScale 4 x ∧ 0 ≤ x) →
      total + xs.sum < 10 ^ 24 → xs.foldl d.add total = total + xs.sum := by
  have hrepresentable : ∀ x : ℚ, HasScale 4 x → 0 ≤ x → x < 10 ^ 24 →
      Decimal.Representable x := by
    intro x hx hpos hsmall
    refine Decimal.representable_of_hasScale (by decide) hx ?_
    rw [abs_of_nonneg hpos]
    norm_num at hsmall ⊢
    linarith
  induction xs with
  | nil =>
    intro total _ _ _ _
    simp
  | cons x xs ih =>
    intro total htotal hpos hxs hsmall
    obtain ⟨⟨hx, hxpos⟩, hxs⟩ := List.forall_mem_cons.mp hxs
    have hrest : 0 ≤ xs.sum := List.sum_nonneg fun y hy => (hxs y hy).2
    rw [List.sum_cons] at hsmall ⊢
    have hsum : total + x < 10 ^ 24 := by linarith
    have hadd : d.add total x = total + x := by
      refine (hd.add total x (hrepresentable total htotal hpos (by linarith))
        (hrepresentable x hx hxpos (by linarith)) ?_).exact
        (hrepresentable _ (htotal.add hx) (by linarith) hsum)
      rw [abs_of_nonneg (by linarith)]
      norm_num at hsum ⊢
      linarith
    rw [List.foldl_cons, hadd, ih (total + x) (htotal.add hx) (by linarith) hxs (by linarith)]
    ring

/-- The amounts that count as debits. -/
def debits (amounts : List ℚ) : List ℚ := amounts.filter fun a => 0 ≤ a

/-- The amounts that count as credits, without their sign. -/
def credits (amounts : List ℚ) : List ℚ := (amounts.filter fun a => ¬ 0 ≤ a).map Neg.neg

theorem debitTotal_eq_foldl (d : Decimal.Arith) (amounts : List ℚ) :
    debitTotal d amounts = (debits amounts).foldl d.add 0 := by
  simp only [debitTotal, debits, List.foldl_filter, decide_eq_true_eq]

theorem creditTotal_eq_foldl (d : Decimal.Arith) (amounts : List ℚ) :
    creditTotal d amounts = (credits amounts).foldl d.add 0 := by
  simp only [creditTotal, credits, List.foldl_map, List.foldl_filter, decide_eq_true_eq, ite_not]

/-- The two sides are the totals of the service, and together the amounts without their signs. -/
theorem sum_sides (amounts : List ℚ) :
    (debits amounts).sum = PostingService.debitTotal amounts ∧
      (credits amounts).sum = PostingService.creditTotal amounts ∧
      (debits amounts).sum + (credits amounts).sum = (amounts.map abs).sum := by
  induction amounts with
  | nil => simp [debits, credits, PostingService.debitTotal, PostingService.creditTotal]
  | cons a amounts ih =>
    simp only [debits, credits, PostingService.debitTotal, PostingService.creditTotal] at ih
    obtain ⟨hdebits, hcredits, habs⟩ := ih
    by_cases ha : 0 ≤ a
    · simp [debits, credits, PostingService.debitTotal, PostingService.creditTotal, ha,
        abs_of_nonneg ha, ← hdebits, ← hcredits, ← habs, add_assoc]
    · have hneg : a < 0 := not_le.mp ha
      simp [debits, credits, PostingService.debitTotal, PostingService.creditTotal, ha, hneg,
        abs_of_neg hneg, ← hdebits, ← hcredits, ← habs, add_left_comm]

/-- Small base amounts are summed without rounding. -/
theorem totals_of_hasScale (hd : d.Lawful) {amounts : List ℚ} (hscale : ∀ a ∈ amounts, HasScale 4 a)
    (hsmall : (amounts.map abs).sum < 10 ^ 24) :
    debitTotal d amounts = PostingService.debitTotal amounts ∧
      creditTotal d amounts = PostingService.creditTotal amounts := by
  have hdebits : ∀ x ∈ debits amounts, HasScale 4 x ∧ 0 ≤ x := by
    intro x hx
    obtain ⟨ha, hpos⟩ := List.mem_filter.mp hx
    exact ⟨hscale x ha, of_decide_eq_true hpos⟩
  have hcredits : ∀ x ∈ credits amounts, HasScale 4 x ∧ 0 ≤ x := by
    intro x hx
    obtain ⟨a, ha, rfl⟩ := List.mem_map.mp hx
    obtain ⟨ha, hneg⟩ := List.mem_filter.mp ha
    have hneg : a < 0 := not_le.mp (of_decide_eq_true hneg)
    exact ⟨(hscale a ha).neg, by linarith⟩
  obtain ⟨hdebitSum, hcreditSum, hsum⟩ := sum_sides amounts
  have hdebitPos : 0 ≤ (debits amounts).sum := List.sum_nonneg fun x hx => (hdebits x hx).2
  have hcreditPos : 0 ≤ (credits amounts).sum := List.sum_nonneg fun x hx => (hcredits x hx).2
  constructor
  · rw [debitTotal_eq_foldl, foldl_add_of_hasScale hd _ 0 (hasScale_zero 4) le_rfl hdebits
      (by linarith), zero_add, hdebitSum]
  · rw [creditTotal_eq_foldl, foldl_add_of_hasScale hd _ 0 (hasScale_zero 4) le_rfl hcredits
      (by linarith), zero_add, hcreditSum]

theorem totals_opposite (hd : d.Lawful) (x : ℚ) :
    debitTotal d [x, -x] = creditTotal d [x, -x] := by
  have hzero : d.add 0 0 = 0 := by
    have hrepresentable : Decimal.Representable 0 := ⟨0, 0, by norm_num, by norm_num, by norm_num⟩
    have hround := hd.add 0 0 hrepresentable hrepresentable (by norm_num)
    rw [add_zero] at hround
    exact hround.exact hrepresentable
  rcases lt_trichotomy x 0 with hx | rfl | hx
  · simp [debitTotal, creditTotal, not_le.mpr hx, hx.le]
  · simp [debitTotal, creditTotal, hzero]
  · simp [debitTotal, creditTotal, not_le.mpr hx, hx.le]

/-! ## Which journals are refused -/

theorem baseAmounts_balanced_iff (hd : d.Lawful) {rate : ℚ} {lines : List TxnLineInput}
    (hsmall : ((baseAmounts d rate lines).map abs).sum < 10 ^ 24) :
    debitTotal d (baseAmounts d rate lines) = creditTotal d (baseAmounts d rate lines) ↔
      (baseAmounts d rate lines).sum = 0 := by
  have hscale : ∀ a ∈ baseAmounts d rate lines, HasScale 4 a := by
    intro a ha
    obtain ⟨x, -, rfl⟩ := List.mem_map.mp ha
    exact (hasScale_roundDp 2 _).mono (by norm_num)
  obtain ⟨hdebits, hcredits⟩ := totals_of_hasScale hd hscale hsmall
  rw [hdebits, hcredits]
  exact balanced_iff_sum _

section

variable {db : Db} {req : Request} {new : NewTransaction} {ledger : Ledger} {currency : String}
  {rate : ℚ}

theorem ForeignJournal.two_lines (h : ForeignJournal db req new ledger currency rate)
    (hd : d.Lawful) (hsign : d.SignMagnitude) (htwo : new.lines.length = 2) :
    debitTotal d (baseAmounts d rate new.lines) = creditTotal d (baseAmounts d rate new.lines) := by
  obtain ⟨l, l', hlines⟩ := List.length_eq_two.mp htwo
  have hforeign := h.foreign
  have hcancel := h.cancel
  rw [hlines] at hforeign hcancel ⊢
  obtain ⟨f, hf, -⟩ := hforeign l List.mem_cons_self
  obtain ⟨f', hf', -⟩ := hforeign l' (List.mem_cons_of_mem _ List.mem_cons_self)
  have hamounts : foreignAmounts [l, l'] = [f.signedAmount, f'.signedAmount] := by
    simp [foreignAmounts, hf, hf']
  rw [hamounts, List.sum_cons, List.sum_singleton] at hcancel
  have hneg : f'.signedAmount = -f.signedAmount := (neg_eq_of_add_eq_zero_right hcancel).symm
  rw [baseAmounts, hamounts, hneg, List.map_cons, List.map_singleton, hsign, roundDp_neg]
  exact totals_opposite hd _

end

/-- Foreign amounts that cancel are refused exactly when the totals of their base amounts differ.
When these are small, that is when they do not sum to zero.  Two lines are never refused. -/
theorem rejected_iff (hd : d.Lawful) (hsign : d.SignMagnitude) {db : Db} {req : Request}
    {new : NewTransaction} {ledger : Ledger} {currency : String} {rate : ℚ}
    (h : ForeignJournal db req new ledger currency rate) :
    (Fails IsUnbalanced (create d sql db req new).1 ↔ sql .baseCurrency = .done ∧
      debitTotal d (baseAmounts d rate new.lines) ≠
        creditTotal d (baseAmounts d rate new.lines)) ∧
    (((baseAmounts d rate new.lines).map abs).sum < 10 ^ 24 →
      (Fails IsUnbalanced (create d sql db req new).1 ↔ sql .baseCurrency = .done ∧
        (baseAmounts d rate new.lines).sum ≠ 0)) ∧
    (new.lines.length = 2 → ¬ Fails IsUnbalanced (create d sql db req new).1) := by
  refine ⟨h.unbalanced_iff, fun hsmall => ?_, fun htwo => ?_⟩
  · rw [h.unbalanced_iff, ne_eq, ne_eq, baseAmounts_balanced_iff hd hsmall]
  · rw [h.unbalanced_iff]
    exact fun hne => hne.2 (h.two_lines hd hsign htwo)

namespace Sample

open OpenAccounting.Sample

/-- A line of cash or sales with a foreign leg in kroner. -/
def kronerLine (account : Uuid) (amount : ℚ) : TxnLineInput where
  accountId := account
  signedAmount := 0
  foreign := some { signedAmount := amount, currency := "NOK" }

def kronerJournal (lines : List TxnLineInput) : NewTransaction :=
  { OpenAccounting.Sample.sale 0 with lines := lines }

/-- The rate of the krone, whatever the day. -/
def atRate (rate : ℚ) : Request := { request 1 with fxLookup := fun _ _ _ => .ok rate }

/-- Two cents of sales, received cent by cent. -/
def cents : NewTransaction :=
  kronerJournal [kronerLine cash 0.01, kronerLine cash 0.01, kronerLine sales (-0.02)]

/-- Eighteen cents received, nine of them each for two sales. -/
def twoSales : NewTransaction :=
  kronerJournal [kronerLine cash 0.18, kronerLine sales (-0.09), kronerLine sales (-0.09)]

def twelfth : ℚ := 0.0833333333333333333333333333

def ledger : Ledger := { id := ledgerId, ownerId := owner }

theorem foreignJournal {lines : List TxnLineInput} {rate : ℚ} (hrate : 0 < rate)
    (hlen : 2 ≤ lines.length)
    (hforeign : ∀ l ∈ lines, ∃ f, l.foreign = some f ∧ f.currency = "NOK" ∧
      f.signedAmount ≠ 0 ∧ HasScale 2 f.signedAmount)
    (hcancel : (foreignAmounts lines).sum = 0) :
    ForeignJournal OpenAccounting.Sample.db (atRate rate) (kronerJournal lines) ledger "NOK"
      rate where
  lines := hlen
  foreign := hforeign
  cancel := hcancel
  ledger_found := rfl
  rate_found := rfl
  rate_pos := hrate
  taxed := by
    intro link hlink
    cases hlink

theorem kronerLine_foreign (account : Uuid) {amount : ℚ} (hne : amount ≠ 0)
    (hscale : HasScale 2 amount) : ∃ f, (kronerLine account amount).foreign = some f ∧
      f.currency = "NOK" ∧ f.signedAmount ≠ 0 ∧ HasScale 2 f.signedAmount :=
  ⟨_, rfl, rfl, hne, hscale⟩

theorem cents_foreign :
    ForeignJournal OpenAccounting.Sample.db (atRate 0.5) cents ledger "NOK" 0.5 :=
  foreignJournal (by norm_num) (by decide)
    (List.forall_mem_cons.mpr ⟨kronerLine_foreign _ (by norm_num) (by decide +kernel),
      List.forall_mem_cons.mpr ⟨kronerLine_foreign _ (by norm_num) (by decide +kernel),
        List.forall_mem_singleton.mpr (kronerLine_foreign _ (by norm_num) (by decide +kernel))⟩⟩)
    (by decide +kernel)

theorem twoSales_foreign :
    ForeignJournal OpenAccounting.Sample.db (atRate twelfth) twoSales ledger "NOK" twelfth :=
  foreignJournal (by norm_num [twelfth]) (by decide)
    (List.forall_mem_cons.mpr ⟨kronerLine_foreign _ (by norm_num) (by decide +kernel),
      List.forall_mem_cons.mpr ⟨kronerLine_foreign _ (by norm_num) (by decide +kernel),
        List.forall_mem_singleton.mpr (kronerLine_foreign _ (by norm_num) (by decide +kernel))⟩⟩)
    (by decide +kernel)

end Sample

/-- Two half cents are rounded up and the cent against them is not. -/
theorem cents_rejected :
    ForeignJournal OpenAccounting.Sample.db (Sample.atRate 0.5) Sample.cents Sample.ledger "NOK"
        0.5 ∧
      Fails IsUnbalanced (create Decimal.nearest allDone OpenAccounting.Sample.db
        (Sample.atRate 0.5) Sample.cents).1 :=
  ⟨Sample.cents_foreign, Sample.cents_foreign.unbalanced_iff.mpr ⟨rfl, by decide +kernel⟩⟩

/-- At a twelfth, 0.18 is just under a cent and a half, which the product does not show any more.
It is rounded up to the two cents that the two sales come to. -/
theorem rejected_iff_twoSales :
    ¬ Fails IsUnbalanced (create Decimal.nearest allDone OpenAccounting.Sample.db
      (Sample.atRate Sample.twelfth) Sample.twoSales).1 := by
  have hrejected := @rejected_iff _ allDone Decimal.nearest_lawful Decimal.nearest_signMagnitude
    _ _ _ _ _ _ Sample.twoSales_foreign
  rw [hrejected.2.1 (by decide +kernel)]
  exact fun hne => hne.2 (by decide +kernel)

end PostingService.Stepwise

end OpenAccounting
