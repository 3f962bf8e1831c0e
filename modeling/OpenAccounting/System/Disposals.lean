import OpenAccounting.Handlers.FixedAssets
import OpenAccounting.Db.Inserts
import OpenAccounting.System.JournalOps

/-!
# Disposals of an asset

`dispose` called any number of times on one asset.  Its entry is posted only when the proceeds
differ from the book value, and nothing reads whether the asset is disposed already.  So there is
one entry, with the proceeds, the book value and the gain or loss, in the runs where the first
disposal has a gain or a loss and the later ones have none (`relieved_of_careful`).
-/

namespace OpenAccounting.FixedAssets

open Calendar Commit Depreciation Relational Rounding

namespace Disposals

/-! ## Runs -/

/-- One call of `dispose`. -/
structure Call where
  req : Request
  auth : Option Uuid
  ledger : Uuid
  form : DisposalForm

/-- A disposal that succeeded: the ledger of its path, the asset as it was read, and the
proceeds. -/
structure Disposal where
  ledger : Uuid
  found : FixedAsset
  proceeds : ℚ

/-- The database, and the first disposal that succeeded. -/
structure State where
  db : Db
  first : Option Disposal := none

def disposalOf (asset : Uuid) (db : Db) (c : Call) : Option Disposal :=
  match readDisposal db c.auth c.ledger asset c.form with
  | .ok (_, _, proceeds, found) => some ⟨c.ledger, found, proceeds⟩
  | .error _ => none

def step (asset : Uuid) (st : State) (c : Call) : State :=
  match dispose st.db c.req c.auth c.ledger asset c.form with
  | (.ok (), db) => { db := db, first := st.first.or (disposalOf asset st.db c) }
  | (.error _, db) => { st with db := db }

/-- A posting on the account, with this signed amount. -/
structure Leg (line : Uuid × ℚ) (p : Posting) : Prop where
  accountId : p.accountId = line.1
  signed : p.signed = line.2

/-- The entry of the disposal is the one entry that the books `b'` have beyond those of `db`. -/
structure Relieves (db : Db) (d : Disposal) (b' : Books) (t : Transaction) (ps : List Posting)
    (cash gl : Account) : Prop where
  posts : Books.Posts db.books b' t ps
  ledger : t.ledgerId = d.ledger
  cash_found : Inventory.cashAccount db d.ledger = some cash
  gl_found : glAccount db d.ledger (gainLoss d.found d.proceeds) = some gl
  legs : List.Forall₂ Leg
    [(cash.id, d.proceeds),
      (d.found.accountId, -netBookValue d.found.purchaseCost d.found.accumulatedDepreciation),
      (gl.id, -gainLoss d.found d.proceeds)] ps

/-- Before a disposal succeeds nothing is posted, and after it exactly its entry is. -/
def Relieved (start : Db) (st : State) : Prop :=
  match st.first with
  | none => st.db.books = start.books
  | some d => ∃ t ps cash gl, Relieves start d st.db.books t ps cash gl

/-- The first disposal has a gain or a loss, to four decimals, and the later ones have none. -/
def Careful (asset : Uuid) (st : State) (c : Call) : Prop :=
  ∀ d ∈ disposalOf asset st.db c,
    if st.first = none then gainLoss d.found d.proceeds ≠ 0 ∧ HasScale 4 d.proceeds
    else gainLoss d.found d.proceeds = 0

instance (asset : Uuid) (st : State) (c : Call) : Decidable (Careful asset st c) := by
  unfold Careful
  infer_instance

/-- The amounts of the assets are `NUMERIC(20,4)`. -/
def AmountsStored (db : Db) : Prop :=
  ∀ a ∈ db.fixedAssets, HasScale 4 a.purchaseCost ∧ HasScale 4 a.accumulatedDepreciation

/-! ## Posting a disposal -/

section

variable {db db' : Db} {req : Request} {new : NewTransaction} {user ledger : Uuid}
  {found : FixedAsset} {date : NaiveDate} {proceeds : ℚ}

open PostingService

theorem writeTransaction_fits {isDraft : Bool} {effective : List ℚ} {r : CreatedTransaction × Bool}
    (h : writeTransaction db req new isDraft effective = .ok (r, db')) :
    ∀ row ∈ lineRows req 0 new.lines effective, row.FitsColumns := by
  simp only [writeTransaction, bind_eq_ok, okOr_eq_ok, ensure_eq_ok, mapError_eq_ok] at h
  obtain ⟨_, -, -, -, -, -, -, -, _, -, _, -, _, hentry, -⟩ := h
  exact Db.insertEntry_fits hentry

theorem insertApproval_ne_error {a : JournalApproval} (h : (amountColumn a.amount).isSome)
    (e : SqlError) : insertApproval db a ≠ .error e := by
  obtain ⟨amount, hamount⟩ := Option.isSome_iff_exists.mp h
  intro hfail
  simp only [insertApproval, hamount, okOr, ok_bind] at hfail
  cases hfail

/-- Of three amounts that cancel one is alone on its side, and is the total. -/
theorem debitTotal_of_cancel {a b c : ℚ} (h : a + b + c = 0) :
    debitTotal [a, b, c] = |a| ∨ debitTotal [a, b, c] = |b| ∨ debitTotal [a, b, c] = |c| := by
  have htotal : debitTotal [a, b, c] = (if 0 ≤ a then a else 0) + ((if 0 ≤ b then b else 0) +
      ((if 0 ≤ c then c else 0) + 0)) := rfl
  have hneg : ∀ {x : ℚ}, ¬ 0 ≤ x → |x| = -x := fun hx => abs_of_neg (not_le.mp hx)
  rw [htotal]
  by_cases ha : 0 ≤ a
  · by_cases hb : 0 ≤ b
    · right; right
      rw [if_pos ha, if_pos hb, abs_of_nonpos (by linarith)]
      split <;> linarith
    · by_cases hc : 0 ≤ c
      · right; left
        rw [if_pos ha, if_neg hb, if_pos hc, hneg hb]
        linarith
      · left
        rw [if_pos ha, if_neg hb, if_neg hc, abs_of_nonneg ha]
        linarith
  · by_cases hb : 0 ≤ b
    · by_cases hc : 0 ≤ c
      · left
        rw [if_neg ha, if_pos hb, if_pos hc, hneg ha]
        linarith
      · right; left
        rw [if_neg ha, if_pos hb, if_neg hc, abs_of_nonneg hb]
        linarith
    · right; right
      rw [if_neg ha, if_neg hb, abs_of_nonneg (by linarith)]
      split <;> linarith

/-- The amounts of the three lines. -/
def disposalAmounts (found : FixedAsset) (proceeds : ℚ) : List ℚ :=
  [proceeds, -netBookValue found.purchaseCost found.accumulatedDepreciation,
    -gainLoss found proceeds]

theorem disposalAmounts_fit {cash gl : Uuid}
    (h : ∀ row ∈ lineRows req 0 (disposalLines found cash gl proceeds)
      (disposalAmounts found proceeds), row.FitsColumns) :
    (amountColumn proceeds).isSome ∧
      (amountColumn (debitTotal (disposalAmounts found proceeds))).isSome := by
  have hrows : ∀ x ∈ disposalAmounts found proceeds, (amountColumn |x|).isSome := by
    simp only [disposalLines, disposalAmounts, lineRows, List.forall_mem_cons] at h
    simp only [disposalAmounts, List.forall_mem_cons]
    exact ⟨h.1.amount, h.2.1.amount, h.2.2.1.amount, by simp⟩
  simp only [disposalAmounts, List.forall_mem_cons] at hrows
  obtain ⟨hproceeds, hnbv, hgain, -⟩ := hrows
  refine ⟨numeric_isSome_of_abs_le (abs_abs proceeds).ge hproceeds, ?_⟩
  have hcancel : proceeds + -netBookValue found.purchaseCost found.accumulatedDepreciation +
      -gainLoss found proceeds = 0 := by
    rw [gainLoss]
    ring
  rcases debitTotal_of_cancel hcancel with htotal | htotal | htotal
  · rwa [disposalAmounts, htotal]
  · rwa [disposalAmounts, htotal]
  · rwa [disposalAmounts, htotal]

theorem resolveAmounts_disposal {cash gl : Uuid} :
    resolveAmounts db req (disposalEntry user ledger date (disposalLines found cash gl proceeds)) =
      .ok (disposalAmounts found proceeds) := rfl

/-- The approval row fits when the postings do, so the service fails before it writes or not at
all. -/
theorem create_disposal {cash gl : Uuid} {answer : Except PostingServiceError CreatedTransaction}
    (h : create db req (disposalEntry user ledger date (disposalLines found cash gl proceeds)) =
      (answer, db')) :
    (∃ e, answer = .error e ∧ db' = db) ∨
      (∃ created, answer = .ok created) ∧ (amountColumn proceeds).isSome ∧
        ∃ t ps, Created db db' req
          (disposalEntry user ledger date (disposalLines found cash gl proceeds)) false
          (disposalAmounts found proceeds) t ps := by
  rcases createWithKind_outcome db req
    (disposalEntry user ledger date (disposalLines found cash gl proceeds)) false with
    ⟨e, he⟩ | ⟨effective, made, isPending, db₁, rows, answer', hvalid, hwrite, heq, -⟩
  · left
    cases h.symm.trans he
    exact ⟨e, rfl, rfl⟩
  · right
    obtain rfl : disposalAmounts found proceeds = effective :=
      Except.ok.inj (resolveAmounts_disposal.symm.trans (validate_spec hvalid).2.1)
    obtain ⟨hproceeds, htotal⟩ := disposalAmounts_fit (writeTransaction_fits hwrite)
    obtain ⟨t, ps, hcreated, hsame⟩ := writeTransaction_spec hvalid hwrite
    have hboth := h.symm.trans heq
    obtain rfl : answer = answer' := congrArg Prod.fst hboth
    obtain rfl : db' = _ := congrArg Prod.snd hboth
    refine ⟨?_, hproceeds, t, ps, { hcreated with approvals := ⟨rows, by rw [hsame]⟩ }⟩
    rw [create, createWithKind, hvalid] at h
    simp only [hwrite, commit] at h
    cases isPending with
    | false => exact ⟨made, (congrArg Prod.fst h).symm⟩
    | true =>
      dsimp only at h
      split at h
      · exact ⟨made, (congrArg Prod.fst h).symm⟩
      · next e hfail =>
          refine absurd hfail (insertApproval_ne_error ?_ e)
          exact htotal

/-- The entry of a disposal, once created, relieves the accounts of the asset. -/
theorem relieves_of_created {cash gl : Account} {t : Transaction} {ps : List Posting}
    (hcreated : Created db db' req
      (disposalEntry user ledger date (disposalLines found cash.id gl.id proceeds)) false
      (disposalAmounts found proceeds) t ps)
    (haccounts : disposalAccounts db ledger (gainLoss found proceeds) = .ok (cash, gl))
    (hcost : HasScale 4 found.purchaseCost) (haccumulated : HasScale 4 found.accumulatedDepreciation)
    (hproceeds : HasScale 4 proceeds) :
    Relieves db ⟨ledger, found, proceeds⟩ db'.books t ps cash gl := by
  simp only [disposalAccounts, bind_eq_ok, okOr_eq_ok] at haccounts
  obtain ⟨cash', hcash, gl', hgl, h⟩ := haccounts
  cases h
  have hnbv : HasScale 4 (netBookValue found.purchaseCost found.accumulatedDepreciation) := by
    rw [netBookValue, sub_eq_add_neg]
    exact hcost.add haccumulated.neg
  have hgain : HasScale 4 (gainLoss found proceeds) := by
    rw [gainLoss, sub_eq_add_neg]
    exact hproceeds.add hnbv.neg
  refine ⟨hcreated.posts, hcreated.ledgerId, hcash, hgl, ?_⟩
  have hstored := hcreated.stored
  simp only [disposalEntry, disposalLines, disposalAmounts, lineRows] at hstored
  cases hstored with
  | cons hfirst hrest =>
  cases hrest with
  | cons hsecond hrest =>
  cases hrest with
  | cons hthird hrest =>
  cases hrest
  exact .cons ⟨hfirst.accountId, signed_of_stored hproceeds hfirst⟩
    (.cons ⟨hsecond.accountId, signed_of_stored hnbv.neg hsecond⟩
      (.cons ⟨hthird.accountId, signed_of_stored hgain.neg hthird⟩ .nil))

end

/-! ## One call -/

section

variable {asset : Uuid} {db db' : Db} {c : Call} {d : Disposal}

theorem disposalOf_eq_some (h : disposalOf asset db c = some d) :
    d.ledger = c.ledger ∧ d.found ∈ db.fixedAssets ∧ ∃ user date,
      readDisposal db c.auth c.ledger asset c.form = .ok (user, date, d.proceeds, d.found) := by
  unfold disposalOf at h
  split at h
  · next user date proceeds found hread =>
      cases h
      refine ⟨rfl, ?_, user, date, hread⟩
      simp only [readDisposal, bind_eq_ok, okOr_eq_ok] at hread
      obtain ⟨_, -, _, -, _, -, _, -, _, -, row, hrow, h⟩ := hread
      cases h
      exact List.mem_of_find?_eq_some hrow
  · cases h

theorem dispose_of_none (h : disposalOf asset db c = none) :
    ∃ e, dispose db c.req c.auth c.ledger asset c.form = (.error e, db) := by
  unfold disposalOf at h
  unfold dispose
  cases hread : readDisposal db c.auth c.ledger asset c.form with
  | error e => exact ⟨e, rfl⟩
  | ok r =>
    rw [hread] at h
    cases h

/-- Marking the asset leaves the books alone and the amounts of the assets too. -/
theorem markDisposed_ok {u : Unit} {req : Request} {date : NaiveDate} {proceeds : ℚ}
    (h : markDisposed db req asset date proceeds = .ok (u, db')) :
    db'.books = db.books ∧ (AmountsStored db → AmountsStored db') := by
  simp only [markDisposed, bind_eq_ok, okOr_eq_ok] at h
  obtain ⟨amount, -, h⟩ := h
  cases h
  refine ⟨rfl, fun hstored a ha => ?_⟩
  obtain ⟨b, hb, rfl⟩ := List.mem_map.mp ha
  split
  · exact hstored b hb
  · exact hstored b hb

theorem markDisposed_of_fits (db : Db) (req : Request) (asset : Uuid) (date : NaiveDate)
    {proceeds : ℚ} (h : (amountColumn proceeds).isSome) :
    ∃ db', markDisposed db req asset date proceeds = .ok ((), db') := by
  obtain ⟨amount, hamount⟩ := Option.isSome_iff_exists.mp h
  rw [markDisposed, hamount]
  exact ⟨_, rfl⟩

theorem commit_markDisposed (req : Request) (date : NaiveDate) (proceeds : ℚ) :
    (commit db (markDisposed db req asset date proceeds)).2.books = db.books ∧
      (AmountsStored db →
        AmountsStored (commit db (markDisposed db req asset date proceeds)).2) := by
  rcases commit_cases db (markDisposed db req asset date proceeds) with h | ⟨u, db', hbody, h⟩
  · rw [h]
    exact ⟨rfl, id⟩
  · rw [h]
    exact markDisposed_ok hbody

theorem dispose_even (h : disposalOf asset db c = some d)
    (heven : gainLoss d.found d.proceeds = 0) :
    (dispose db c.req c.auth c.ledger asset c.form).2.books = db.books ∧
      (AmountsStored db →
        AmountsStored (dispose db c.req c.auth c.ledger asset c.form).2) := by
  obtain ⟨-, -, user, date, hread⟩ := disposalOf_eq_some h
  have hnone : postDisposal db c.req user c.ledger d.found date d.proceeds = (.ok (), db) :=
    if_pos heven
  rw [dispose, hread]
  simp only [hnone]
  exact commit_markDisposed c.req date d.proceeds

/-- With a gain or a loss the call fails and writes nothing, or it succeeds with its entry. -/
theorem dispose_uneven (h : disposalOf asset db c = some d)
    (huneven : gainLoss d.found d.proceeds ≠ 0) (hproceeds : HasScale 4 d.proceeds)
    (hstored : AmountsStored db) :
    (∃ e, dispose db c.req c.auth c.ledger asset c.form = (.error e, db)) ∨
      ∃ db' t ps cash gl, dispose db c.req c.auth c.ledger asset c.form = (.ok (), db') ∧
        Relieves db d db'.books t ps cash gl ∧ AmountsStored db' := by
  obtain ⟨hledger, hfound, user, date, hread⟩ := disposalOf_eq_some h
  obtain ⟨hcost, haccumulated⟩ := hstored _ hfound
  rw [dispose, hread]
  dsimp only
  rw [postDisposal, if_neg huneven]
  cases haccounts : disposalAccounts db c.ledger (gainLoss d.found d.proceeds) with
  | error e => exact Or.inl ⟨e, rfl⟩
  | ok accounts =>
    obtain ⟨cash, gl⟩ := accounts
    dsimp only
    cases hcall : PostingService.create db c.req (disposalEntry user c.ledger date
      (disposalLines d.found cash.id gl.id d.proceeds)) with
    | mk answer db₁ =>
      rcases create_disposal hcall with
        ⟨e, rfl, rfl⟩ | ⟨⟨created, rfl⟩, hfits, t, ps, hcreated⟩
      · exact Or.inl ⟨_, rfl⟩
      · right
        obtain ⟨db₂, hmark⟩ := markDisposed_of_fits db₁ c.req asset date hfits
        obtain ⟨hbooks, hkept⟩ := markDisposed_ok hmark
        have hrelieves := relieves_of_created hcreated haccounts hcost haccumulated hproceeds
        rw [hledger.symm] at hrelieves
        refine ⟨db₂, t, ps, cash, gl, ?_, by rwa [hbooks], hkept ?_⟩
        · show commit db₁ (markDisposed db₁ c.req asset date d.proceeds) = _
          rw [hmark]
          rfl
        · obtain ⟨_, _, _, _, hframe⟩ := PostingService.createWithKind_frame db c.req
            (disposalEntry user c.ledger date
              (disposalLines d.found cash.id gl.id d.proceeds)) false
          obtain rfl := (congrArg Prod.snd hcall).symm.trans hframe
          exact hstored

end

/-! ## Runs of careful calls -/

section

variable {asset : Uuid} {start : Db} {st : State} {c : Call}

/-- What careful calls keep. -/
structure Kept (start : Db) (st : State) : Prop where
  relieved : Relieved start st
  stored : AmountsStored st.db

theorem accounts_of_books {db db' : Db} (h : db'.books = db.books) (ledger : Uuid) (gain : ℚ) :
    Inventory.cashAccount db' ledger = Inventory.cashAccount db ledger ∧
      glAccount db' ledger gain = glAccount db ledger gain := by
  rw [Inventory.cashAccount, Inventory.cashAccount, glAccount, glAccount, h]
  exact ⟨rfl, rfl⟩

theorem Relieves.of_books {db db' : Db} {d : Disposal} {b : Books} {t : Transaction}
    {ps : List Posting} {cash gl : Account} (h : Relieves db d b t ps cash gl)
    (hbooks : db.books = db'.books) : Relieves db' d b t ps cash gl := by
  obtain ⟨hcash, hgl⟩ := accounts_of_books hbooks d.ledger (gainLoss d.found d.proceeds)
  exact ⟨hbooks ▸ h.posts, h.ledger, hcash ▸ h.cash_found, hgl ▸ h.gl_found, h.legs⟩

/-- A call that leaves the books alone, after the first disposal or because it fails. -/
theorem Kept.same {db' : Db} (h : Kept start st) (hbooks : db'.books = st.db.books)
    (hstored : AmountsStored db') : Kept start { st with db := db' } := by
  refine ⟨?_, hstored⟩
  have hrelieved := h.relieved
  unfold Relieved at hrelieved ⊢
  cases hfirst : st.first with
  | none =>
    rw [hfirst] at hrelieved
    exact hbooks.trans hrelieved
  | some d =>
    rw [hfirst] at hrelieved
    show ∃ t ps cash gl, Relieves start d db'.books t ps cash gl
    rwa [hbooks]

/-- The invariant, for one careful call. -/
theorem Kept.step (h : Kept start st) (hcareful : Careful asset st c) :
    Kept start (Disposals.step asset st c) := by
  have hrelieved := h.relieved
  unfold Disposals.step
  cases hd : disposalOf asset st.db c with
  | none =>
    obtain ⟨e, he⟩ := dispose_of_none hd
    rw [he]
    exact h
  | some d =>
    have hcare := hcareful d hd
    rcases Option.eq_none_or_eq_some st.first with hfirst | ⟨earlier, hfirst⟩
    · rw [if_pos hfirst] at hcare
      rw [Relieved, hfirst] at hrelieved
      rcases dispose_uneven hd hcare.1 hcare.2 h.stored with
        ⟨e, he⟩ | ⟨db', t, ps, cash, gl, hok, hentry, hstored⟩
      · rw [he]
        exact h
      · rw [hok, hfirst]
        exact ⟨⟨t, ps, cash, gl, hentry.of_books hrelieved⟩, hstored⟩
    · rw [if_neg (by rw [hfirst]; exact Option.some_ne_none earlier)] at hcare
      obtain ⟨hbooks, hstored⟩ := dispose_even hd hcare
      have hkept := h.same hbooks (hstored h.stored)
      split
      · next db' hcall =>
          rw [hcall] at hkept
          rw [hfirst] at hkept ⊢
          exact hkept
      · next e db' hcall =>
          rw [hcall] at hkept
          exact hkept

end

/-- In a run of careful disposals the entry of the first one that succeeds is posted, and nothing
else. -/
theorem relieved_of_careful {asset : Uuid} {start : Db} {calls : List Call}
    (hstored : AmountsStored start)
    (hcareful : Runs.Meets (step asset) (Careful asset) { db := start } calls) :
    ∀ st ∈ Runs.visited (step asset) { db := start } calls, Relieved start st := by
  have hstart : Kept start { db := start } := ⟨rfl, hstored⟩
  exact fun st hst =>
    (Runs.invariant_of_meets (fun _ _ h hc => Kept.step h hc) hstart hcareful st hst).relieved

namespace Sample

open OpenAccounting.Sample

def machinery : Uuid := 13

/-- A machine with a book value of 8000. -/
def machine : FixedAsset where
  id := 90
  ledgerId := ledgerId
  accountId := machinery
  purchaseCost := 12000
  usefulLifeYears := 5
  depreciationMethod := .straightLine
  accumulatedDepreciation := 4000

def workshop : Db :=
  { OpenAccounting.Sample.db with
    books := .ofChart
      [{ id := cash, ledgerId := ledgerId, name := "Cash on Hand", type := .asset,
         subtype := .currentAsset, subtype_valid := AccountType.currentAsset_valid },
       { id := machinery, ledgerId := ledgerId, name := "Machinery", type := .asset,
         subtype := .currentAsset, subtype_valid := AccountType.currentAsset_valid },
       { id := sales, ledgerId := ledgerId, name := "Sales", type := .income,
         subtype := .operatingIncome, subtype_valid := AccountType.operatingIncome_valid }]
      (by decide)
    fixedAssets := [machine] }

/-- The owner sells the machine on 12 March. -/
def sell (seed : ℕ) (proceeds : ℚ) : Call where
  req := request seed
  auth := some owner
  ledger := ledgerId
  form := { disposedDate := some (march 12), disposedAmount := some (some proceeds) }

/-- The machine of the workshop, sold again and again. -/
def after (calls : List Call) : State :=
  Runs.exec (step machine.id) { db := workshop } calls

theorem workshop_stored : AmountsStored workshop := by
  unfold AmountsStored
  decide +kernel

theorem sold_careful :
    Runs.Meets (step machine.id) (Careful machine.id) { db := workshop }
      [sell 1 9000, sell 2 8000] := by
  decide +kernel

end Sample

/-- Sold with a gain: one entry, also after a second disposal at the book value. -/
theorem relieved_of_careful_machine :
    Relieved Sample.workshop (Sample.after [Sample.sell 1 9000, Sample.sell 2 8000]) :=
  relieved_of_careful Sample.workshop_stored Sample.sold_careful _ (Runs.exec_mem_visited _ _)

theorem Relieved.length {start : Db} {st : State} (h : Relieved start st)
    (hfirst : st.first.isSome) :
    st.db.books.transactions.length = start.books.transactions.length + 1 := by
  obtain ⟨d, hd⟩ := Option.isSome_iff_exists.mp hfirst
  rw [Relieved, hd] at h
  obtain ⟨t, ps, cash, gl, hentry⟩ := h
  rw [hentry.posts.transactions, List.length_append, List.length_singleton]

/-- Sold at its book value the machine has no entry, and sold twice it has two. -/
theorem machine_not_relieved :
    ¬ Relieved Sample.workshop (Sample.after [Sample.sell 1 8000]) ∧
      ¬ Relieved Sample.workshop (Sample.after [Sample.sell 1 9000, Sample.sell 2 9000]) := by
  constructor
  · intro h
    exact absurd (h.length (by decide +kernel)) (by decide +kernel)
  · intro h
    exact absurd (h.length (by decide +kernel)) (by decide +kernel)

end Disposals

end OpenAccounting.FixedAssets
