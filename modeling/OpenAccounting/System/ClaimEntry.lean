import OpenAccounting.System.ClaimApprovals
import Mathlib.Algebra.Order.BigOperators.Group.List

/-!
# The entry of a claim

The legs of a posted claim, side by side.  The debits are the amounts without the advances, and the
taxes.  The credits are the amounts without the advances alone, and what the employee is credited
with has the advances taken off twice.  So the entry balances and credits what is owed exactly when
no line of the claim has a tax or an advance (`claimSettled_iff`).
-/

namespace OpenAccounting.Reimbursement

open Calendar Commit Relational Rounding

/-- The row checks of `reimbursement_lines`, and an advance within the amount. -/
structure LineStored (l : ClaimLine) : Prop where
  amount_pos : 0 < l.amount
  tax_nonneg : 0 ≤ l.taxAmount
  advance_nonneg : 0 ≤ l.advanceAmount
  advance_le : l.advanceAmount ≤ l.amount
  amount_scale : HasScale 4 l.amount
  tax_scale : HasScale 4 l.taxAmount
  advance_scale : HasScale 4 l.advanceAmount

instance (l : ClaimLine) : Decidable (LineStored l) :=
  decidable_of_iff
    (0 < l.amount ∧ 0 ≤ l.taxAmount ∧ 0 ≤ l.advanceAmount ∧ l.advanceAmount ≤ l.amount ∧
      HasScale 4 l.amount ∧ HasScale 4 l.taxAmount ∧ HasScale 4 l.advanceAmount)
    ⟨fun ⟨h₁, h₂, h₃, h₄, h₅, h₆, h₇⟩ => ⟨h₁, h₂, h₃, h₄, h₅, h₆, h₇⟩,
      fun ⟨h₁, h₂, h₃, h₄, h₅, h₆, h₇⟩ => ⟨h₁, h₂, h₃, h₄, h₅, h₆, h₇⟩⟩

def creditedTo (account : Uuid) (ps : List Posting) : ℚ :=
  Posting.sumOn .credit (ps.filter fun p => p.accountId = account)

/-- The entry balances, and credits the employee with amounts and taxes less the advances. -/
structure ClaimSettled (lines : List ClaimLine) (payable : Uuid) (ps : List Posting) : Prop where
  balanced : Posting.sumOn .debit ps = Posting.sumOn .credit ps
  payable : creditedTo payable ps =
    (lines.map fun l => l.amount + l.taxAmount).sum - (lines.map ClaimLine.advanceAmount).sum

/-! ## Legs -/

def legOf (p : Posting) : Uuid × ℚ × Direction := (p.accountId, p.amount, p.direction)

def side (d : Direction) (legs : List (Uuid × ℚ × Direction)) : ℚ :=
  (legs.map fun leg => if leg.2.2 = d then leg.2.1 else 0).sum

def credits (account : Uuid) (legs : List (Uuid × ℚ × Direction)) : ℚ :=
  (legs.map fun leg => if leg.1 = account ∧ leg.2.2 = .credit then leg.2.1 else 0).sum

section

variable {d d' : Direction} {account : Uuid} {amount : ℚ} {legs legs' : List (Uuid × ℚ × Direction)}

@[simp] theorem side_append : side d (legs ++ legs') = side d legs + side d legs' := by
  simp [side]

@[simp] theorem side_singleton :
    side d [(account, amount, d')] = if d' = d then amount else 0 := by
  simp [side]

@[simp] theorem credits_append :
    credits account (legs ++ legs') = credits account legs + credits account legs' := by
  simp [credits]

theorem sumOn_eq_side (ps : List Posting) : Posting.sumOn d ps = side d (ps.map legOf) := by
  rw [Posting.sumOn, side, List.map_map]
  rfl

theorem creditedTo_eq_credits (ps : List Posting) :
    creditedTo account ps = credits account (ps.map legOf) := by
  induction ps with
  | nil => rfl
  | cons p ps ih =>
    rw [creditedTo, credits] at ih
    rw [creditedTo, credits, List.map_cons, List.map_cons, List.sum_cons, ← ih, List.filter_cons]
    by_cases haccount : p.accountId = account
    · simp [legOf, haccount]
    · simp [legOf, haccount]

theorem legs_of_stored {req : Request} :
    ∀ {k : ℕ} {legs : List (Uuid × ℚ × Direction)} {ps : List Posting},
      (∀ leg ∈ legs, HasScale 4 leg.2.1) →
      List.Forall₂ PostingRow.Stored (legRows req k legs) ps → ps.map legOf = legs
  | _, [], _, _, h => by
    cases h
    rfl
  | k, leg :: legs, ps, hscale, h => by
    obtain ⟨hleg, hrest⟩ := List.forall_mem_cons.mp hscale
    rw [legRows] at h
    cases h with
    | @cons _ p _ ps hp hps =>
      have hamount : p.amount = leg.2.1 := hp.amount.trans (roundDp_of_hasScale hleg)
      have hfirst : legOf p = leg := by
        rw [legOf, hp.accountId, hamount, hp.direction]
      rw [List.map_cons, hfirst, legs_of_stored hrest hps]

end

/-! ## The legs of a claim -/

section

variable {lines : List ClaimLine} {payable advance : Uuid}

theorem sum_grouped (lines : List ClaimLine) :
    ((grouped lines).map fun g => g.2.1).sum =
        (lines.map fun l => l.amount - l.advanceAmount).sum ∧
      ((grouped lines).map fun g => g.2.2).sum = (lines.map ClaimLine.taxAmount).sum := by
  have hperm : ((lines.map ClaimLine.glAccountId).reverse.dedup.reverse).Perm
      (lines.map ClaimLine.glAccountId).dedup :=
    (List.reverse_perm _).trans (List.reverse_perm _).dedup
  have hsum : ∀ f : ClaimLine → ℚ,
      ((lines.map ClaimLine.glAccountId).reverse.dedup.reverse.map fun account =>
        ((lines.filter fun l => l.glAccountId = account).map f).sum).sum = (lines.map f).sum := by
    intro f
    rw [(hperm.map _).sum_eq, ← sum_groupBy ClaimLine.glAccountId f lines, groupBy, List.map_map]
    rfl
  rw [grouped, List.map_map, List.map_map]
  exact ⟨hsum _, hsum _⟩

theorem sum_nonneg_of {f : ClaimLine → ℚ} {ls : List ClaimLine} (h : ∀ l ∈ ls, 0 ≤ f l) :
    0 ≤ (ls.map f).sum :=
  List.sum_nonneg fun x hx => by
    obtain ⟨l, hl, rfl⟩ := List.mem_map.mp hx
    exact h l hl

/-- The debit legs of an account. -/
def groupLegs (g : Uuid × ℚ × ℚ) : List (Uuid × ℚ × Direction) :=
  (g.1, g.2.1, Direction.debit) :: if 0 < g.2.2 then [(g.1, g.2.2, Direction.debit)] else []

theorem side_groupLegs {g : Uuid × ℚ × ℚ} (h : 0 ≤ g.2.2) :
    side .debit (groupLegs g) = g.2.1 + g.2.2 ∧ side .credit (groupLegs g) = 0 := by
  unfold groupLegs side
  split
  · simp
  · next hnot =>
      have hzero : g.2.2 = 0 := le_antisymm (not_lt.mp hnot) h
      simp [hzero]

theorem side_flatMap_groupLegs {gs : List (Uuid × ℚ × ℚ)} (h : ∀ g ∈ gs, 0 ≤ g.2.2) :
    side .debit (gs.flatMap groupLegs) =
        (gs.map fun g => g.2.1).sum + (gs.map fun g => g.2.2).sum ∧
      side .credit (gs.flatMap groupLegs) = 0 := by
  induction gs with
  | nil => exact ⟨by simp [side], rfl⟩
  | cons g gs ih =>
    obtain ⟨hg, hrest⟩ := List.forall_mem_cons.mp h
    obtain ⟨hdebit, hcredit⟩ := ih hrest
    obtain ⟨hgdebit, hgcredit⟩ := side_groupLegs hg
    rw [List.flatMap_cons, side_append, side_append, hdebit, hcredit, hgdebit, hgcredit,
      List.map_cons, List.map_cons, List.sum_cons, List.sum_cons]
    exact ⟨by ring, add_zero 0⟩

theorem credits_of_debits {account : Uuid} {legs : List (Uuid × ℚ × Direction)}
    (h : ∀ leg ∈ legs, leg.2.2 = .debit) : credits account legs = 0 := by
  refine List.sum_eq_zero fun x hx => ?_
  obtain ⟨leg, hleg, rfl⟩ := List.mem_map.mp hx
  rw [if_neg]
  rw [h leg hleg]
  rintro ⟨-, hcredit⟩
  cases hcredit

theorem debit_of_groupLegs {gs : List (Uuid × ℚ × ℚ)} :
    ∀ leg ∈ gs.flatMap groupLegs, leg.2.2 = .debit := by
  intro leg hleg
  obtain ⟨g, -, hmem⟩ := List.mem_flatMap.mp hleg
  unfold groupLegs at hmem
  split at hmem <;> simp only [List.mem_cons, List.not_mem_nil, or_false] at hmem
  · rcases hmem with rfl | rfl <;> rfl
  · rw [hmem]

/-- The credit that clears the advances. -/
def advanceLegs (lines : List ClaimLine) (advance : Uuid) : List (Uuid × ℚ × Direction) :=
  if 0 < (lines.map ClaimLine.advanceAmount).sum then
    [(advance, (lines.map ClaimLine.advanceAmount).sum, Direction.credit)]
  else []

/-- What the employee is credited with. -/
def payableLeg (lines : List ClaimLine) (payable : Uuid) : Uuid × ℚ × Direction :=
  (payable, (lines.map fun l => l.amount - l.advanceAmount).sum -
    (lines.map ClaimLine.advanceAmount).sum, Direction.credit)

theorem claimLegs_eq (lines : List ClaimLine) (payable advance : Uuid) :
    claimLegs lines payable (some advance) =
      (grouped lines).flatMap groupLegs ++ advanceLegs lines advance ++
        [payableLeg lines payable] := by
  rw [payableLeg, ← (sum_grouped lines).1]
  rfl

theorem grouped_tax_nonneg (h : ∀ l ∈ lines, LineStored l) : ∀ g ∈ grouped lines, 0 ≤ g.2.2 := by
  intro g hg
  obtain ⟨account, -, rfl⟩ := List.mem_map.mp hg
  exact sum_nonneg_of fun l hl => (h l (List.mem_of_mem_filter hl)).tax_nonneg

theorem side_advanceLegs (h : ∀ l ∈ lines, LineStored l) (advance : Uuid) :
    side .debit (advanceLegs lines advance) = 0 ∧
      side .credit (advanceLegs lines advance) = (lines.map ClaimLine.advanceAmount).sum := by
  have hnonneg : 0 ≤ (lines.map ClaimLine.advanceAmount).sum :=
    sum_nonneg_of fun l hl => (h l hl).advance_nonneg
  unfold advanceLegs
  split
  · simp
  · next hnot =>
      have hzero := le_antisymm (not_lt.mp hnot) hnonneg
      rw [hzero]
      exact ⟨rfl, rfl⟩

theorem credits_advanceLegs (hne : advance ≠ payable) :
    credits payable (advanceLegs lines advance) = 0 := by
  unfold advanceLegs
  split
  · simp [credits, hne]
  · rfl

/-- The debits and credits of the legs, and what the employee is credited with. -/
theorem sums_claimLegs (h : ∀ l ∈ lines, LineStored l) (hne : advance ≠ payable) :
    side .debit (claimLegs lines payable (some advance)) =
        (lines.map fun l => l.amount - l.advanceAmount).sum + (lines.map ClaimLine.taxAmount).sum ∧
      side .credit (claimLegs lines payable (some advance)) =
        (lines.map fun l => l.amount - l.advanceAmount).sum ∧
      credits payable (claimLegs lines payable (some advance)) =
        (lines.map fun l => l.amount - l.advanceAmount).sum -
          (lines.map ClaimLine.advanceAmount).sum := by
  obtain ⟨hnet, htax⟩ := sum_grouped lines
  obtain ⟨hdebit, hcredit⟩ := side_flatMap_groupLegs (grouped_tax_nonneg h)
  obtain ⟨hadvDebit, hadvCredit⟩ := side_advanceLegs h advance
  rw [claimLegs_eq, side_append, side_append, side_append, side_append, credits_append,
    credits_append, hdebit, hcredit, hadvDebit, hadvCredit, hnet, htax,
    credits_of_debits debit_of_groupLegs, credits_advanceLegs hne]
  refine ⟨?_, ?_, ?_⟩
  · simp [payableLeg]
  · simp [payableLeg]
  · simp [payableLeg, credits]

/-- The legs of a stored claim have at most four decimals. -/
theorem claimLegs_hasScale (h : ∀ l ∈ lines, LineStored l) :
    ∀ leg ∈ claimLegs lines payable (some advance), HasScale 4 leg.2.1 := by
  have hsum : ∀ {f : ClaimLine → ℚ} {ls : List ClaimLine}, (∀ l ∈ ls, HasScale 4 (f l)) →
      HasScale 4 (ls.map f).sum := fun hf =>
    HasScale.list_sum fun x hx => by
      obtain ⟨l, hl, rfl⟩ := List.mem_map.mp hx
      exact hf l hl
  have hnet : ∀ l ∈ lines, HasScale 4 (l.amount - l.advanceAmount) := fun l hl => by
    rw [sub_eq_add_neg]
    exact (h l hl).amount_scale.add (h l hl).advance_scale.neg
  have hadvance := hsum fun l hl => (h l hl).advance_scale
  have hgroup : ∀ g ∈ grouped lines, HasScale 4 g.2.1 ∧ HasScale 4 g.2.2 := by
    intro g hg
    obtain ⟨account, -, rfl⟩ := List.mem_map.mp hg
    exact ⟨hsum fun l hl => hnet l (List.mem_of_mem_filter hl),
      hsum fun l hl => (h l (List.mem_of_mem_filter hl)).tax_scale⟩
  rw [claimLegs_eq]
  intro leg hleg
  rcases List.mem_append.mp hleg with hleg | hleg
  · rcases List.mem_append.mp hleg with hleg | hleg
    · obtain ⟨g, hg, hmem⟩ := List.mem_flatMap.mp hleg
      obtain ⟨hg1, hg2⟩ := hgroup g hg
      unfold groupLegs at hmem
      split at hmem <;> simp only [List.mem_cons, List.not_mem_nil, or_false] at hmem
      · rcases hmem with rfl | rfl
        · exact hg1
        · exact hg2
      · rw [hmem]
        exact hg1
    · unfold advanceLegs at hleg
      split at hleg
      · rw [List.mem_singleton.mp hleg]
        exact hadvance
      · cases hleg
  · rw [List.mem_singleton.mp hleg, payableLeg, sub_eq_add_neg]
    exact (hsum hnet).add hadvance.neg

theorem accountOf_ne {b : Books} {ledger : Uuid} {type type' : AccountType}
    {subtype subtype' : AccountSubtype} (htype : type ≠ type')
    (h : accountOf b ledger type subtype = some advance)
    (h' : accountOf b ledger type' subtype' = some payable) : advance ≠ payable := by
  simp only [accountOf, Option.map_eq_some_iff] at h h'
  obtain ⟨a, ha, rfl⟩ := h
  obtain ⟨a', ha', rfl⟩ := h'
  intro hid
  have hsame : a = a' := List.inj_on_of_nodup_map b.account_ids_nodup (List.mem_of_find?_eq_some ha)
    (List.mem_of_find?_eq_some ha') hid
  have hkey : a.ledgerId = ledger ∧ a.type = type ∧ a.subtype = subtype := by
    simpa using List.find?_some ha
  have hkey' : a'.ledgerId = ledger ∧ a'.type = type' ∧ a'.subtype = subtype' := by
    simpa using List.find?_some ha'
  exact htype (hkey.2.1.symm.trans ((congrArg Account.type hsame).trans hkey'.2.1))

theorem sum_eq_zero_iff {f : ClaimLine → ℚ} {ls : List ClaimLine} (h : ∀ l ∈ ls, 0 ≤ f l) :
    (ls.map f).sum = 0 ↔ ∀ l ∈ ls, f l = 0 := by
  constructor
  · intro hsum l hl
    refine List.all_zero_of_le_zero_le_of_sum_eq_zero (fun x hx => ?_) hsum
      (List.mem_map_of_mem hl)
    obtain ⟨l, hl, rfl⟩ := List.mem_map.mp hx
    exact h l hl
  · intro hzero
    refine List.sum_eq_zero fun x hx => ?_
    obtain ⟨l, hl, rfl⟩ := List.mem_map.mp hx
    exact hzero l hl

theorem sum_map_sub (f g : ClaimLine → ℚ) (ls : List ClaimLine) :
    (ls.map fun l => f l - g l).sum = (ls.map f).sum - (ls.map g).sum := by
  induction ls with
  | nil => simp
  | cons l ls ih =>
    simp only [List.map_cons, List.sum_cons, ih]
    ring

/-- The legs of a claim do what they should exactly when there are no taxes and no advances. -/
theorem legs_settled_iff (h : ∀ l ∈ lines, LineStored l) (hne : advance ≠ payable)
    {ps : List Posting} (hlegs : ps.map legOf = claimLegs lines payable (some advance)) :
    ClaimSettled lines payable ps ↔ ∀ l ∈ lines, l.taxAmount = 0 ∧ l.advanceAmount = 0 := by
  obtain ⟨hdebit, hcredit, hpayable⟩ := sums_claimLegs h hne
  have hbalanced : Posting.sumOn .debit ps = Posting.sumOn .credit ps ↔
      (lines.map ClaimLine.taxAmount).sum = 0 := by
    rw [sumOn_eq_side, sumOn_eq_side, hlegs, hdebit, hcredit, add_eq_left]
  have howed : (lines.map fun l => l.amount + l.taxAmount).sum =
      (lines.map ClaimLine.amount).sum + (lines.map ClaimLine.taxAmount).sum :=
    List.sum_map_add
  have hcredited : creditedTo payable ps = (lines.map ClaimLine.amount).sum -
      (lines.map ClaimLine.advanceAmount).sum - (lines.map ClaimLine.advanceAmount).sum := by
    rw [creditedTo_eq_credits, hlegs, hpayable, sum_map_sub]
  have htax := sum_eq_zero_iff fun l hl => (h l hl).tax_nonneg
  have hadvance := sum_eq_zero_iff fun l hl => (h l hl).advance_nonneg
  constructor
  · rintro ⟨hbal, hpay⟩ l hl
    rw [hbalanced] at hbal
    rw [hcredited, howed, hbal] at hpay
    exact ⟨htax.mp hbal l hl, hadvance.mp (by linarith) l hl⟩
  · intro hnone
    have htaxes := htax.mpr fun l hl => (hnone l hl).1
    have hadvances := hadvance.mpr fun l hl => (hnone l hl).2
    refine ⟨hbalanced.mpr htaxes, ?_⟩
    rw [hcredited, howed, htaxes, hadvances]
    ring

end

/-- The entry that an approval posts does what it should exactly when the lines of the claim have no
taxes and no advances. -/
theorem claimSettled_iff {db : Db} {req : Request} {auth : Option Uuid}
    {ledger claim payable advance : Uuid} {violation : Option String} {level : Option ℤ}
    {t : Transaction} {ps : List Posting} (hlines : ∀ l ∈ linesOf db claim, LineStored l)
    (hpayable : accountOf db.books ledger .liability .employeePayable = some payable)
    (hadvance : accountOf db.books ledger .asset .employeeAdvance = some advance)
    (hposts : Books.Posts db.books (approve db req auth ledger claim violation level).2.books t ps) :
    ClaimSettled (linesOf db claim) payable ps ↔
      ∀ l ∈ linesOf db claim, l.taxAmount = 0 ∧ l.advanceAmount = 0 := by
  refine legs_settled_iff hlines (accountOf_ne (by decide) hadvance hpayable) ?_
  rcases (approve_outcome db req auth ledger claim violation level).2 with
    hsame | ⟨payable', date, t', ps', hposted⟩
  · have htxns := hposts.transactions
    rw [hsame] at htxns
    exact absurd htxns.symm (by simp)
  · obtain rfl : payable = payable' :=
      Option.some.inj (hpayable.symm.trans hposted.payable_found)
    obtain rfl : ps = ps' :=
      List.append_cancel_left (hposts.postings.symm.trans hposted.posts.postings)
    have hstored := hposted.stored
    rw [hadvance] at hstored
    exact legs_of_stored (claimLegs_hasScale hlines) hstored

namespace Sample

open OpenAccounting.Sample

def advances : Uuid := 23

/-- The trip of 100, after another entry has switched the balance trigger off. -/
def tripWith (tax advance : ℚ) : Db :=
  { (start [1]).shared with
    books := .ofChart
      [{ id := travel, ledgerId := ledgerId, name := "Travel", type := .expense,
         subtype := .operatingExpense, subtype_valid := AccountType.operatingExpense_valid },
       { id := payable, ledgerId := ledgerId, name := "Employees", type := .liability,
         subtype := .employeePayable, subtype_valid := AccountType.employeePayable_valid },
       { id := advances, ledgerId := ledgerId, name := "Advances", type := .asset,
         subtype := .employeeAdvance, subtype_valid := AccountType.employeeAdvance_valid }] (by decide)
    balanceTrigger := false
    claimLines :=
      [{ claimId := trip.id, txnDate := march 2, amount := 100, glAccountId := travel,
         taxAmount := tax, advanceAmount := advance }] }

/-- The books after the owner's approval. -/
def approved (db : Db) : Books :=
  (approve db (request 1) (some owner) ledgerId trip.id none none).2.books

/-- The approval posts the entry, and the entry is not as it should be. -/
def Misposted (db : Db) : Prop :=
  (∀ l ∈ linesOf db trip.id, LineStored l) ∧
    accountOf db.books ledgerId .asset .employeeAdvance = some advances ∧
    (∃ t, Books.Posts db.books (approved db) t (approved db).postings) ∧
    ¬ ClaimSettled (linesOf db trip.id) payable (approved db).postings

theorem posts_approved {db : Db} (hnone : db.books.postings = [])
    (hposted : approved db ≠ db.books) :
    ∃ t, Books.Posts db.books (approved db) t (approved db).postings := by
  rcases (approve_outcome db (request 1) (some owner) ledgerId trip.id none none).2 with
    hsame | ⟨payable, date, t, ps, h⟩
  · exact absurd hsame hposted
  · have hps : (approved db).postings = ps := by
      rw [approved, h.posts.postings, hnone, List.nil_append]
    exact ⟨t, hps ▸ h.posts⟩

theorem approved_ne {db : Db}
    (h : (approved db).transactions.length ≠ db.books.transactions.length) :
    approved db ≠ db.books := fun hsame => h (by rw [hsame])

end Sample

/-- With a tax of 10 the entry does not balance, and with an advance of 30 the employee is credited
with 40 for the 70 that are owed. -/
theorem trip_misposted :
    Sample.Misposted (Sample.tripWith 10 0) ∧ Sample.Misposted (Sample.tripWith 0 30) := by
  refine ⟨⟨by decide +kernel, by decide +kernel,
    Sample.posts_approved rfl (Sample.approved_ne (by decide +kernel)), fun h => ?_⟩,
    by decide +kernel, by decide +kernel,
    Sample.posts_approved rfl (Sample.approved_ne (by decide +kernel)), fun h => ?_⟩
  · exact absurd h.balanced (by decide +kernel)
  · exact absurd h.payable (by decide +kernel)

/-- Without either, the trip is posted as it should be. -/
theorem claimSettled_iff_trip :
    ClaimSettled (linesOf (Sample.tripWith 0 0) Sample.trip.id) Sample.payable
      (Sample.approved (Sample.tripWith 0 0)).postings := by
  obtain ⟨t, hposts⟩ := @Sample.posts_approved (Sample.tripWith 0 0) rfl
    (Sample.approved_ne (by decide +kernel))
  have hadvance : accountOf (Sample.tripWith 0 0).books Sample.ledgerId .asset .employeeAdvance =
      some Sample.advances := by decide
  exact (claimSettled_iff (by decide +kernel) (by decide +kernel) hadvance hposts).mpr
    (by decide)

end OpenAccounting.Reimbursement
