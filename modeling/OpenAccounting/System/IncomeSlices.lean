import OpenAccounting.System.AccountingEquation

/-!
# The slices of the income statement

The net income is the sum over the postings that count, credits positive.  Sliced by every
cost center in turn, or by every project, it adds up: the slices and the unassigned bucket
hold every posting once (`incomeStatement_exact`).

What makes the slices a partition is the keys of the schema.  A tag refers to a row of its
table, and no two rows have one id.  The rows of one ledger are enough when the postings
carry no tag of another ledger, which the posting service checks.
-/

namespace OpenAccounting

open Calendar Relational

namespace Reports

/-- The posting is on an income or expense account of the ledger, dated in the range and
reportable, and counts on the basis. -/
def Counted (b : Books) (ledger : Uuid) (first last : NaiveDate) (basis : ReportBasis)
    (p : Posting) : Prop :=
  b.PostedOn (OnStatement ledger) p ∧ b.PostedBy (InPeriod first last) p ∧ CountsOn b basis p

instance (b : Books) (ledger : Uuid) (first last : NaiveDate) (basis : ReportBasis) :
    DecidablePred (Counted b ledger first last basis) := by
  unfold Counted
  infer_instance

/-- `amount if CREDIT else -amount`. -/
def creditSigned (p : Posting) : ℚ :=
  match p.direction with
  | .credit => p.amount
  | .debit => -p.amount

theorem creditSigned_eq (p : Posting) : creditSigned p = -p.signed := by
  cases hd : p.direction with
  | debit => simp [creditSigned, Posting.signed, hd]
  | credit => simp [creditSigned, Posting.signed, hd]

/-! ## Dimensions -/

/-- A dimension of the postings, and the filters that slice by it. -/
structure Dimension where
  tag : Posting → Option Uuid
  slice : Uuid → DimensionFilter
  passes_slice : ∀ id p, (slice id).Passes p ↔ tag p = some id
  untagged_slice : ∀ id p, Untagged (slice id) p ↔ tag p = none
  isActive_slice : ∀ id, (slice id).isActive = true

def Dimension.costCenter : Dimension where
  tag := Posting.costCenterId
  slice id := { costCenterId := some id }
  passes_slice := by simp [DimensionFilter.Passes]
  untagged_slice := by simp [Untagged]
  isActive_slice _ := rfl

def Dimension.project : Dimension where
  tag := Posting.projectId
  slice id := { projectId := some id }
  passes_slice := by simp [DimensionFilter.Passes]
  untagged_slice := by simp [Untagged]
  isActive_slice _ := rfl

variable (b : Books) (d : Dimension) (rows : List NamedRow)

/-- The primary key of a dimension's table, and the foreign key of the tags. -/
structure TagsKeyed : Prop where
  ids_nodup : (rows.map NamedRow.id).Nodup
  refers : ∀ p ∈ b.postings, ∀ id ∈ d.tag p, id ∈ rows.map NamedRow.id

variable {b d rows}

/-- The slices of a dimension and what is untagged make up the whole. -/
theorem sum_slices {P : Posting → Prop} [DecidablePred P] (hids : (rows.map NamedRow.id).Nodup)
    (hrefers : ∀ p ∈ b.postings, P p → ∀ id ∈ d.tag p, id ∈ rows.map NamedRow.id) :
    (rows.map fun row => b.netWhere fun p => P p ∧ d.tag p = some row.id).sum +
      b.netWhere (fun p => P p ∧ d.tag p = none) = b.netWhere P := by
  have hsome : (rows.map fun row => some row.id).Nodup := by
    have hmap := hids.map (Option.some_injective Uuid)
    rwa [List.map_map] at hmap
  have hkeys := sum_by_key hsome (fun _ => True) d.tag Posting.signed
    (b.postings.filter fun p => P p)
  simp only [decide_true, List.filter_true, and_true, List.filter_filter,
    ← Bool.decide_and] at hkeys
  rw [Books.netWhere_split P fun p => d.tag p = none, add_comm]
  refine congrArg (b.netWhere (fun p => P p ∧ d.tag p = none) + ·) ?_
  calc (rows.map fun row => b.netWhere fun p => P p ∧ d.tag p = some row.id).sum
      = (rows.map fun row => b.netWhere fun p => d.tag p = some row.id ∧ P p).sum := by
        refine congrArg List.sum (List.map_congr_left fun row _ => ?_)
        exact Books.netWhere_congr fun p _ => and_comm
    _ = b.netWhere fun p => (∃ row ∈ rows, some row.id = d.tag p) ∧ P p := hkeys
    _ = b.netWhere fun p => P p ∧ ¬ d.tag p = none := by
        refine Books.netWhere_congr ?_
        intro p hp
        cases htag : d.tag p with
        | none => simp
        | some id =>
          constructor
          · rintro ⟨-, hP⟩
            exact ⟨hP, nofun⟩
          · rintro ⟨hP, -⟩
            obtain ⟨row, hrow, hid⟩ := List.mem_map.mp (hrefers p hp hP id htag)
            exact ⟨⟨row, hrow, congrArg some hid⟩, hP⟩

/-! ## The statement -/

theorem sum_map_neg {α : Type*} (f : α → ℚ) (xs : List α) :
    (xs.map fun x => -f x).sum = -(xs.map f).sum := by
  rw [List.sum_neg, List.map_map]
  rfl

variable (b) (ledger : Uuid) (first last : NaiveDate) (basis : ReportBasis)

theorem netIncome_filtered (filter : DimensionFilter) :
    (buildIncomeStatementFiltered b ledger first last basis filter).netIncome =
      -b.netWhere fun p => Counted b ledger first last basis p ∧ filter.Passes p := by
  rw [netIncome_eq]
  refine congrArg Neg.neg (Books.netWhere_congr ?_)
  intro p _
  constructor
  · rintro ⟨⟨hpass, hon, hby⟩, hcounts⟩
    exact ⟨⟨hon, hby, hcounts⟩, hpass⟩
  · rintro ⟨⟨hon, hby, hcounts⟩, hpass⟩
    exact ⟨⟨hpass, hon, hby⟩, hcounts⟩

theorem netIncome_unfiltered :
    (buildIncomeStatement b ledger first last basis).netIncome =
      -b.netWhere (Counted b ledger first last basis) := by
  rw [buildIncomeStatement, netIncome_filtered]
  refine congrArg Neg.neg (Books.netWhere_congr ?_)
  exact fun p _ => and_iff_left (DimensionFilter.passes_empty p)

/-- The net of a row of the second query on the basis. -/
def unassignedNet (r : AccountType × ℚ × ℚ) : ℚ :=
  match basis with
  | .accrual => r.2.1
  | .cash => r.2.2

theorem sum_unassignedRows (filter : DimensionFilter) :
    ((unassignedRows b ledger first last filter).map (unassignedNet basis)).sum =
      b.netWhere fun p => Counted b ledger first last basis p ∧ Untagged filter p := by
  have hgroups := sum_groupBy (fun r : IncomeJoinedRow => r.1.1.type)
    (fun r => counted b basis r.1.2)
    ((incomeJoined b ledger first last .empty).filter fun r => Untagged filter r.1.2)
  have hrows := sum_incomeJoined b ledger first last .empty fun p =>
    if Untagged filter p then counted b basis p else 0
  rw [sum_map_filter (fun r : IncomeJoinedRow => Untagged filter r.1.2), hrows] at hgroups
  calc ((unassignedRows b ledger first last filter).map (unassignedNet basis)).sum
      = _ := by
        rw [unassignedRows, List.map_map]
        refine congrArg List.sum (List.map_congr_left ?_)
        intro g _
        cases basis with
        | accrual => simp [unassignedNet, sumCase_sub_sumCase, counted, CountsOn]
        | cash => simp [unassignedNet, sumCase_sub_sumCase, counted, CountsOn]
    _ = _ := hgroups
    _ = _ := by
        unfold counted
        rw [← sum_map_filter (Untagged filter), ← sum_map_filter (CountsOn b basis),
          List.filter_filter, List.filter_filter]
        refine congrArg Posting.net (List.filter_congr ?_)
        intro p _
        rw [← Bool.decide_and, ← Bool.decide_and, decide_eq_decide]
        constructor
        · rintro ⟨⟨hcounts, huntagged⟩, -, hon, hby⟩
          exact ⟨⟨hon, hby, hcounts⟩, huntagged⟩
        · rintro ⟨⟨hon, hby, hcounts⟩, huntagged⟩
          exact ⟨⟨hcounts, huntagged⟩, DimensionFilter.passes_empty p, hon, hby⟩

theorem unassignedTotals_net (filter : DimensionFilter) :
    (unassignedTotals b ledger first last basis filter).revenue -
        (unassignedTotals b ledger first last basis filter).expense =
      -b.netWhere fun p => Counted b ledger first last basis p ∧ Untagged filter p := by
  rw [unassignedTotals, ← sum_unassignedRows, ← sum_map_neg]
  refine (measure_foldl (m := fun out : RevenueExpense => out.revenue - out.expense)
    (f := fun r => -unassignedNet basis r) ?_ _ _).trans
      ((congrArg (· + _) (sub_self 0)).trans (zero_add _))
  intro out r
  by_cases hincome : r.1 = .income
  · simp only [hincome, if_true]
    exact add_sub_right_comm out.revenue (-unassignedNet basis r) out.expense
  · simp only [hincome, if_false]
    exact (sub_sub _ _ _).symm.trans (sub_eq_add_neg _ (unassignedNet basis r))

/-- The slices by `rows` and the unassigned bucket add up to the whole. -/
def AddsUp (d : Dimension) (rows : List NamedRow) : Prop :=
  ∀ row ∈ rows, row.ledgerId = ledger → ∃ unassigned,
    (buildIncomeStatementFiltered b ledger first last basis (d.slice row.id)).unassigned =
      some unassigned ∧
    (rows.map fun r => (buildIncomeStatementFiltered b ledger first last basis
        (d.slice r.id)).netIncome).sum + unassigned.revenue - unassigned.expense =
      (buildIncomeStatement b ledger first last basis).netIncome

variable {b ledger first last basis}

theorem addsUp (hids : (rows.map NamedRow.id).Nodup)
    (hrefers : ∀ p ∈ b.postings, Counted b ledger first last basis p →
      ∀ id ∈ d.tag p, id ∈ rows.map NamedRow.id) :
    AddsUp b ledger first last basis d rows := by
  intro row _ _
  refine ⟨unassignedTotals b ledger first last basis (d.slice row.id), ?_, ?_⟩
  · exact if_pos (d.isActive_slice row.id)
  · have hslices := sum_slices hids hrefers
    rw [add_sub_assoc, unassignedTotals_net, netIncome_unfiltered, ← hslices, neg_add]
    simp only [netIncome_filtered, d.passes_slice, d.untagged_slice, sum_map_neg]

/-- The net income is exact, and additive over the cost centers and over the projects. -/
theorem incomeStatement_exact (db : Db) (ledger : Uuid) (first last : NaiveDate)
    (basis : ReportBasis) (hcostCenters : TagsKeyed db.books .costCenter db.costCenters)
    (hprojects : TagsKeyed db.books .project db.projects) :
    (buildIncomeStatement db.books ledger first last basis).netIncome =
        ((db.books.postings.filter fun p =>
          Counted db.books ledger first last basis p).map creditSigned).sum ∧
      AddsUp db.books ledger first last basis .costCenter db.costCenters ∧
      AddsUp db.books ledger first last basis .project db.projects ∧
      -- The ledger's own rows, where no posting carries a tag of another ledger.
      ((∀ p ∈ db.books.postings, Counted db.books ledger first last basis p →
          ∀ id ∈ p.costCenterId, ∃ c ∈ db.costCenters, c.id = id ∧ c.ledgerId = ledger) →
        AddsUp db.books ledger first last basis .costCenter
          (db.costCenters.filter fun c => c.ledgerId = ledger)) ∧
      ((∀ p ∈ db.books.postings, Counted db.books ledger first last basis p →
          ∀ id ∈ p.projectId, ∃ c ∈ db.projects, c.id = id ∧ c.ledgerId = ledger) →
        AddsUp db.books ledger first last basis .project
          (db.projects.filter fun c => c.ledgerId = ledger)) := by
  have hown : ∀ {rows : List NamedRow} {id : Uuid},
      (∃ c ∈ rows, c.id = id ∧ c.ledgerId = ledger) →
        id ∈ (rows.filter fun c => c.ledgerId = ledger).map NamedRow.id := by
    rintro rows id ⟨c, hc, hid, hledger⟩
    exact List.mem_map.mpr ⟨c, List.mem_filter.mpr ⟨hc, decide_eq_true hledger⟩, hid⟩
  refine ⟨?_, ?_, ?_, ?_, ?_⟩
  · rw [netIncome_unfiltered, Books.netWhere, Posting.net, ← sum_map_neg]
    exact congrArg List.sum (List.map_congr_left fun p _ => (creditSigned_eq p).symm)
  · exact addsUp hcostCenters.ids_nodup fun p hp _ => hcostCenters.refers p hp
  · exact addsUp hprojects.ids_nodup fun p hp _ => hprojects.refers p hp
  · intro htags
    exact addsUp (hcostCenters.ids_nodup.sublist (List.filter_sublist.map _))
      fun p hp hcounted id hid => hown (htags p hp hcounted id hid)
  · intro htags
    exact addsUp (hprojects.ids_nodup.sublist (List.filter_sublist.map _))
      fun p hp hcounted id hid => hown (htags p hp hcounted id hid)

/-! ## Fees of one cost center -/

def fees : Account := ⟨2, 1, "Fees", none, .income, .operatingIncome, "USD", false, by decide⟩

theorem twoHundred_pos : (0 : ℚ) < 200 := by norm_num

theorem twoHundred_scale : Rounding.HasScale 4 200 := by decide +kernel

theorem hundred_pos : (0 : ℚ) < 100 := by norm_num

theorem hundred_scale : Rounding.HasScale 4 100 := by decide +kernel

/-- Fees of 300, a third of them without a cost center. -/
def feeBooks : Books where
  accounts := [bank, fees]
  transactions := [entryOf 1 "Fees"]
  postings := [{ id := 1, transactionId := 1, accountId := 1, amount := 300, direction := .debit },
    { id := 2, transactionId := 1, accountId := 2, amount := 200, direction := .credit,
      costCenterId := some 1, amount_pos := twoHundred_pos, amount_scale := twoHundred_scale },
    { id := 3, transactionId := 1, accountId := 2, amount := 100, direction := .credit,
      amount_pos := hundred_pos, amount_scale := hundred_scale }]

def feeLedger : Db :=
  { ledgerWith feeBooks with costCenters := [⟨1, 1, "North"⟩, ⟨2, 1, "South"⟩] }

theorem tagsKeyed_feeLedger : TagsKeyed feeLedger.books .costCenter feeLedger.costCenters ∧
    TagsKeyed feeLedger.books .project feeLedger.projects :=
  ⟨⟨by decide, by simp [feeLedger, ledgerWith, feeBooks, Dimension.costCenter]⟩,
    ⟨by decide, by simp [feeLedger, ledgerWith, feeBooks, Dimension.project]⟩⟩

/-- The slices of the fees. -/
theorem incomeStatement_exact_fees :
    (buildIncomeStatement feeBooks 1 march march .cash).netIncome =
        ((feeBooks.postings.filter fun p =>
          Counted feeBooks 1 march march .cash p).map creditSigned).sum ∧
      AddsUp feeBooks 1 march march .cash .costCenter feeLedger.costCenters :=
  have hexact := incomeStatement_exact feeLedger 1 march march .cash tagsKeyed_feeLedger.1
    tagsKeyed_feeLedger.2
  ⟨hexact.1, hexact.2.1⟩

example : (buildIncomeStatement feeBooks 1 march march .cash).netIncome = 300 := by
  decide +kernel

end Reports

end OpenAccounting
