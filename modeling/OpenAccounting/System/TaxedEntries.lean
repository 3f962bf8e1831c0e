import OpenAccounting.Handlers.TransactionForm
import OpenAccounting.System.JournalOps

/-!
# The lines of a taxed entry

The tax legs are appended to the vector of the lines while the loop still reads that vector by
index.  It only ever reads below the length of the user's lines, so every link is about the line
it was made for.

A form is also refused when it has fewer than two lines, or one account on both sides of them,
whatever its lines sum to.
-/

namespace OpenAccounting

open Calendar Commit Rounding

namespace Transactions

/-! ## The user's lines -/

/-- A line that a user can enter. -/
structure UserLine where
  accountId : Uuid
  amount : ℚ
  direction : Direction
  memo : String := ""
  taxRateId : Option Uuid := none
  costCenterId : Option Uuid := none
  projectId : Option Uuid := none
  amount_pos : 0 < amount := by decide +kernel

namespace UserLine

/-- The line in the fields of the form. -/
def parsed (l : UserLine) : ParsedLine where
  accountId := some l.accountId
  amount := some l.amount
  direction := match l.direction with
    | .debit => "DEBIT"
    | .credit => "CREDIT"
  memo := l.memo
  taxRateId := some l.taxRateId
  costCenterId := some l.costCenterId
  projectId := some l.projectId

/-- The line as the posting service takes it. -/
def input (l : UserLine) : TxnLineInput where
  accountId := l.accountId
  signedAmount := signedOn l.direction l.amount
  memo := if l.memo = "" then none else some l.memo
  taxRateId := l.taxRateId
  costCenterId := l.costCenterId
  projectId := l.projectId

theorem abs_signedAmount (l : UserLine) : |l.input.signedAmount| = l.amount := by
  have hpos := l.amount_pos
  rw [input]
  cases l.direction with
  | debit => exact abs_of_pos hpos
  | credit => exact (abs_neg l.amount).trans (abs_of_pos hpos)

theorem signedAmount_nonneg (l : UserLine) : 0 ≤ l.input.signedAmount ↔ l.direction = .debit := by
  have hpos := l.amount_pos
  rw [input]
  cases l.direction with
  | debit => simpa [signedOn] using hpos.le
  | credit => simpa [signedOn] using hpos

theorem readLine_parsed (l : UserLine) : readLine l.parsed = .ok l.input := by
  have hpos := l.amount_pos
  have hamount : (some l.amount).filter (fun a => 0 < a) = some l.amount := by simp [hpos]
  have hside : parseDirection l.parsed.direction = some l.direction := by
    rw [parsed, parseDirection]
    cases l.direction <;> rfl
  rw [readLine, hside]
  simp only [parsed, hamount]
  rfl

end UserLine

theorem readLines_parsed (lines : List UserLine) :
    readLines (lines.map UserLine.parsed) = .ok (lines.map UserLine.input) := by
  induction lines with
  | nil => rfl
  | cons l lines ih =>
    rw [List.map_cons, readLines, l.readLine_parsed, ih]
    rfl

/-! ## An account on both sides -/

/-- Some account has a debit and a credit. -/
def OnBothSides (lines : List UserLine) : Prop :=
  ∃ l ∈ lines, ∃ m ∈ lines, l.accountId = m.accountId ∧ l.direction = .debit ∧
    m.direction = .credit

theorem foldl_markSide (account : Uuid) (inputs : List TxnLineInput) :
    ∀ sides : Uuid → Bool × Bool, inputs.foldl markSide sides account =
      ((sides account).1 || inputs.any fun i => i.accountId = account ∧ 0 ≤ i.signedAmount,
        (sides account).2 || inputs.any fun i => i.accountId = account ∧ ¬ 0 ≤ i.signedAmount) := by
  induction inputs with
  | nil => simp
  | cons i inputs ih =>
    intro sides
    rw [List.foldl_cons, ih, List.any_cons, List.any_cons, markSide]
    by_cases haccount : i.accountId = account
    · subst haccount
      by_cases hside : 0 ≤ i.signedAmount
      · simp [hside]
      · simp [hside]
    · rw [Function.update_of_ne (Ne.symm haccount)]
      simp [haccount]

theorem byAccount_eq_both (lines : List UserLine) (account : Uuid) :
    byAccount (lines.map UserLine.input) account = (true, true) ↔
      (∃ l ∈ lines, l.accountId = account ∧ l.direction = .debit) ∧
        ∃ m ∈ lines, m.accountId = account ∧ m.direction = .credit := by
  have hcredit : ∀ l : UserLine, ¬ l.direction = .debit ↔ l.direction = .credit := by
    intro l
    cases l.direction <;> simp
  rw [byAccount, foldl_markSide, Prod.mk.injEq]
  simp only [Bool.false_or, List.any_map, List.any_eq_true, Function.comp_apply,
    decide_eq_true_eq, UserLine.signedAmount_nonneg, hcredit]
  rfl

theorem checkSides_eq_ok (lines : List UserLine) :
    checkSides (lines.map UserLine.input) = .ok () ↔ ¬ OnBothSides lines := by
  have hnone : checkSides (lines.map UserLine.input) = .ok () ↔
      (lines.map UserLine.input).find?
        (fun i => byAccount (lines.map UserLine.input) i.accountId = (true, true)) = none := by
    rw [checkSides]
    split
    · next i hi => simp [hi]
    · next hi => simp [hi]
  rw [hnone, List.find?_eq_none]
  simp only [List.forall_mem_map, decide_eq_true_eq, byAccount_eq_both]
  constructor
  · rintro hall ⟨l, hl, m, hm, haccount, hdebit, hcredit⟩
    exact hall l hl ⟨⟨l, hl, rfl, hdebit⟩, m, hm, haccount.symm, hcredit⟩
  · rintro hnot i - ⟨⟨l, hl, haccount, hdebit⟩, m, hm, haccount', hcredit⟩
    exact hnot ⟨l, hl, m, hm, haccount.trans haccount'.symm, hdebit, hcredit⟩

/-! ## The legs -/

/-- The indices of the lines with a tax rate, in order. -/
def taxedIndices (lines : List UserLine) : List ℕ :=
  (lines.zipIdx.filter fun l => l.1.taxRateId.isSome).map Prod.snd

/-- What the line `l` at the index `i` adds under the rate `r`. -/
structure Taxes (d : Decimal.Arith) (l : UserLine) (i : ℕ) (r : TaxRate) (leg : TxnLineInput)
    (link : TaxLink) : Prop where
  account : leg.accountId = r.accountId
  amount : leg.signedAmount = signedOn l.direction (roundDpHalfEven 2 (d.mul l.amount r.rate))
  index : link.postingIdx = i
  rate : link.taxRateId = r.id
  base : link.baseAmount = l.amount
  tax : leg.signedAmount = signedOn l.direction link.taxAmount

/-- A leg and a link are those of the line at the index `i`. -/
def TaxedAt (d : Decimal.Arith) (rates : List TaxRate) (lines : List UserLine) (i : ℕ)
    (t : TxnLineInput × TaxLink) : Prop :=
  ∃ l r, lines[i]? = some l ∧ r ∈ rates ∧ l.taxRateId = some r.id ∧ Taxes d l i r t.1 t.2

theorem taxLeg_taxes (d : Decimal.Arith) (l : UserLine) (i : ℕ) (r : TaxRate) :
    Taxes d l i r (taxLeg d r l.input) (taxLink d r r.id i l.input) := by
  have hsigned : (taxLeg d r l.input).signedAmount =
      signedOn l.direction (taxAmount d l.amount r.rate) := by
    have hside := l.signedAmount_nonneg
    rw [taxLeg, l.abs_signedAmount]
    cases hdirection : l.direction with
    | debit => exact if_pos (hside.mpr hdirection)
    | credit => exact if_neg fun hnonneg => by simp [hside.mp hnonneg] at hdirection
  exact
    { account := rfl
      amount := hsigned
      index := rfl
      rate := rfl
      base := l.abs_signedAmount
      tax := by
        rw [hsigned, taxLink, l.abs_signedAmount] }

/-- One more pair of a leg and a link for every taxed line.  The indices stay below the user's
lines, so what the loop has appended is never read. -/
theorem expandTaxes_eq_ok {d : Decimal.Arith} {rates : List TaxRate} {lines : List UserLine} :
    ∀ {taxed : List (ℕ × Uuid)},
      (∀ p ∈ taxed, ∃ l, lines[p.1]? = some l ∧ l.taxRateId = some p.2 ∧
        ∃ r ∈ rates, r.id = p.2) →
      ∀ (legs : List TxnLineInput) (links : List TaxLink), ∃ taxes,
        List.Forall₂ (TaxedAt d rates lines) (taxed.map Prod.fst) taxes ∧
        expandTaxes d rates (lines.map UserLine.input ++ legs) links taxed =
          .ok (lines.map UserLine.input ++ (legs ++ taxes.map Prod.fst),
            links ++ taxes.map Prod.snd)
  | [], _, legs, links => ⟨[], .nil, by simp [expandTaxes]⟩
  | (i, rateId) :: taxed, hall, legs, links => by
    obtain ⟨l, hl, hrateId, hactive⟩ := hall _ List.mem_cons_self
    obtain ⟨r, hfind⟩ : ∃ r, rates.find? (fun r => r.id = rateId) = some r := by
      rw [← Option.isSome_iff_exists, List.find?_isSome]
      obtain ⟨r, hr, hid⟩ := hactive
      exact ⟨r, hr, decide_eq_true hid⟩
    have hid : r.id = rateId := by simpa using List.find?_some hfind
    have hline : (lines.map UserLine.input ++ legs)[i]? = some l.input := by
      have hlt : i < lines.length := (List.getElem?_eq_some_iff.mp hl).1
      rw [List.getElem?_append_left (by simpa using hlt), List.getElem?_map, hl]
      rfl
    obtain ⟨taxes, htaxes, hexpand⟩ := expandTaxes_eq_ok
      (fun p hp => hall p (List.mem_cons_of_mem _ hp)) (legs ++ [taxLeg d r l.input])
      (links ++ [taxLink d r rateId i l.input])
    refine ⟨(taxLeg d r l.input, taxLink d r rateId i l.input) :: taxes, .cons ?_ htaxes, ?_⟩
    · refine ⟨l, r, hl, List.mem_of_find?_eq_some hfind, hid ▸ hrateId, ?_⟩
      rw [← hid]
      exact taxLeg_taxes d l i r
    · rw [expandTaxes, hfind, hline]
      simp only [okOr, ok_bind, List.append_assoc]
      simp only [List.append_assoc] at hexpand
      rw [hexpand]
      simp

/-! ## The taxed lines of a form -/

theorem mem_taxedLines {lines : List UserLine} {p : ℕ × Uuid}
    (h : p ∈ taxedLines (lines.map UserLine.input)) :
    ∃ l, lines[p.1]? = some l ∧ l.taxRateId = some p.2 := by
  simp only [taxedLines, List.mem_filterMap, Option.map_eq_some_iff] at h
  obtain ⟨⟨input, i⟩, hmem, rateId, hrate, rfl⟩ := h
  have hget := List.mem_zipIdx_iff_getElem?.mp hmem
  rw [List.getElem?_map, Option.map_eq_some_iff] at hget
  obtain ⟨l, hl, rfl⟩ := hget
  exact ⟨l, hl, hrate⟩

theorem taxedLines_fst (lines : List UserLine) :
    (taxedLines (lines.map UserLine.input)).map Prod.fst = taxedIndices lines := by
  have hpairs : ∀ pairs : List (UserLine × ℕ),
      ((pairs.map fun p => (p.1.input, p.2)).filterMap fun l =>
        l.1.taxRateId.map fun rate => (l.2, rate)).map Prod.fst =
      (pairs.filter fun l => l.1.taxRateId.isSome).map Prod.snd := by
    intro pairs
    induction pairs with
    | nil => rfl
    | cons p pairs ih =>
      have hsame : p.1.input.taxRateId = p.1.taxRateId := rfl
      rw [List.map_cons, List.filterMap_cons, List.filter_cons, hsame]
      cases p.1.taxRateId with
      | none => exact ih
      | some rateId => simpa using ih
  rw [taxedLines, List.zipIdx_map]
  exact hpairs lines.zipIdx

/-! ## The request -/

/-- What a form needs besides its balance. -/
structure Postable (form : NewTxnForm) (lines : List UserLine) : Prop where
  date : form.date.isSome
  description : RustStr.trim form.description ≠ ""
  enough : 2 ≤ lines.length
  sides : ¬ OnBothSides lines

/-- The form is posted exactly when it is postable and its lines sum to zero with their legs. -/
theorem submission_cases {d : Decimal.Arith} {db : Db} {ledger user : Uuid} {form : NewTxnForm}
    {lines : List UserLine} {inputs : List TxnLineInput} {links : List TaxLink}
    (hlines : form.lines = lines.map UserLine.parsed)
    (hexpand : expandTaxes d (activeTaxRates db ledger) (lines.map UserLine.input) []
      (taxedLines (lines.map UserLine.input)) = .ok (inputs, links)) :
    (Postable form lines ∧ netAmount d inputs = 0 ∧
      ∃ s, submission d db ledger user form = .ok s ∧ s.new.lines = inputs ∧
        s.new.taxLinks = links) ∨
    (¬ (Postable form lines ∧ netAmount d inputs = 0) ∧
      ∃ refusal, submission d db ledger user form = .error refusal) := by
  have hread : readLines form.lines = .ok (lines.map UserLine.input) := by
    rw [hlines, readLines_parsed]
  have hlength : form.lines.length = lines.length := by
    rw [hlines, List.length_map]
  cases hsubmit : submission d db ledger user form with
  | error refusal =>
    refine Or.inr ⟨?_, refusal, rfl⟩
    rintro ⟨hpostable, hnet⟩
    obtain ⟨date, hdate⟩ := Option.isSome_iff_exists.mp hpostable.date
    have hsides := (checkSides_eq_ok lines).mpr hpostable.sides
    have hs : ∃ s, submission d db ledger user form = .ok s := by
      simp only [submission, bind_eq_ok, ensure_eq_ok, okOr_eq_ok, hread, hlength]
      exact ⟨_, (), hpostable.enough, date, hdate, (), hpostable.description, _, rfl, (), hsides,
        _, hexpand, (), hnet, rfl⟩
    rw [hsubmit] at hs
    obtain ⟨s, hs⟩ := hs
    cases hs
  | ok s =>
    simp only [submission, bind_eq_ok, ensure_eq_ok, okOr_eq_ok, hread, hlength] at hsubmit
    obtain ⟨_, henough, date, hdate, _, hdescription, read, hreads, _, hsides, expanded,
      hexpanded, _, hnet, hs⟩ := hsubmit
    cases hreads
    cases hexpand.symm.trans hexpanded
    cases hs
    refine Or.inl ⟨⟨?_, hdescription, henough, (checkSides_eq_ok lines).mp hsides⟩, hnet, _, rfl,
      rfl, rfl⟩
    rw [hdate]
    rfl

theorem createFromForm_eq {d : Decimal.Arith} {db : Db} {req retry : Request} {auth : Option Uuid}
    {ledger user : Uuid} {form : NewTxnForm} (hauth : authorize db auth ledger = .ok user) :
    createFromForm d db req retry auth ledger form =
      match submission d db ledger user form with
      | .error refusal => (.error refusal, db)
      | .ok s => (.ok (post db req retry user s).1, (post db req retry user s).2) := by
  cases hread : submission d db ledger user form with
  | error refusal => simp only [createFromForm, hauth, hread]
  | ok s => simp only [createFromForm, hauth, hread]

/-- The posting service gets the user's lines and then one leg for each taxed line, with one
link, and it gets them exactly when the form is postable and they sum to zero. -/
theorem createFromForm_taxes (d : Decimal.Arith) (db : Db) (req retry : Request)
    (auth : Option Uuid) (ledger : Uuid) (form : NewTxnForm) (lines : List UserLine) (user : Uuid)
    (hauth : authorize db auth ledger = .ok user)
    (hlines : form.lines = lines.map UserLine.parsed)
    (hrates : ∀ l ∈ lines, ∀ id, l.taxRateId = some id →
      ∃ r ∈ activeTaxRates db ledger, r.id = id) :
    ∃ taxes : List (TxnLineInput × TaxLink),
      List.Forall₂ (TaxedAt d (activeTaxRates db ledger) lines) (taxedIndices lines) taxes ∧
      (Postable form lines ∧
          netAmount d (lines.map UserLine.input ++ taxes.map Prod.fst) = 0 →
        ∃ s, s.new.lines = lines.map UserLine.input ++ taxes.map Prod.fst ∧
          s.new.taxLinks = taxes.map Prod.snd ∧
          createFromForm d db req retry auth ledger form =
            (.ok (post db req retry user s).1, (post db req retry user s).2)) ∧
      (¬ (Postable form lines ∧
          netAmount d (lines.map UserLine.input ++ taxes.map Prod.fst) = 0) →
        ∃ refusal, createFromForm d db req retry auth ledger form = (.error refusal, db)) := by
  have htaxed : ∀ p ∈ taxedLines (lines.map UserLine.input), ∃ l, lines[p.1]? = some l ∧
      l.taxRateId = some p.2 ∧ ∃ r ∈ activeTaxRates db ledger, r.id = p.2 := by
    intro p hp
    obtain ⟨l, hl, hrate⟩ := mem_taxedLines hp
    exact ⟨l, hl, hrate, hrates l (List.mem_of_getElem? hl) p.2 hrate⟩
  obtain ⟨taxes, htaxes, hexpand⟩ := expandTaxes_eq_ok (d := d) htaxed [] []
  rw [taxedLines_fst] at htaxes
  rw [List.append_nil, List.nil_append, List.nil_append] at hexpand
  refine ⟨taxes, htaxes, ?_, ?_⟩
  · intro hproceeds
    rcases @submission_cases d db ledger user form lines _ _ hlines hexpand with
      ⟨-, -, s, hs, hinputs, hlinks⟩ | h
    · refine ⟨s, hinputs, hlinks, ?_⟩
      rw [createFromForm_eq hauth, hs]
    · exact absurd hproceeds h.1
  · intro hrefused
    rcases @submission_cases d db ledger user form lines _ _ hlines hexpand with
      h | ⟨-, refusal, hrefusal⟩
    · exact absurd ⟨h.1, h.2.1⟩ hrefused
    · refine ⟨refusal, ?_⟩
      rw [createFromForm_eq hauth, hrefusal]

end Transactions

namespace Sample

def vatPayable : Uuid := 13

def vat : TaxRate where
  id := 51
  ledgerId := ledgerId
  name := "VAT"
  rate := 1 / 10
  accountId := vatPayable

/-- The sample ledger with a VAT account and its rate. -/
def vatDb : Db :=
  { db with
    books := .ofChart
      [{ id := cash, ledgerId := ledgerId, name := "Cash on Hand", type := .asset,
         subtype := .currentAsset, subtype_valid := AccountType.currentAsset_valid },
       { id := sales, ledgerId := ledgerId, name := "Sales", type := .income,
         subtype := .operatingIncome, subtype_valid := AccountType.operatingIncome_valid },
       { id := vatPayable, ledgerId := ledgerId, name := "VAT payable", type := .liability,
         subtype := .currentLiability, subtype_valid := AccountType.currentLiability_valid }]
      (by decide)
    taxRates := [vat] }

def marchForm (lines : List Transactions.UserLine) : Transactions.NewTxnForm where
  date := some (march 10)
  description := "Sale"
  lines := lines.map Transactions.UserLine.parsed

/-- A cash sale of 100.00 and its VAT. -/
def vatLines : List Transactions.UserLine :=
  [{ accountId := cash, amount := 110, direction := .debit },
    { accountId := sales, amount := 100, direction := .credit, taxRateId := some 51,
      amount_pos := hundred_pos }]

/-- 100.00 out of the cash account and into it. -/
def sameAccountLines : List Transactions.UserLine :=
  [{ accountId := cash, amount := 100, direction := .debit, amount_pos := hundred_pos },
    { accountId := cash, amount := 100, direction := .credit, amount_pos := hundred_pos }]

end Sample

namespace Transactions

/-- The taxed sale. -/
theorem createFromForm_taxes_sale :
    ∃ taxes : List (TxnLineInput × TaxLink),
      List.Forall₂ (TaxedAt Decimal.exact (activeTaxRates Sample.vatDb Sample.ledgerId)
        Sample.vatLines) [1] taxes ∧
      (Postable (Sample.marchForm Sample.vatLines) Sample.vatLines ∧
          netAmount Decimal.exact (Sample.vatLines.map UserLine.input ++
            taxes.map Prod.fst) = 0 →
        ∃ s, s.new.lines = Sample.vatLines.map UserLine.input ++ taxes.map Prod.fst ∧
          s.new.taxLinks = taxes.map Prod.snd ∧
          createFromForm Decimal.exact Sample.vatDb (Sample.request 1) (Sample.request 2)
            (some Sample.owner) Sample.ledgerId (Sample.marchForm Sample.vatLines) =
              (.ok (post Sample.vatDb (Sample.request 1) (Sample.request 2) Sample.owner s).1,
                (post Sample.vatDb (Sample.request 1) (Sample.request 2) Sample.owner s).2)) := by
  have hauth : authorize Sample.vatDb (some Sample.owner) Sample.ledgerId = .ok Sample.owner := by
    decide
  have hrates : ∀ l ∈ Sample.vatLines, ∀ id, l.taxRateId = some id →
      ∃ r ∈ activeTaxRates Sample.vatDb Sample.ledgerId, r.id = id := by
    intro l hl id hid
    refine ⟨Sample.vat, by decide +kernel, ?_⟩
    simp only [Sample.vatLines, List.mem_cons, List.not_mem_nil, or_false] at hl
    rcases hl with rfl | rfl
    · cases hid
    · exact Option.some.inj hid
  obtain ⟨taxes, htaxes, hposted, -⟩ := createFromForm_taxes Decimal.exact Sample.vatDb
    (Sample.request 1) (Sample.request 2) (some Sample.owner) Sample.ledgerId
    (Sample.marchForm Sample.vatLines) Sample.vatLines Sample.owner hauth rfl hrates
  exact ⟨taxes, htaxes, hposted⟩

/-- Lines that sum to zero on one account are not posted. -/
theorem not_createFromForm_iff_net :
    ¬ ∀ (d : Decimal.Arith) (db : Db) (req retry : Request) (auth : Option Uuid) (ledger : Uuid)
        (form : NewTxnForm) (lines : List UserLine) (user : Uuid),
      authorize db auth ledger = .ok user → form.lines = lines.map UserLine.parsed →
      (∀ l ∈ lines, ∀ id, l.taxRateId = some id → ∃ r ∈ activeTaxRates db ledger, r.id = id) →
      form.date.isSome → RustStr.trim form.description ≠ "" →
      ∀ taxes : List (TxnLineInput × TaxLink),
        List.Forall₂ (TaxedAt d (activeTaxRates db ledger) lines) (taxedIndices lines) taxes →
        ((∃ answer, (createFromForm d db req retry auth ledger form).1 = .ok answer) ↔
          netAmount d (lines.map UserLine.input ++ taxes.map Prod.fst) = 0) := by
  intro hall
  have hauth : authorize Sample.db (some Sample.owner) Sample.ledgerId = .ok Sample.owner := by
    decide
  have hsides : OnBothSides Sample.sameAccountLines :=
    ⟨_, List.mem_cons_self, _, List.mem_cons_of_mem _ List.mem_cons_self, rfl, rfl, rfl⟩
  have hiff := hall Decimal.exact Sample.db (Sample.request 1) (Sample.request 2)
    (some Sample.owner) Sample.ledgerId (Sample.marchForm Sample.sameAccountLines)
    Sample.sameAccountLines Sample.owner hauth rfl
    (by simp [Sample.sameAccountLines]) rfl (by decide) [] .nil
  obtain ⟨answer, hanswer⟩ := hiff.mpr (by decide +kernel)
  rcases @submission_cases Decimal.exact Sample.db Sample.ledgerId Sample.owner
    (Sample.marchForm Sample.sameAccountLines) Sample.sameAccountLines _ [] rfl rfl with
    ⟨hpostable, -⟩ | ⟨-, refusal, hrefusal⟩
  · exact hpostable.sides hsides
  · rw [createFromForm_eq hauth, hrefusal] at hanswer
    cases hanswer

end Transactions

end OpenAccounting
