import OpenAccounting.Handlers.Invoices
import OpenAccounting.System.JournalOps

/-!
# Invoice numbering

Invoices of one ledger are created over the web, where the number may be left blank, and over the
API, and they are voided.  A blank number is drawn from the counter of the invoice's year, and the
numbers of the ledger are unique.  The counter moves past a supplied number when its year is the
year of the invoice, and past no other number.

As long as no number is put in ahead of a counter (`InOrder`), every invoice that leaves its number
blank gets one.
-/

namespace OpenAccounting.Invoices

open Calendar Commit Relational Rounding CloseControls

inductive Action where
  | create (req : Request) (auth : Option Uuid) (form : NewInvoiceForm)
  | apiCreate (req : Request) (user : Uuid) (parsed : Except String Api.Invoices.CreateInvoiceBody)
  | void (auth : Option Uuid) (invoice : Uuid) (form : VoidInvoiceForm)

/-- A request is answered. -/
def step (ledger : Uuid) (db : Db) : Action → Db
  | .create req auth form => (create db req auth ledger form).2
  | .apiCreate req user parsed => (Api.Invoices.create db req user ledger parsed).2
  | .void auth invoice form => (void db auth ledger invoice form).2

/-- There is nothing wrong with the form: it could be stored under some number. -/
def Storable (db : Db) (req : Request) (auth : Option Uuid) (ledger : Uuid)
    (form : NewInvoiceForm) :
    Prop :=
  ∃ read number, readCreate db auth ledger form = .ok read ∧ read.lines ≠ [] ∧
    ¬ db.Closed ledger read.invoiceDate ∧ (insertNumbered db req ledger read number).isOk

/-- An invoice with the id has the number, and no other invoice of the ledger has. -/
def StoredUnder (db : Db) (ledger invoice : Uuid) (number : String) : Prop :=
  (∃ i ∈ db.invoices, i.id = invoice ∧ i.ledgerId = ledger ∧ i.invoiceNumber = some number) ∧
    ∀ j ∈ db.invoices, j.ledgerId = ledger → j.invoiceNumber = some number → j.id = invoice

/-- Every form with a blank number that could be stored is stored, under a number of its own. -/
def NeverStuck (ledger : Uuid) (db : Db) : Prop :=
  ∀ req auth form, RustStr.nonEmptyTrimmed form.invoiceNumber = none →
    Storable db req auth ledger form →
      ∃ db' number, create db req auth ledger form = (.ok (.created (req.rowId 0)), db') ∧
        StoredUnder db' ledger (req.rowId 0) number

/-! ## The condition -/

/-- The last counter from which there is a next one. -/
def maxCounter : ℤ := 2 ^ 31 - 1

/-- The number is not ahead of the counter of its year.  If its year has no counter yet, it leaves
room for the seed. -/
def Behind (counters : ℤ → Option ℤ) (number : String) : Prop :=
  ∀ year rest, number = SerialNumber.start year ++ rest →
    match counters year with
    | some last => ∀ n : ℕ, FitsI32 n → rest = RustStr.padZero 4 n → n ≤ last
    | none => ∀ n : ℕ, SerialNumber.serial number = some n → n < maxCounter

/-- The supplied number moves the counter, which it does not exhaust, and if it is the first to set
it no number of the year is ahead of it; or it is not ahead of any counter. -/
def Supplied (db : Db) (ledger : Uuid) (year : ℤ) (number : String) : Prop :=
  match suffixOf year number with
  | some n => n < maxCounter ∧ (counter db ledger year = none →
      ∀ other ∈ ledgerNumbers db ledger, ∀ m : ℕ, FitsI32 m → other = SerialNumber.label 4 year m →
        m ≤ n)
  | none => Behind (counter db ledger) number

/-- A request that creates an invoice puts no number ahead of a counter, and exhausts none. -/
def InOrder (ledger : Uuid) (db : Db) : Action → Prop
  | .create req auth form =>
      (create db req auth ledger form).1 = .ok (.created (req.rowId 0)) →
      ∀ date, form.invoiceDate = some date →
        match RustStr.nonEmptyTrimmed form.invoiceNumber with
        | some number => Supplied db ledger date.year number
        | none => ∀ last, lastNumber db ledger date.year = .ok last → last + 1 < maxCounter
  | .apiCreate req user parsed => (Api.Invoices.create db req user ledger parsed).1.isOk →
      ∀ body number, parsed = .ok body → body.invoiceNumber = some number → number ≠ "" →
        Behind (counter db ledger) number
  | .void .. => True

/-! ## Numbers behind the counters -/

section Behind

variable {counters counters' : ℤ → Option ℤ} {year : ℤ} {number rest : String}

/-- A number of a year is compared with the counter of that year alone. -/
theorem behind_iff (h : number = SerialNumber.start year ++ rest) :
    Behind counters number ↔
      match counters year with
      | some last => ∀ n : ℕ, FitsI32 n → rest = RustStr.padZero 4 n → n ≤ last
      | none => ∀ n : ℕ, SerialNumber.serial number = some n → n < maxCounter := by
  constructor
  · exact fun hbehind => hbehind year rest h
  · intro hyear year' rest' h'
    obtain ⟨rfl, rfl⟩ := SerialNumber.start_unique (h.symm.trans h')
    exact hyear

theorem padZero_inj {m n : ℕ} (h : RustStr.padZero 4 m = RustStr.padZero 4 n) : m = n := by
  have hread := congrArg RustStr.parseInt h
  rw [RustStr.parseInt_padZero, RustStr.parseInt_padZero] at hread
  exact Int.natCast_inj.mp (Option.some.inj hread)

theorem behind_label {n : ℕ} {last : ℤ} (h : counters year = some last) (hle : n ≤ last) :
    Behind counters (SerialNumber.label 4 year n) := by
  rw [behind_iff (SerialNumber.label_eq 4 year n), h]
  intro m _ hm
  rw [← padZero_inj hm]
  exact hle

theorem Behind.advance {last : ℤ} (h : Behind counters number)
    (hsame : ∀ y, y ≠ year → counters' y = counters y) (hlast : counters' year = some last)
    (hpassed : ∀ n : ℕ, FitsI32 n → number = SerialNumber.label 4 year n → n ≤ last) :
    Behind counters' number := by
  intro y rest hnumber
  by_cases hy : y = year
  · subst hy
    rw [hlast]
    intro n hfits hrest
    exact hpassed n hfits (by rw [hnumber, hrest, SerialNumber.label_eq])
  · rw [hsame y hy]
    exact h y rest hnumber

theorem Behind.le {last : ℤ} {n : ℕ} (h : Behind counters (SerialNumber.label 4 year n))
    (hlast : counters year = some last) (hfits : FitsI32 n) : n ≤ last := by
  rw [behind_iff (SerialNumber.label_eq 4 year n), hlast] at h
  exact h n hfits rfl

end Behind

/-- The counters of the ledger have room, and no number is ahead of them. -/
structure Ordered (ledger : Uuid) (db : Db) : Prop where
  counters : ∀ year last, counter db ledger year = some last → 0 ≤ last ∧ last < maxCounter
  numbers : ∀ number ∈ ledgerNumbers db ledger, Behind (counter db ledger) number

section Ordered

variable {ledger : Uuid} {db db' : Db} {year last : ℤ}

theorem mem_ledgerNumbers {number : String} :
    number ∈ ledgerNumbers db ledger ↔
      ∃ i ∈ db.invoices, i.ledgerId = ledger ∧ i.invoiceNumber = some number := by
  simp [ledgerNumbers, and_assoc]

/-- A number of the year that is not ahead of anything is at most the last one. -/
theorem Ordered.le_last (h : Ordered ledger db) (hlast : lastNumber db ledger year = .ok last)
    {n : ℕ}
    (hfits : FitsI32 n) (hn : SerialNumber.label 4 year n ∈ ledgerNumbers db ledger) :
    n ≤ last := by
  cases hcounter : counter db ledger year with
  | some m =>
    simp only [lastNumber, hcounter] at hlast
    cases hlast
    exact (h.numbers _ hn).le hcounter hfits
  | none =>
    refine le_lastNumber hcounter hlast (List.mem_filter.mpr ⟨hn, ?_⟩)
      (SerialNumber.serial_label 4 year n)
    rw [SerialNumber.stripPrefix_label]
    rfl

/-- In an orderly ledger the last number can be read, and there is a next one. -/
theorem Ordered.lastNumber_isOk (h : Ordered ledger db) (year : ℤ) :
    ∃ last, lastNumber db ledger year = .ok last ∧ 0 ≤ last ∧ last < maxCounter := by
  cases hcounter : counter db ledger year with
  | some last => exact ⟨last, by simp only [lastNumber, hcounter], h.counters year last hcounter⟩
  | none =>
    have hsmall : ∀ n ∈ (numbersLike db ledger year).filterMap SerialNumber.serial,
      (n : ℤ) < maxCounter := by
      intro n hn
      obtain ⟨number, hnumber, hserial⟩ := List.mem_filterMap.mp hn
      obtain ⟨hmem, hprefix⟩ := List.mem_filter.mp hnumber
      obtain ⟨rest, hrest⟩ := Option.isSome_iff_exists.mp hprefix
      have hbehind := h.numbers number hmem
      rw [behind_iff (RustStr.stripPrefix_eq_some.mp hrest), hcounter] at hbehind
      exact hbehind n hserial
    have hfits : ∀ n ∈ (numbersLike db ledger year).filterMap SerialNumber.serial, FitsI32 n := by
      intro n hn
      have := hsmall n hn
      unfold maxCounter at this
      unfold FitsI32
      omega
    refine ⟨(((numbersLike db ledger year).filterMap SerialNumber.serial).max?.getD 0 : ℕ), ?_,
      Int.natCast_nonneg _, ?_⟩
    · simp only [lastNumber, hcounter, maxSuffix, ensure, if_pos hfits]
      rfl
    · cases hmax : ((numbersLike db ledger year).filterMap SerialNumber.serial).max? with
      | none => decide
      | some m => exact hsmall m (List.max?_mem hmax)

theorem Ordered.next_unused (h : Ordered ledger db) (hlast : lastNumber db ledger year = .ok last)
    (hpos : 0 ≤ last) (hroom : last < maxCounter) :
    ∀ j ∈ db.invoices, j.ledgerId = ledger →
      j.invoiceNumber ≠ some (SerialNumber.label 4 year (last + 1).toNat) := by
  intro j hj hledger hnumber
  have hfits : FitsI32 ((last + 1).toNat : ℤ) := by
    unfold maxCounter at hroom
    unfold FitsI32
    omega
  have hle := h.le_last hlast hfits (mem_ledgerNumbers.mpr ⟨j, hj, hledger, hnumber⟩)
  omega

theorem insertNumbered_storedUnder {req : Request} {read : CreateRead} {number : String}
    (hne : number ≠ "") (h : insertNumbered db req ledger read number = .ok db') :
    StoredUnder db' ledger (req.rowId 0) number := by
  obtain ⟨⟨total, lines, rfl⟩, -, hunused⟩ := insertNumbered_ok h
  refine ⟨⟨{ invoiceRow req ledger read number with total := total }, ?_, rfl, rfl, rfl⟩, ?_⟩
  · exact List.mem_append_right _ (List.mem_singleton_self _)
  · rw [List.forall_mem_append, List.forall_mem_singleton]
    exact ⟨fun j hj hledger hnumber => absurd hnumber (hunused hne j hj hledger), fun _ _ => rfl⟩

theorem label_ne_empty (n : ℕ) : SerialNumber.label 4 year n ≠ "" := by
  intro h
  have hserial := congrArg SerialNumber.serial h
  rw [SerialNumber.serial_label] at hserial
  cases hserial

theorem Ordered.neverStuck (h : Ordered ledger db) : NeverStuck ledger db := by
  intro req auth form hblank ⟨read, number, hread, hlines, hopen, hstorable⟩
  obtain ⟨db₀, hinsert⟩ := exists_ok_of_isOk hstorable
  obtain ⟨last, hlast, hpos, hroom⟩ := h.lastNumber_isOk read.invoiceDate.year
  obtain ⟨db₁, hnext⟩ := nextInvoiceNumber_isOk (readCreate_ok hread).1 hlast hpos hroom
  obtain ⟨-, -, -, -, ⟨rows, rfl⟩, -⟩ := nextInvoiceNumber_ok hnext
  obtain ⟨db₂, hstored⟩ := insertNumbered_renumber hinsert (h.next_unused hlast hpos hroom) rows
  have hchosen : chooseNumber db ledger read.invoiceDate.year form.invoiceNumber =
      .ok (SerialNumber.label 4 read.invoiceDate.year (last + 1).toNat,
        { db with invoiceSequences := rows }) := by
    simp only [chooseNumber, hblank, hnext]
    rfl
  exact ⟨db₂, _, create_eq hread hlines hopen hchosen hstored,
    insertNumbered_storedUnder (label_ne_empty _) hstored⟩

end Ordered

/-! ## Steps -/

section Steps

variable {ledger : Uuid} {db db' : Db} {number : String}

/-- The ledger is orderly if its counters have room and leave behind the numbers there were and the
new one. -/
theorem Ordered.concat {i : Invoice} (hrow : i.ledgerId = ledger)
    (hcounters : ∀ year last, counter db' ledger year = some last → 0 ≤ last ∧ last < maxCounter)
    (hinvoices : db'.invoices = db.invoices ++ [i])
    (hold : ∀ number ∈ ledgerNumbers db ledger, Behind (counter db' ledger) number)
    (hnew : ∀ number, i.invoiceNumber = some number → Behind (counter db' ledger) number) :
    Ordered ledger db' := by
  refine ⟨hcounters, fun number hnumber => ?_⟩
  obtain ⟨j, hj, hledger, hj'⟩ := mem_ledgerNumbers.mp hnumber
  rw [hinvoices, List.mem_append, List.mem_singleton] at hj
  rcases hj with hj | rfl
  · exact hold number (mem_ledgerNumbers.mpr ⟨j, hj, hledger, hj'⟩)
  · exact hnew number hj'

/-- A number that is drawn leaves none ahead of its counter. -/
theorem Ordered.draw (h : Ordered ledger db) {year : ℤ} {db₁ : Db}
    (hroom : ∀ last, lastNumber db ledger year = .ok last → last + 1 < maxCounter)
    (hdrawn : nextInvoiceNumber db ledger year = .ok (number, db₁)) :
    (∀ y last, counter db₁ ledger y = some last → 0 ≤ last ∧ last < maxCounter) ∧
      (∀ other ∈ ledgerNumbers db ledger, Behind (counter db₁ ledger) other) ∧
      Behind (counter db₁ ledger) number := by
  obtain ⟨last, hlast, -, rfl, -, hcounter⟩ := nextInvoiceNumber_ok hdrawn
  have hpos := lastNumber_nonneg (fun n hn => (h.counters year n hn).1) hlast
  have hnext := hroom last hlast
  have hwrap : wrapI32 (last + 1) = last + 1 := by
    unfold maxCounter at hnext
    exact wrapI32_of_fits (by unfold FitsI32; omega)
  rw [hwrap] at hcounter
  have hyear : counter db₁ ledger year = some (last + 1) := by simp [hcounter]
  have hothers : ∀ y, y ≠ year → counter db₁ ledger y = counter db ledger y := by
    intro y hy
    simp [hcounter, hy]
  refine ⟨fun y n hn => ?_, fun other hother => ?_, ?_⟩
  · by_cases hy : y = year
    · rw [hy, hyear] at hn
      cases hn
      exact ⟨by omega, hnext⟩
    · rw [hothers y hy] at hn
      exact h.counters y n hn
  · refine (h.numbers other hother).advance hothers hyear fun n hfits hlabel => ?_
    rw [hlabel] at hother
    have := h.le_last hlast hfits hother
    omega
  · rw [hwrap]
    exact behind_label hyear (by omega)

/-- Nor does a new number that is supplied. -/
theorem Ordered.supply (h : Ordered ledger db) {year : ℤ} {db₁ : Db}
    (hnew : Supplied db ledger year number)
    (hsupplied : supplyNumber db ledger year number = .ok db₁) :
    (∃ rows, db₁ = { db with invoiceSequences := rows }) ∧
      (∀ y last, counter db₁ ledger y = some last → 0 ≤ last ∧ last < maxCounter) ∧
      (∀ other ∈ ledgerNumbers db ledger, Behind (counter db₁ ledger) other) ∧
      Behind (counter db₁ ledger) number := by
  simp only [supplyNumber, bind_eq_ok] at hsupplied
  obtain ⟨-, -, hsupplied⟩ := hsupplied
  rw [Supplied] at hnew
  cases hsuffix : suffixOf year number with
  | none =>
    simp only [hsuffix] at hsupplied hnew
    cases hsupplied
    exact ⟨⟨db.invoiceSequences, rfl⟩, h.counters, h.numbers, hnew⟩
  | some n =>
    simp only [hsuffix, mapError_eq_ok] at hsupplied hnew
    obtain ⟨hroom, hfirst⟩ := hnew
    obtain ⟨-, hpos, hrows, hcounter⟩ := upsertSequence_ok hsupplied
    let last := (counter db ledger year).elim n fun lastNo => max lastNo n
    have hyear : counter db₁ ledger year = some last := by simp [hcounter, last]
    have hothers : ∀ y, y ≠ year → counter db₁ ledger y = counter db ledger y := by
      intro y hy
      simp [hcounter, hy]
    have hle : n ≤ last := by
      show n ≤ (counter db ledger year).elim n fun lastNo => max lastNo n
      cases counter db ledger year with
      | none => exact le_rfl
      | some lastNo => exact le_max_right lastNo n
    refine ⟨hrows, fun y m hm => ?_, fun other hother => ?_, ?_⟩
    · by_cases hy : y = year
      · rw [hy, hyear] at hm
        cases hm
        refine ⟨hpos.trans hle, ?_⟩
        show (counter db ledger year).elim n (fun lastNo => max lastNo n) < maxCounter
        cases hlast : counter db ledger year with
        | none => exact hroom
        | some lastNo => exact max_lt (h.counters year lastNo hlast).2 hroom
      · rw [hothers y hy] at hm
        exact h.counters y m hm
    · refine (h.numbers other hother).advance hothers hyear fun m hfits hlabel => ?_
      cases hlast : counter db ledger year with
      | none => exact (hfirst hlast other hother m hfits hlabel).trans hle
      | some lastNo =>
        have hbehind := h.numbers other hother
        rw [hlabel] at hbehind
        refine (hbehind.le hlast hfits).trans ?_
        simp only [last, hlast, Option.elim_some]
        exact le_max_left lastNo n
    · obtain ⟨rest, hnumber, hparse, -⟩ := suffixOf_eq_some.mp hsuffix
      rw [behind_iff hnumber, hyear]
      intro m _ hm
      rw [hm, RustStr.parseInt_padZero] at hparse
      exact (Option.some.inj hparse).le.trans hle

theorem ledgerNumbers_markVoid (db : Db) (ledger invoice : Uuid) (reason : String) :
    ledgerNumbers (markVoid db ledger invoice reason) ledger = ledgerNumbers db ledger := by
  have hrow : ∀ i : Invoice,
      (if i.id = invoice ∧ i.ledgerId = ledger then
        { i with status := InvoiceStatus.void, voidReason := some reason } else i).ledgerId =
          i.ledgerId ∧
      (if i.id = invoice ∧ i.ledgerId = ledger then
        { i with status := InvoiceStatus.void, voidReason := some reason } else i).invoiceNumber =
          i.invoiceNumber := by
    intro i
    split <;> exact ⟨rfl, rfl⟩
  simp only [ledgerNumbers, markVoid, updateWhere, List.filter_map, List.filterMap_map]
  congr 1
  · funext i
    exact (hrow i).2
  · refine List.filter_congr fun i _ => ?_
    simp only [Function.comp_apply, (hrow i).1]

/-- The invariant, for one action in order. -/
theorem step_ordered (h : Ordered ledger db) {a : Action} (ha : InOrder ledger db a) :
    Ordered ledger (step ledger db a) := by
  cases a with
  | create req auth form =>
    rcases create_cases db req auth ledger form with
      hsame | ⟨read, number, db₁, db', hread, hnumber, hinsert, hcreate⟩
    · rw [step, hsame]
      exact h
    · have hnew := ha (by rw [hcreate]) _ (readCreate_ok hread).2
      rw [chooseNumber] at hnumber
      obtain ⟨⟨total, lines, hdb⟩, -⟩ := insertNumbered_ok hinsert
      rw [step, hcreate]
      cases hsupplied : RustStr.nonEmptyTrimmed form.invoiceNumber with
      | none =>
        simp only [hsupplied, mapError_eq_ok] at hnumber hnew
        obtain ⟨-, -, -, -, ⟨rows, hrows⟩, -⟩ := nextInvoiceNumber_ok hnumber
        obtain ⟨hcounters, hold, hdrawn⟩ := h.draw hnew hnumber
        subst hrows hdb
        exact Ordered.concat
          (i := { invoiceRow req ledger read number with total := total }) rfl
          hcounters rfl hold fun _ heq => Option.some.inj heq ▸ hdrawn
      | some supplied =>
        simp only [hsupplied, bind_eq_ok] at hnumber hnew
        obtain ⟨db₂, hnumber, hpair⟩ := hnumber
        cases hpair
        obtain ⟨⟨rows, hrows⟩, hcounters, hold, hstored⟩ := h.supply hnew hnumber
        subst hrows hdb
        exact Ordered.concat
          (i := { invoiceRow req ledger read number with total := total }) rfl
          hcounters rfl hold fun _ heq => Option.some.inj heq ▸ hstored
  | apiCreate req user parsed =>
    rcases Api.Invoices.create_cases db req user ledger parsed with
      hsame | ⟨body, kind, total, lines, hbody, hok, hcreate, -⟩
    · rw [step, hsame]
      exact h
    · rw [step, hcreate]
      refine Ordered.concat (i := Api.Invoices.invoiceRow req ledger body kind total) rfl
        h.counters rfl
        h.numbers fun number hnumber => ?_
      obtain ⟨hsome, hne⟩ := Option.filter_eq_some_iff.mp hnumber
      exact ha hok body number hbody hsome (by simpa using hne)
  | void auth invoice form =>
    rcases void_cases db auth ledger invoice form with hsame | ⟨reason, hvoid⟩
    · rw [step, hsame]
      exact h
    · rw [step, hvoid]
      refine ⟨h.counters, ?_⟩
      rw [ledgerNumbers_markVoid]
      exact h.numbers

end Steps

/-! ## Runs -/

/-- The ledger has no invoices and no counters. -/
structure Fresh (ledger : Uuid) (db : Db) : Prop where
  no_invoices : ∀ i ∈ db.invoices, i.ledgerId ≠ ledger
  no_counters : ∀ r ∈ db.invoiceSequences, r.ledgerId ≠ ledger

theorem Fresh.ordered {ledger : Uuid} {db : Db} (h : Fresh ledger db) : Ordered ledger db := by
  refine ⟨fun year last hlast => ?_, fun number hnumber => ?_⟩
  · rw [counter, Option.map_eq_some_iff] at hlast
    obtain ⟨r, hr, -⟩ := hlast
    rw [findSequence_eq] at hr
    obtain ⟨hmem, hkey⟩ := mem_of_find?_key hr
    exact absurd (Prod.mk.inj hkey).1 (h.no_counters r hmem)
  · obtain ⟨i, hi, hledger, -⟩ := mem_ledgerNumbers.mp hnumber
    exact absurd hledger (h.no_invoices i hi)

/-- From a new ledger on, no form with a blank number gets stuck as long as every number is put in
order. -/
theorem neverStuck_of_inOrder {ledger : Uuid} {db : Db} {actions : List Action}
    (h : Fresh ledger db)
    (hmeets : Runs.Meets (step ledger) (InOrder ledger) db actions) :
    ∀ db' ∈ Runs.visited (step ledger) db actions, NeverStuck ledger db' :=
  fun db' hmem => (Runs.invariant_of_meets (P := Ordered ledger) (fun _ _ h ha => step_ordered h ha)
    h.ordered hmeets db' hmem).neverStuck

namespace Sample

open OpenAccounting.Sample

def start : Db :=
  { OpenAccounting.Sample.db with contacts := [{ id := 31, ledgerId := ledgerId }] }

theorem start_fresh : Fresh ledgerId start where
  no_invoices := by simp [start, OpenAccounting.Sample.db]
  no_counters := by simp [start, OpenAccounting.Sample.db]

/-- The form of an invoice over 50. -/
def form (number : Option String) : NewInvoiceForm where
  contactId := some 31
  kind := "receivable"
  invoiceNumber := number
  invoiceDate := some (march 10)
  dueDate := some (march 31)
  lines := [{ description := "Work", quantity := some 1, unitPrice := some 50 }]

def read : CreateRead where
  user := owner
  kind := .receivable
  contactId := 31
  invoiceDate := march 10
  dueDate := march 31
  lines := [{ description := "Work", quantity := 1, unitPrice := 50 }]

def web (seed : ℕ) (number : Option String) : Action :=
  .create (request seed) (some owner) (form number)

def api (seed : ℕ) (number : String) : Action :=
  .apiCreate (request seed) owner (.ok
    { contactId := 31
      kind := "receivable"
      invoiceNumber := some number
      invoiceDate := march 10
      dueDate := march 31
      lines := [{ description := "Work", quantity := 1, unitPrice := 50 }] })

/-- The second number of the year is put in over the API when the counter stands at the first. -/
def ahead : List Action := [web 1 none, api 2 "2026-0002"]

/-- Numbers are drawn and supplied over the web, and an invoice is voided. -/
def overWeb : List Action :=
  [web 1 none, web 2 (some "2026-0007"),
    .void (some owner) ((request 1).rowId 0) { reason := "Sent to the wrong customer" }, web 3 none]

end Sample

/-- The next number is the one that was put in, and the form is refused. -/
theorem ahead_stuck :
    Fresh Sample.ledgerId Sample.start ∧
      Storable (Runs.exec (step Sample.ledgerId) Sample.start Sample.ahead) (Sample.request 3)
        (some Sample.owner) Sample.ledgerId (Sample.form none) ∧
      (create (Runs.exec (step Sample.ledgerId) Sample.start Sample.ahead) (Sample.request 3)
        (some Sample.owner) Sample.ledgerId (Sample.form none)).1 =
          .error (.db (.uniqueViolation "uq_invoices_number")) ∧
      ¬ NeverStuck Sample.ledgerId
        (Runs.exec (step Sample.ledgerId) Sample.start Sample.ahead) := by
  have hstorable : Storable (Runs.exec (step Sample.ledgerId) Sample.start Sample.ahead)
      (Sample.request 3) (some Sample.owner) Sample.ledgerId (Sample.form none) :=
    ⟨Sample.read, "2026-0003", by decide +kernel, by decide +kernel, by decide +kernel,
      by decide +kernel⟩
  have hrefused : (create (Runs.exec (step Sample.ledgerId) Sample.start Sample.ahead)
      (Sample.request 3) (some Sample.owner) Sample.ledgerId (Sample.form none)).1 =
        .error (.db (.uniqueViolation "uq_invoices_number")) := by decide +kernel
  refine ⟨Sample.start_fresh, hstorable, hrefused, fun hnever => ?_⟩
  obtain ⟨db', number, hcreate, -⟩ := hnever _ _ _ (by decide) hstorable
  rw [hcreate] at hrefused
  cases hrefused

theorem Sample.web_none_inOrder {seed : ℕ} {db : Db} (last : ℤ)
    (hlast : lastNumber db Sample.ledgerId 2026 = .ok last) (hroom : last + 1 < maxCounter) :
    InOrder Sample.ledgerId db (Sample.web seed none) := by
  intro _ date hdate last' hlast'
  cases hdate
  have hyear : (Sample.march 10).year = 2026 := by decide
  rw [hyear, hlast] at hlast'
  cases hlast'
  exact hroom

theorem neverStuck_of_inOrder_overWeb :
    NeverStuck Sample.ledgerId (Runs.exec (step Sample.ledgerId) Sample.start Sample.overWeb) := by
  have hmeets : Runs.Meets (step Sample.ledgerId) (InOrder Sample.ledgerId) Sample.start
      Sample.overWeb := by
    refine ⟨Sample.web_none_inOrder 0 (by decide) (by decide), ?_, trivial,
      Sample.web_none_inOrder 7 (by decide +kernel) (by decide), trivial⟩
    intro _ date hdate
    cases hdate
    show Supplied _ _ (Sample.march 10).year "2026-0007"
    have hsuffix : suffixOf (Sample.march 10).year "2026-0007" = some 7 := by decide
    have hcounter : counter (step Sample.ledgerId Sample.start (Sample.web 1 none)) Sample.ledgerId
        (Sample.march 10).year = some 1 := by decide +kernel
    simp only [Supplied, hsuffix, hcounter]
    exact ⟨by decide, nofun⟩
  exact neverStuck_of_inOrder Sample.start_fresh hmeets _ (Runs.exec_mem_visited _ _)

end OpenAccounting.Invoices
