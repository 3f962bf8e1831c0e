import OpenAccounting.Lib.Threads
import OpenAccounting.System.InvoiceNumbering

/-!
# Gapless numbers

Invoices with blank numbers are created over the web, any number at a time, and voided.  A create
checks its form, and then, in a transaction, that the period is open, takes the lock of the ledger's
row and draws its number: it reads the counter of the year, seeds it if there is none, and moves it
on.  The lock is held until the transaction ends, and one that aborts leaves nothing.

In every state of every interleaving the invoices of a year have the numbers from one on, each once,
and the gap report says so.
-/

namespace OpenAccounting.GaplessNumbers

open Calendar Commit Relational Rounding CloseControls Invoices

/-- The committed database, and who holds the lock of the ledger's row. -/
structure Shared where
  db : Db
  holder : Option ℕ := none

/-- Where a request is. -/
inductive Place where
  | idle
  /-- The form has been read. -/
  | submitted (read : CreateRead)
  /-- The period is open. -/
  | gated (read : CreateRead)
  /-- The ledger's row is locked. -/
  | locked (read : CreateRead)
  /-- The year has no counter. -/
  | unseeded (read : CreateRead)
  /-- The greatest suffix is read. -/
  | seeded (read : CreateRead) (seed : ℤ)
  /-- The row of the counter is inserted, unless there is one. -/
  | inserted (read : CreateRead) (seed : ℤ)
  /-- The counter is read. -/
  | counted (read : CreateRead) (seed : Option ℤ) (last : ℤ)
  /-- The counter is moved on. -/
  | drawn (read : CreateRead) (seed : Option ℤ) (next : ℤ)
deriving DecidableEq

/-- One action: a statement of a create, its end, or a void. -/
inductive Action where
  | submit (auth : Option Uuid) (form : NewInvoiceForm)
  | gate
  | lock
  | select
  | seed
  | insert
  | reread
  | draw
  | commit (req : Request)
  | abort
  | void (auth : Option Uuid) (invoice : Uuid) (form : VoidInvoiceForm)

/-- The row of the counter, if the create has inserted one. -/
def insertSeed (db : Db) (ledger : Uuid) (year : ℤ) : Option ℤ → Except SqlError Db
  | some seed => upsertSequence db ledger year seed id
  | none => .ok db

/-- What a transaction leaves when it commits.  The checks of its statements are made here. -/
def commitCreate (db : Db) (req : Request) (ledger : Uuid) (read : CreateRead) (seed : Option ℤ)
    (next : ℤ) : Except SqlError Db := do
  let db ← insertSeed db ledger read.invoiceDate.year seed
  let db ← setSequence db ledger read.invoiceDate.year next
  insertNumbered db req ledger read (SerialNumber.label 4 read.invoiceDate.year next.toNat)

/-- The transaction ends, and its lock with it. -/
def release (n : ℕ) (s : Shared) : Shared :=
  { s with holder := if s.holder = some n then none else s.holder }

/-- The steps of the two handlers. -/
def act (ledger : Uuid) (n : ℕ) (s : Shared) : Place → Action → Shared × Place
  | .idle, .submit auth form =>
    match readCreate s.db auth ledger form with
    | .ok read => if read.lines = [] then (s, .idle) else (s, .submitted read)
    | .error _ => (s, .idle)
  | .submitted read, .gate =>
    if s.db.Closed ledger read.invoiceDate then (s, .idle) else (s, .gated read)
  | .gated read, .lock =>
    if s.holder = none then ({ s with holder := some n }, .locked read) else (s, .gated read)
  | .locked read, .select =>
    match counter s.db ledger read.invoiceDate.year with
    | some last => (s, .counted read none last)
    | none => (s, .unseeded read)
  | .unseeded read, .seed =>
    match maxSuffix s.db ledger read.invoiceDate.year with
    | .ok suffix => (s, .seeded read (suffix.getD 0 : ℕ))
    | .error _ => (release n s, .idle)
  | .seeded read seed, .insert => (s, .inserted read seed)
  | .inserted read seed, .reread =>
    (s, .counted read (some seed) ((counter s.db ledger read.invoiceDate.year).getD seed))
  | .counted read seed last, .draw => (s, .drawn read seed (wrapI32 (last + 1)))
  | .drawn read seed next, .commit req =>
    match commitCreate s.db req ledger read seed next with
    | .ok db => (release n { s with db := db }, .idle)
    | .error _ => (release n s, .idle)
  | .idle, .void auth invoice form =>
    ({ s with db := (void s.db auth ledger invoice form).2 }, .idle)
  | _, .abort => (release n s, .idle)
  | place, _ => (s, place)

/-- Everything that is under way. -/
abbrev State := Threads.State ℕ Shared Place

/-- A request takes its next action. -/
def step (ledger : Uuid) : State → ℕ × Action → State := Threads.step (act ledger)

/-- The invoices of the ledger that are dated in the year. -/
def dated (db : Db) (ledger : Uuid) (year : ℤ) : List Invoice :=
  db.invoices.filter fun i => i.ledgerId = ledger ∧ i.invoiceDate.year = year

def firstNumbers (year : ℤ) (n : ℕ) : List String :=
  (List.range n).map fun k => SerialNumber.label 4 year (k + 1)

/-- The invoices of each year have the first numbers, each once, and the gap report says so. -/
def Gapless (ledger : Uuid) (db : Db) : Prop :=
  ∀ year, ((dated db ledger year).map Invoice.invoiceNumber =
      (firstNumbers year (dated db ledger year).length).map some) ∧
    invoiceGapReport db ledger year =
      { allocated := firstNumbers year (dated db ledger year).length
        void := ((dated db ledger year).filter fun i => i.status = .void).filterMap
          Invoice.invoiceNumber
        missing := [] }

/-! ## Alone -/

/-- The actions of one create. -/
def actions (req : Request) (auth : Option Uuid) (form : NewInvoiceForm) : List Action :=
  [.submit auth form, .gate, .lock, .select, .seed, .insert, .reread, .draw, .commit req]

/-- A request that takes actions alone. -/
def alone (ledger : Uuid) (n : ℕ) (c : Shared × Place) (as : List Action) : Shared × Place :=
  as.foldl (fun c a => act ledger n c.1 c.2 a) c

/-- The statements that number an invoice draw what `next_invoice_number` draws, and their writes
are its writes. -/
theorem alone_locked (ledger : Uuid) (n : ℕ) (db : Db) (req : Request) (read : CreateRead) :
    (alone ledger n (⟨db, some n⟩, .locked read)
      [.select, .seed, .insert, .reread, .draw, .commit req]).1 =
        ⟨(commit db do
          let (number, db) ← nextInvoiceNumber db ledger read.invoiceDate.year
          let db ← insertNumbered db req ledger read number
          .ok ((), db)).2, none⟩ := by
  cases hfind : findSequence db ledger read.invoiceDate.year with
  | some r =>
    have hcounter : counter db ledger read.invoiceDate.year = some r.lastNo := by
      rw [counter, hfind]
      rfl
    simp only [alone, List.foldl_cons, List.foldl_nil, act, hcounter, commitCreate, insertSeed,
      nextInvoiceNumber, readSequence, hfind, bind, Except.bind]
    cases hset : setSequence db ledger read.invoiceDate.year (wrapI32 (r.lastNo + 1)) with
    | error e => simp [release, commit]
    | ok db₁ =>
      simp only
      cases hinsert : insertNumbered db₁ req ledger read
        (SerialNumber.label 4 read.invoiceDate.year (wrapI32 (r.lastNo + 1)).toNat) <;>
        simp [release, commit]
  | none =>
    have hcounter : counter db ledger read.invoiceDate.year = none := by
      rw [counter, hfind]
      rfl
    cases hsuffix : maxSuffix db ledger read.invoiceDate.year with
    | error e =>
      simp [alone, act, hcounter, hsuffix, nextInvoiceNumber, readSequence, hfind, bind,
        Except.bind, release, commit]
    | ok suffix =>
      simp only [alone, List.foldl_cons, List.foldl_nil, act, hcounter, hsuffix,
        Option.getD_none,
        commitCreate, insertSeed, nextInvoiceNumber, readSequence, hfind, bind, Except.bind]
      cases hupsert : upsertSequence db ledger read.invoiceDate.year (suffix.getD 0 : ℕ) id with
      | error e => simp [release, commit]
      | ok db₁ =>
        obtain ⟨-, -, -, hafter⟩ := upsertSequence_ok hupsert
        have hreread : (findSequence db₁ ledger read.invoiceDate.year).elim
            ((suffix.getD 0 : ℕ) : ℤ) InvoiceSequence.lastNo = (suffix.getD 0 : ℕ) := by
          have hseed := hafter ledger read.invoiceDate.year
          rw [if_pos ⟨rfl, rfl⟩, hcounter, counter, Option.map_eq_some_iff] at hseed
          obtain ⟨r, hr, hno⟩ := hseed
          rw [hr]
          exact hno
        simp only [hreread]
        cases hset : setSequence db₁ ledger read.invoiceDate.year
          (wrapI32 ((suffix.getD 0 : ℕ) + 1)) with
        | error e => simp [release, commit]
        | ok db₂ =>
          simp only
          cases hinsert : insertNumbered db₂ req ledger read
            (SerialNumber.label 4 read.invoiceDate.year
              (wrapI32 ((suffix.getD 0 : ℕ) + 1)).toNat) <;>
            simp [release, commit]

/-- Alone, the steps of a request are the function of the handler. -/
theorem create_alone (ledger : Uuid) (n : ℕ) (db : Db) (req : Request) (auth : Option Uuid)
    (form : NewInvoiceForm) (hblank : RustStr.nonEmptyTrimmed form.invoiceNumber = none) :
    (Runs.exec (step ledger) ⟨⟨db, none⟩, fun _ => .idle⟩
      ((actions req auth form).map (n, ·))).shared =
      ⟨(create db req auth ledger form).2, none⟩ := by
  refine (Threads.exec_alone _ _).1.trans ?_
  cases hread : readCreate db auth ledger form with
  | error e => simp [actions, act, hread, create, commit, bind, Except.bind, release]
  | ok read =>
    by_cases hlines : read.lines = []
    · simp [actions, act, hread, hlines, create, commit, bind, Except.bind]
    · by_cases hclosed : db.Closed ledger read.invoiceDate
      · have hcheck : ∃ e, checkOpen db ledger read.invoiceDate = .error e := by
          simp [checkOpen, ensure, hclosed]
        obtain ⟨e, hcheck⟩ := hcheck
        simp [actions, act, hread, hlines, hclosed, create, writeCreate, hcheck, commit, bind,
          Except.bind]
      · have hcheck : checkOpen db ledger read.invoiceDate = .ok () := by
          rw [checkOpen, ensure_eq_ok]
          exact hclosed
        have hfirst : alone ledger n (⟨db, none⟩, .idle) [.submit auth form, .gate, .lock] =
            (⟨db, some n⟩, .locked read) := by
          simp [alone, act, hread, hlines, hclosed]
        show (alone ledger n
          (alone ledger n (⟨db, none⟩, .idle) [.submit auth form, .gate, .lock])
          [.select, .seed, .insert, .reread, .draw, .commit req]).1 = _
        rw [hfirst, alone_locked]
        simp only [create, hread, hlines, writeCreate, hcheck, chooseNumber, hblank, bind,
          Except.bind, if_false]
        cases nextInvoiceNumber db ledger read.invoiceDate.year with
        | error e => rfl
        | ok r =>
          simp only [mapError]
          cases insertNumbered r.2 req ledger read r.1 <;> rfl

open OpenAccounting.Sample in
theorem create_alone_first :
    RustStr.nonEmptyTrimmed (Invoices.Sample.form none).invoiceNumber = none ∧
      (Runs.exec (step ledgerId) ⟨⟨Invoices.Sample.start, none⟩, fun _ => .idle⟩
        ((actions (request 1) (some owner) (Invoices.Sample.form none)).map (0, ·))).shared =
        ⟨(create Invoices.Sample.start (request 1) (some owner) ledgerId
          (Invoices.Sample.form none)).2, none⟩ :=
  ⟨rfl, create_alone ledgerId 0 _ _ _ _ rfl⟩

/-! ## The numbers of the ledger -/

/-- The invoices of each year have the first numbers, which its counter has counted. -/
structure Numbered (ledger : Uuid) (db : Db) : Prop where
  carried : ∀ year, (dated db ledger year).map Invoice.invoiceNumber =
    (firstNumbers year (dated db ledger year).length).map some
  counted : ∀ year, (counter db ledger year).getD 0 = (dated db ledger year).length
  fits : ∀ year, ((dated db ledger year).length : ℤ) < 2 ^ 31

section Numbered

variable {ledger : Uuid} {db db' : Db} {year : ℤ}

theorem firstNumbers_succ (year : ℤ) (n : ℕ) :
    firstNumbers year (n + 1) = firstNumbers year n ++ [SerialNumber.label 4 year (n + 1)] := by
  rw [firstNumbers, List.range_succ, List.map_append]
  rfl

theorem mem_dated {i : Invoice} :
    i ∈ dated db ledger year ↔
      i ∈ db.invoices ∧ i.ledgerId = ledger ∧ i.invoiceDate.year = year := by
  simp [dated]

theorem Numbered.number_eq (h : Numbered ledger db) {i : Invoice} (hi : i ∈ dated db ledger year) :
    ∃ k < (dated db ledger year).length,
      i.invoiceNumber = some (SerialNumber.label 4 year (k + 1)) := by
  have hmem : i.invoiceNumber ∈ (dated db ledger year).map Invoice.invoiceNumber :=
    List.mem_map_of_mem hi
  rw [h.carried, firstNumbers, List.map_map, List.mem_map] at hmem
  obtain ⟨k, hk, hnumber⟩ := hmem
  exact ⟨k, List.mem_range.mp hk, hnumber.symm⟩

/-- The last number that is read is the count of the year's invoices. -/
theorem Numbered.last_eq (h : Numbered ledger db) {last : ℤ}
    (hlast : lastNumber db ledger year = .ok last) : last = (dated db ledger year).length := by
  have hcounted := h.counted year
  cases hcounter : counter db ledger year with
  | some n =>
    simp only [lastNumber, hcounter] at hlast
    cases hlast
    rw [hcounter] at hcounted
    exact hcounted
  | none =>
    have hempty : dated db ledger year = [] := by
      rw [hcounter] at hcounted
      exact List.length_eq_zero_iff.mp (by simpa using hcounted.symm)
    have hnone : numbersLike db ledger year = [] := by
      rw [numbersLike, List.filter_eq_nil_iff]
      intro number hnumber hlike
      obtain ⟨i, hi, hledger, hi'⟩ := mem_ledgerNumbers.mp hnumber
      have hdated : i ∈ dated db ledger i.invoiceDate.year := mem_dated.mpr ⟨hi, hledger, rfl⟩
      obtain ⟨k, -, hlabel⟩ := h.number_eq hdated
      rw [hi', Option.some.injEq] at hlabel
      obtain ⟨rest, hrest⟩ := Option.isSome_iff_exists.mp hlike
      rw [hlabel] at hrest
      -- A number `LIKE` the year's is one of an invoice of the year.
      rw [← (SerialNumber.stripPrefix_label_eq_some hrest).1, hempty] at hdated
      cases hdated
    simp only [lastNumber, hcounter, maxSuffix, hnone, bind, Except.bind, ensure] at hlast
    cases hlast
    rw [hempty]
    rfl

/-- An invoice with the next number keeps the numbers without a gap. -/
theorem Numbered.concat (h : Numbered ledger db) {i : Invoice} (hledger : i.ledgerId = ledger)
    (hyear : i.invoiceDate.year = year) {next : ℤ} (hpos : 0 ≤ next)
    (hnext : next = wrapI32 ((dated db ledger year).length + 1))
    (hnumber : i.invoiceNumber = some (SerialNumber.label 4 year next.toNat))
    (hinvoices : db'.invoices = db.invoices ++ [i])
    (hcounter : ∀ y, counter db' ledger y = if y = year then some next else counter db ledger y) :
    Numbered ledger db' := by
  have hfits := h.fits year
  -- A counter that wrapped around would be negative.
  have hsucc : next = (dated db ledger year).length + 1 := by
    unfold wrapI32 at hnext
    omega
  have hdated : dated db' ledger year = dated db ledger year ++ [i] := by
    rw [dated, dated, hinvoices, List.filter_append,
      List.filter_cons_of_pos (by simp [hledger, hyear])]
    rfl
  have hothers : ∀ y, y ≠ year → dated db' ledger y = dated db ledger y := by
    intro y hy
    rw [dated, dated, hinvoices, List.filter_append,
      List.filter_cons_of_neg (by simp [hyear, hy.symm]), List.filter_nil, List.append_nil]
  refine ⟨fun y => ?_, fun y => ?_, fun y => ?_⟩
  · by_cases hy : y = year
    · rw [hy, hdated, List.map_append, h.carried, List.length_append, List.length_singleton,
        firstNumbers_succ, List.map_append, List.map_singleton, List.map_singleton, hnumber, hsucc]
      rfl
    · rw [hothers y hy]
      exact h.carried y
  · by_cases hy : y = year
    · rw [hy, hcounter, if_pos rfl, hdated, hsucc]
      simp
    · rw [hcounter, if_neg hy, hothers y hy]
      exact h.counted y
  · by_cases hy : y = year
    · rw [hy, hdated, List.length_append]
      unfold wrapI32 at hnext
      push_cast
      simp only [List.length_singleton]
      omega
    · rw [hothers y hy]
      exact h.fits y

def voided (ledger invoice : Uuid) (reason : String) (i : Invoice) : Invoice :=
  if i.id = invoice ∧ i.ledgerId = ledger then
    { i with status := .void, voidReason := some reason }
  else i

theorem dated_markVoid (invoice : Uuid) (reason : String) :
    dated (markVoid db ledger invoice reason) ledger year =
      (dated db ledger year).map (voided ledger invoice reason) := by
  have hkeeps : (fun i : Invoice => decide (i.ledgerId = ledger ∧ i.invoiceDate.year = year)) ∘
      voided ledger invoice reason =
        fun i => decide (i.ledgerId = ledger ∧ i.invoiceDate.year = year) := by
    funext i
    simp only [Function.comp_apply, voided]
    split <;> rfl
  show (db.invoices.map (voided ledger invoice reason)).filter _ = _
  rw [List.filter_map, hkeeps, dated]

theorem Numbered.markVoid (h : Numbered ledger db) (invoice : Uuid) (reason : String) :
    Numbered ledger (markVoid db ledger invoice reason) := by
  have hnumber : Invoice.invoiceNumber ∘ voided ledger invoice reason = Invoice.invoiceNumber := by
    funext i
    simp only [Function.comp_apply, voided]
    split <;> rfl
  refine ⟨fun y => ?_, fun y => ?_, fun y => ?_⟩
  · rw [dated_markVoid, List.map_map, hnumber, List.length_map]
    exact h.carried y
  · rw [dated_markVoid, List.length_map]
    exact h.counted y
  · rw [dated_markVoid, List.length_map]
    exact h.fits y

end Numbered

/-! ## The report -/

section Report

variable {ledger : Uuid} {db : Db} {year : ℤ}

theorem suffixOf_label {n : ℕ} (hfits : FitsI32 n) :
    suffixOf year (SerialNumber.label 4 year n) = some (n : ℤ) :=
  suffixOf_eq_some.mpr
    ⟨_, SerialNumber.label_eq 4 year n, RustStr.parseInt_padZero 4 n, hfits⟩

theorem suffixOf_label_of_ne {year' : ℤ} (hne : year' ≠ year) (n : ℕ) :
    suffixOf year (SerialNumber.label 4 year' n) = none := by
  rw [suffixOf, Option.filter_eq_none_iff]
  intro m hm
  obtain ⟨rest, hrest, -⟩ := Option.bind_eq_some_iff.mp hm
  exact absurd (SerialNumber.stripPrefix_label_eq_some hrest).1.symm hne

theorem Numbered.suffix_eq (h : Numbered ledger db) {i : Invoice} (hi : i ∈ dated db ledger year) :
    ∃ number n, i.invoiceNumber = some number ∧ suffixOf year number = some n := by
  obtain ⟨k, hk, hnumber⟩ := h.number_eq hi
  have hfits := h.fits year
  exact ⟨_, _, hnumber, suffixOf_label (by unfold FitsI32; omega)⟩

theorem Numbered.numbered_eq (h : Numbered ledger db) (year : ℤ) :
    numbered db ledger year = (dated db ledger year).filterMap fun i =>
      i.invoiceNumber.bind fun number => (suffixOf year number).map fun n =>
        (n, number, i.status) := by
  have hsplit : dated db ledger year =
      (db.invoices.filter fun i => i.ledgerId = ledger).filter
        fun i => i.invoiceDate.year = year := by
    rw [List.filter_filter, dated]
    refine List.filter_congr fun i _ => ?_
    simp [and_comm]
  rw [numbered, hsplit]
  conv_rhs => rw [List.filterMap_filter]
  refine List.filterMap_congr fun i hi => ?_
  obtain ⟨hmem, hledger⟩ := List.mem_filter.mp hi
  by_cases hyear : i.invoiceDate.year = year
  · simp [hyear]
  · obtain ⟨k, -, hnumber⟩ := h.number_eq (mem_dated.mpr ⟨hmem, of_decide_eq_true hledger, rfl⟩)
    simp [hyear, hnumber, suffixOf_label_of_ne hyear]

theorem Numbered.used_eq (h : Numbered ledger db) (year : ℤ) :
    SortedMap.ofEntries ((numbered db ledger year).map fun r => (r.1, r.2.1)) =
      (List.range (dated db ledger year).length).map
        fun k => (((k + 1 : ℕ) : ℤ), SerialNumber.label 4 year (k + 1)) := by
  have hentries : (numbered db ledger year).map (fun r => (r.1, r.2.1)) =
      ((dated db ledger year).map Invoice.invoiceNumber).filterMap fun o =>
        o.bind fun number => (suffixOf year number).map fun n => (n, number) := by
    rw [h.numbered_eq, List.map_filterMap, List.filterMap_map]
    refine List.filterMap_congr fun i _ => ?_
    rw [Function.comp_apply]
    cases i.invoiceNumber with
    | none => rfl
    | some number =>
      simp only [Option.bind_some, Option.map_map]
      rfl
  have hfits := h.fits year
  have hlist : (numbered db ledger year).map (fun r => (r.1, r.2.1)) =
      (List.range (dated db ledger year).length).map
        fun k => (((k + 1 : ℕ) : ℤ), SerialNumber.label 4 year (k + 1)) := by
    rw [hentries, h.carried, firstNumbers, List.map_map, List.filterMap_map,
      ← List.filterMap_eq_map]
    refine List.filterMap_congr fun k hk => ?_
    have hk := List.mem_range.mp hk
    simp only [Function.comp_apply, Option.bind_some]
    rw [suffixOf_label (by unfold FitsI32; omega)]
    rfl
  rw [hlist]
  refine SortedMap.ofEntries_eq ?_
  rw [SortedMap.Sorted, List.pairwise_map]
  exact List.pairwise_lt_range.imp fun hlt => by push_cast; omega

theorem Numbered.void_eq (h : Numbered ledger db) (year : ℤ) :
    ((numbered db ledger year).filter fun r => r.2.2 = .void).map (fun r => r.2.1) =
      ((dated db ledger year).filter fun i => i.status = .void).filterMap
        Invoice.invoiceNumber := by
  rw [h.numbered_eq, List.filterMap_filter, List.filter_filterMap, List.map_filterMap]
  refine List.filterMap_congr fun i hi => ?_
  obtain ⟨number, n, hnumber, hsuffix⟩ := h.suffix_eq hi
  simp only [hnumber, hsuffix, Option.bind_some, Option.map_some]
  by_cases hvoid : i.status = .void
  · simp [hvoid]
  · simp [hvoid]

theorem Numbered.gapless (h : Numbered ledger db) : Gapless ledger db := by
  intro year
  refine ⟨h.carried year, ?_⟩
  have hmax : (((List.range (dated db ledger year).length).map fun k =>
      (((k + 1 : ℕ) : ℤ), SerialNumber.label 4 year (k + 1))).getLast?.map Prod.fst).getD 0 =
        (dated db ledger year).length := by
    cases (dated db ledger year).length with
    | zero => rfl
    | succ n => simp [List.range_succ]
  simp only [invoiceGapReport, h.used_eq, h.void_eq, hmax, List.map_map, Int.toNat_natCast]
  congr 1
  -- Every number up to the greatest one is used.
  rw [List.map_eq_nil_iff, List.filter_eq_nil_iff]
  intro n hn
  obtain ⟨k, hk, rfl⟩ := List.mem_map.mp hn
  simpa using List.mem_range.mp hk

end Report

/-! ## What is known of a create -/

/-- The create holds the lock. -/
def Place.Holds : Place → Prop
  | .idle | .submitted _ | .gated _ => False
  | _ => True

/-- The counter was read: it is in the table, or in the row that the create has inserted. -/
def Counted (db : Db) (ledger : Uuid) (read : CreateRead) (seed : Option ℤ) (last : ℤ) : Prop :=
  lastNumber db ledger read.invoiceDate.year = .ok last ∧
    match seed with
    | some seed => counter db ledger read.invoiceDate.year = none ∧ seed = last
    | none => counter db ledger read.invoiceDate.year = some last

/-- What a create has read. -/
def Known (ledger : Uuid) (db : Db) : Place → Prop
  | .unseeded read => counter db ledger read.invoiceDate.year = none
  | .seeded read seed | .inserted read seed => Counted db ledger read (some seed) seed
  | .counted read seed last => Counted db ledger read seed last
  | .drawn read seed next => ∃ last, Counted db ledger read seed last ∧ next = wrapI32 (last + 1)
  | _ => True

/-- A create holds the lock where it should, and knows what it has read. -/
structure Backed (ledger : Uuid) (n : ℕ) (place : Place) (s : Shared) : Prop where
  lock : s.holder = some n ↔ place.Holds
  known : Known ledger s.db place

section Known

variable {ledger : Uuid} {db db' : Db} {place : Place}

/-- What was read of the counters and the numbers stays true as long as they do. -/
theorem Known.congr (h : Known ledger db place)
    (hcounter : ∀ year, counter db' ledger year = counter db ledger year)
    (hnumbers : ledgerNumbers db' ledger = ledgerNumbers db ledger) : Known ledger db' place := by
  have hlast : ∀ year, lastNumber db' ledger year = lastNumber db ledger year := by
    intro year
    have hlike : numbersLike db' ledger year = numbersLike db ledger year := by
      rw [numbersLike, numbersLike, hnumbers]
    rw [lastNumber, lastNumber, hcounter, maxSuffix, maxSuffix, hlike]
  cases place with
  | idle | submitted | gated | locked => trivial
  | unseeded => exact (hcounter _).trans h
  | seeded | inserted | counted | drawn =>
    simpa only [Known, Counted, hlast, hcounter] using h

theorem known_of_not_holds (h : ¬ place.Holds) : Known ledger db place := by
  cases place with
  | idle | submitted | gated => trivial
  | locked | unseeded | seeded | inserted | counted | drawn => exact absurd trivial h

end Known

theorem commitCreate_numbered {ledger : Uuid} {db db' : Db} {req : Request} {read : CreateRead}
    {seed : Option ℤ} {last : ℤ} (h : Numbered ledger db)
    (hcounted : Counted db ledger read seed last)
    (hcommit : commitCreate db req ledger read seed (wrapI32 (last + 1)) = .ok db') :
    Numbered ledger db' := by
  obtain ⟨hlast, hcounter⟩ := hcounted
  simp only [commitCreate, bind_eq_ok] at hcommit
  obtain ⟨db₁, hseed, db₂, hset, hinsert⟩ := hcommit
  -- The counter that is moved on, in the table or inserted.
  have hcounted : (∃ rows, db₁ = { db with invoiceSequences := rows }) ∧ ∀ y,
      counter db₁ ledger y =
        if y = read.invoiceDate.year then some last else counter db ledger y := by
    cases seed with
    | none =>
      cases hseed
      refine ⟨⟨db.invoiceSequences, rfl⟩, fun y => ?_⟩
      split
      · next hy => rw [hy, hcounter]
      · rfl
    | some seed =>
      obtain ⟨-, -, hrows, hafter⟩ := upsertSequence_ok hseed
      refine ⟨hrows, fun y => ?_⟩
      rw [hafter, hcounter.1, hcounter.2]
      simp
  obtain ⟨⟨rows, rfl⟩, hcounted⟩ := hcounted
  obtain ⟨⟨rows', rfl⟩, hpos, hset⟩ := setSequence_ok hset
  rw [hcounted, if_pos rfl] at hpos hset
  obtain ⟨⟨total, lines, rfl⟩, -⟩ := insertNumbered_ok hinsert
  have hpos := hpos rfl
  refine h.concat (i := { invoiceRow req ledger read _ with total := total }) rfl rfl hpos
    (by rw [h.last_eq hlast]; rfl) rfl rfl fun y => ?_
  show counter { db with invoiceSequences := rows' } ledger y =
    if y = read.invoiceDate.year then some (wrapI32 (last + 1)) else counter db ledger y
  rw [hset, hcounted]
  by_cases hy : y = read.invoiceDate.year
  · simp [hy]
  · simp [hy]

/-! ## Steps -/

section Steps

variable {ledger : Uuid} {n : ℕ} {s : Shared} {place : Place}

/-- What an action does. -/
inductive Acts (ledger : Uuid) (n : ℕ) (s : Shared) (place : Place) : Shared × Place → Prop
  /-- It reads, or leaves everything as it is. -/
  | reads {place' : Place} (holds : place'.Holds ↔ place.Holds) (known : Known ledger s.db place') :
      Acts ledger n s place (s, place')
  | locks {place' : Place} (free : s.holder = none) (holds : place'.Holds)
      (known : Known ledger s.db place') :
      Acts ledger n s place ({ s with holder := some n }, place')
  | ends : Acts ledger n s place (release n s, .idle)
  | voids (auth : Option Uuid) (invoice : Uuid) (form : VoidInvoiceForm) (idle : place = .idle) :
      Acts ledger n s place ({ s with db := (void s.db auth ledger invoice form).2 }, .idle)
  | commits {req : Request} {read : CreateRead} {seed : Option ℤ} {last : ℤ} {db : Db}
      (holds : place.Holds) (counted : Counted s.db ledger read seed last)
      (commit : commitCreate s.db req ledger read seed (wrapI32 (last + 1)) = .ok db) :
      Acts ledger n s place (release n { s with db := db }, .idle)

theorem acts_same (h : Backed ledger n place s) : Acts ledger n s place (s, place) :=
  .reads Iff.rfl h.known

/-- Every action has one of these outcomes. -/
theorem act_acts (h : Backed ledger n place s) (a : Action) :
    Acts ledger n s place (act ledger n s place a) := by
  have hknown := h.known
  cases a with
  | submit auth form =>
    cases place with
    | idle =>
      cases hread : readCreate s.db auth ledger form with
      | error e => simpa only [act, hread] using acts_same h
      | ok read =>
        simp only [act, hread]
        split
        · exact acts_same h
        · exact .reads Iff.rfl trivial
    | _ => exact acts_same h
  | gate =>
    cases place with
    | submitted read =>
      simp only [act]
      split <;> exact .reads Iff.rfl trivial
    | _ => exact acts_same h
  | lock =>
    cases place with
    | gated read =>
      simp only [act]
      split
      · next hfree => exact .locks hfree trivial trivial
      · exact acts_same h
    | _ => exact acts_same h
  | select =>
    cases place with
    | locked read =>
      simp only [act]
      split
      · next last hlast => exact .reads Iff.rfl ⟨by rw [lastNumber, hlast], hlast⟩
      · next hnone => exact .reads Iff.rfl hnone
    | _ => exact acts_same h
  | seed =>
    cases place with
    | unseeded read =>
      simp only [act]
      split
      · next suffix hsuffix =>
          refine .reads Iff.rfl ⟨?_, hknown, rfl⟩
          have hnone : counter s.db ledger read.invoiceDate.year = none := hknown
          simp only [lastNumber, hnone, hsuffix]
          rfl
      · exact .ends
    | _ => exact acts_same h
  | insert =>
    cases place with
    | seeded read seed => exact .reads Iff.rfl hknown
    | _ => exact acts_same h
  | reread =>
    cases place with
    | inserted read seed =>
      have hcounted : Counted s.db ledger read (some seed) seed := hknown
      refine .reads Iff.rfl ?_
      rw [hcounted.2.1]
      exact hcounted
    | _ => exact acts_same h
  | draw =>
    cases place with
    | counted read seed last => exact .reads Iff.rfl ⟨last, hknown, rfl⟩
    | _ => exact acts_same h
  | commit req =>
    cases place with
    | drawn read seed next =>
      obtain ⟨last, hcounted, rfl⟩ := hknown
      simp only [act]
      split
      · next db hcommit => exact .commits trivial hcounted hcommit
      · exact .ends
    | _ => exact acts_same h
  | abort => cases place <;> exact .ends
  | void auth invoice form =>
    cases place with
    | idle => exact .voids auth invoice form rfl
    | _ => exact acts_same h

theorem release_holder_self : ¬ (release n s).holder = some n := by
  simp only [release]
  split
  · simp
  · next hother => exact hother

theorem release_holder_other {m : ℕ} (hne : m ≠ n) :
    (release n s).holder = some m ↔ s.holder = some m := by
  simp only [release]
  split
  · next hown =>
      rw [hown]
      simp [hne.symm]
  · rfl

theorem backed_idle (h : ¬ s.holder = some n) : Backed ledger n .idle s :=
  ⟨⟨fun hown => absurd hown h, fun hidle => hidle.elim⟩, trivial⟩

theorem void_keeps (db : Db) (auth : Option Uuid) (ledger invoice : Uuid) (form : VoidInvoiceForm) :
    (∀ year, counter (void db auth ledger invoice form).2 ledger year = counter db ledger year) ∧
      ledgerNumbers (void db auth ledger invoice form).2 ledger = ledgerNumbers db ledger ∧
      (Numbered ledger db → Numbered ledger (void db auth ledger invoice form).2) := by
  rcases void_cases db auth ledger invoice form with hsame | ⟨reason, hvoid⟩
  · rw [hsame]
    exact ⟨fun _ => rfl, rfl, id⟩
  · rw [hvoid]
    exact ⟨fun _ => rfl, ledgerNumbers_markVoid db ledger invoice reason,
      fun h => h.markVoid invoice reason⟩

end Steps

/-- Who holds the lock knows the counter and the numbers, and nobody else writes them. -/
theorem outline (ledger : Uuid) :
    Threads.Outline (act ledger) (fun _ _ => True) (fun s => Numbered ledger s.db)
      (fun n place s => Backed ledger n place s) where
  sequential {s n a} hs _ := by
    have hown := hs.places n
    have hacts := act_acts hown a
    generalize act ledger n s.shared (s.place n) a = r at hacts ⊢
    cases hacts with
    | reads holds known => exact ⟨hs.inv, hown.lock.trans holds.symm, known⟩
    | locks free holds known => exact ⟨hs.inv, ⟨fun _ => holds, fun _ => rfl⟩, known⟩
    | ends => exact ⟨hs.inv, backed_idle release_holder_self⟩
    | voids auth invoice form idle =>
      refine ⟨(void_keeps s.shared.db auth ledger invoice form).2.2 hs.inv, backed_idle ?_⟩
      rw [hown.lock, idle]
      exact id
    | commits holds counted commit =>
      exact ⟨commitCreate_numbered hs.inv counted commit, backed_idle release_holder_self⟩
  stable {s n m a} hs _ hne := by
    have hown := hs.places n
    have hother := hs.places m
    have hacts := act_acts hown a
    generalize act ledger n s.shared (s.place n) a = r at hacts ⊢
    cases hacts with
    | reads => exact hother
    | locks free =>
      refine ⟨?_, hother.known⟩
      rw [← hother.lock, free]
      simp [hne.symm]
    | ends => exact ⟨(release_holder_other hne).trans hother.lock, hother.known⟩
    | voids auth invoice form =>
      obtain ⟨hcounter, hnumbers, -⟩ := void_keeps s.shared.db auth ledger invoice form
      exact ⟨hother.lock, hother.known.congr hcounter hnumbers⟩
    | commits holds =>
      -- Two creates do not hold the lock.
      have hwaits : ¬ (s.place m).Holds := by
        rw [← hother.lock, hown.lock.mpr holds]
        simp [hne.symm]
      refine ⟨?_, known_of_not_holds hwaits⟩
      rw [release_holder_other hne]
      exact hother.lock

/-! ## Runs -/

/-- Nothing is under way, and the ledger has no invoices and no counters. -/
structure Started (ledger : Uuid) (s : State) : Prop where
  idle : ∀ n, s.place n = .idle
  free : s.shared.holder = none
  fresh : Fresh ledger s.shared.db

theorem Started.numbered {ledger : Uuid} {s : State} (h : Started ledger s) :
    Numbered ledger s.shared.db := by
  have hempty : ∀ year, dated s.shared.db ledger year = [] := by
    intro year
    rw [dated, List.filter_eq_nil_iff]
    intro i hi
    simp [h.fresh.no_invoices i hi]
  have hnone : ∀ year, counter s.shared.db ledger year = none := by
    intro year
    rw [counter, Option.map_eq_none_iff, findSequence, List.find?_eq_none]
    intro r hr
    simp [h.fresh.no_counters r hr]
  refine ⟨fun year => ?_, fun year => ?_, fun year => ?_⟩
  · rw [hempty]
    rfl
  · rw [hnone, hempty]
    rfl
  · rw [hempty]
    decide

theorem Started.holds {ledger : Uuid} {s : State} (h : Started ledger s) :
    Threads.Holds (fun s => Numbered ledger s.db) (fun n place s => Backed ledger n place s) s := by
  refine ⟨h.numbered, fun n => ?_⟩
  rw [h.idle]
  exact backed_idle (by simp [h.free])

/-- In every state of every interleaving of creates with blank numbers and voids the numbers have no
gaps, and the gap report is right. -/
theorem gapless_of_started {ledger : Uuid} {s : State} (actions : List (ℕ × Action))
    (h : Started ledger s) :
    ∀ s' ∈ Runs.visited (step ledger) s actions, Gapless ledger s'.shared.db :=
  fun s' hmem =>
    ((outline ledger).holds h.holds (Runs.meets_of_forall fun _ _ => trivial) s' hmem).inv.gapless

namespace Sample

open OpenAccounting.Sample

def start : State where
  shared := { db := Invoices.Sample.start }
  place _ := .idle

theorem start_started : Started ledgerId start where
  idle _ := rfl
  free := rfl
  fresh := Invoices.Sample.start_fresh

/-- Two creates overlap, the first aborts when it has drawn its number, and the second one's invoice
is voided. -/
def overlapping : List (ℕ × Action) :=
  [(0, .submit (some owner) (Invoices.Sample.form none)),
    (1, .submit (some owner) (Invoices.Sample.form none)), (0, .gate), (1, .gate), (0, .lock),
    (1, .lock),
    (0, .select), (0, .seed), (0, .insert), (0, .reread), (0, .draw), (0, .abort), (1, .lock),
    (1, .select), (1, .seed), (1, .insert), (1, .reread), (1, .draw), (1, .commit (request 1)),
    (2, .void (some owner) ((request 1).rowId 0) { reason := "Sent to the wrong customer" })]

example : invoiceGapReport (Runs.exec (step ledgerId) start overlapping).shared.db ledgerId 2026 =
    ⟨["2026-0001"], ["2026-0001"], []⟩ := by
  decide +kernel

end Sample

theorem gapless_of_started_overlapping :
    Gapless Sample.ledgerId
      (Runs.exec (step Sample.ledgerId) Sample.start Sample.overlapping).shared.db :=
  gapless_of_started Sample.overlapping Sample.start_started _ (Runs.exec_mem_visited _ _)

end OpenAccounting.GaplessNumbers
