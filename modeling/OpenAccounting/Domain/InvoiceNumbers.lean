import OpenAccounting.Db.Statements
import OpenAccounting.Lib.SerialNumber
import OpenAccounting.Lib.SortedMap

/-!
# Invoice numbers

The numbering of `domain/close_controls.rs`.  A ledger has a counter for each year, a row of
`invoice_sequences`.  `nextInvoiceNumber` seeds it from the numbers there are when it is first used,
and `invoiceGapReport` reads the counters back from the numbers.
-/

namespace OpenAccounting

open Calendar Commit Relational Rounding

namespace CloseControls

def ledgerNumbers (db : Db) (ledger : Uuid) : List String :=
  (db.invoices.filter fun i => i.ledgerId = ledger).filterMap Invoice.invoiceNumber

def numbersLike (db : Db) (ledger : Uuid) (year : ℤ) : List String :=
  (ledgerNumbers db ledger).filter fun number =>
    (RustStr.stripPrefix (SerialNumber.start year) number).isSome

def findSequence (db : Db) (ledger : Uuid) (year : ℤ) : Option InvoiceSequence :=
  db.invoiceSequences.find? fun r => r.ledgerId = ledger ∧ r.year = year

/-- `SELECT MAX(substring(invoice_number from '-(\d+)$')::INT) …`.  Every suffix is cast. -/
def maxSuffix (db : Db) (ledger : Uuid) (year : ℤ) : Except SqlError (Option ℕ) := do
  let suffixes := (numbersLike db ledger year).filterMap SerialNumber.serial
  ensure (∀ n ∈ suffixes, FitsI32 n) .integerOutOfRange
  .ok suffixes.max?

/-- `INSERT INTO invoice_sequences …`, with what happens `ON CONFLICT (ledger_id, year)`. -/
def upsertSequence (db : Db) (ledger : Uuid) (year lastNo : ℤ) (onConflict : ℤ → ℤ) :
    Except SqlError Db := do
  ensure (db.HasLedger ledger) (.foreignKeyViolation "ledger_id")
  ensure (0 ≤ lastNo) (.checkViolation "invoice_sequences_last_no_check")
  .ok (if (findSequence db ledger year).isSome then
      { db with
        invoiceSequences := updateWhere (fun r => r.ledgerId = ledger ∧ r.year = year)
          (fun r => { r with lastNo := onConflict r.lastNo }) db.invoiceSequences }
    else
      { db with invoiceSequences := db.invoiceSequences ++ [⟨ledger, year, lastNo⟩] })

/-- `UPDATE invoice_sequences SET last_no = $3 …`. -/
def setSequence (db : Db) (ledger : Uuid) (year lastNo : ℤ) : Except SqlError Db := do
  ensure (∀ r ∈ db.invoiceSequences, r.ledgerId = ledger → r.year = year → 0 ≤ lastNo)
    (.checkViolation "invoice_sequences_last_no_check")
  .ok { db with
    invoiceSequences := updateWhere (fun r => r.ledgerId = ledger ∧ r.year = year)
      (fun r => { r with lastNo := lastNo }) db.invoiceSequences }

/-- The counter of the year, which is seeded on its first use. -/
def readSequence (db : Db) (ledger : Uuid) (year : ℤ) : Except SqlError (ℤ × Db) :=
  match findSequence db ledger year with
  | some r => .ok (r.lastNo, db)
  | none => do
    let suffix ← maxSuffix db ledger year
    let seed := (suffix.getD 0 : ℤ)
    let db ← upsertSequence db ledger year seed id
    .ok ((findSequence db ledger year).elim seed InvoiceSequence.lastNo, db)

/-- `next_invoice_number`.  The counter is an `i32` and wraps around. -/
def nextInvoiceNumber (db : Db) (ledger : Uuid) (year : ℤ) : Except SqlError (String × Db) := do
  let (last, db) ← readSequence db ledger year
  let last := wrapI32 (last + 1)
  let db ← setSequence db ledger year last
  .ok (SerialNumber.label 4 year last.toNat, db)

/-! ## The counters -/

section Counter

variable {db db' : Db} {ledger : Uuid} {year : ℤ}

def counter (db : Db) (ledger : Uuid) (year : ℤ) : Option ℤ :=
  (findSequence db ledger year).map InvoiceSequence.lastNo

/-- The key of a counter. -/
def sequenceKey (r : InvoiceSequence) : Uuid × ℤ := (r.ledgerId, r.year)

theorem findSequence_eq (db : Db) (ledger : Uuid) (year : ℤ) :
    findSequence db ledger year =
      db.invoiceSequences.find? fun r => sequenceKey r = (ledger, year) := by
  simp only [findSequence, sequenceKey, Prod.mk.injEq]

theorem counter_updateWhere {f : ℤ → ℤ}
    (h : db'.invoiceSequences = updateWhere (fun r => r.ledgerId = ledger ∧ r.year = year)
      (fun r => { r with lastNo := f r.lastNo }) db.invoiceSequences) (l : Uuid) (y : ℤ) :
    counter db' l y = if l = ledger ∧ y = year then (counter db l y).map f else counter db l y := by
  let write : InvoiceSequence → InvoiceSequence := fun r => { r with lastNo := f r.lastNo }
  have hfind : findSequence db' l y = (findSequence db l y).map
      fun r => if r.ledgerId = ledger ∧ r.year = year then write r else r := by
    rw [findSequence_eq, findSequence_eq, h]
    exact find?_updateWhere (f := write) fun _ => rfl
  rw [counter, counter, hfind]
  cases hrow : findSequence db l y with
  | none => simp
  | some r =>
    rw [findSequence_eq] at hrow
    have hkey := (mem_of_find?_key hrow).2
    simp only [sequenceKey, Prod.mk.injEq] at hkey
    simp only [Option.map_some, hkey.1, hkey.2]
    split <;> rfl

variable {last lastNo : ℤ}

theorem counter_concat (hnone : counter db ledger year = none)
    (h : db'.invoiceSequences = db.invoiceSequences ++ [⟨ledger, year, lastNo⟩]) (l : Uuid)
    (y : ℤ) :
    counter db' l y = if l = ledger ∧ y = year then some lastNo else counter db l y := by
  rw [counter, Option.map_eq_none_iff] at hnone
  have hfind : findSequence db' l y = (findSequence db l y).or
      (if l = ledger ∧ y = year then some ⟨ledger, year, lastNo⟩ else none) := by
    rw [findSequence, findSequence, h, List.find?_append]
    simp only [List.find?_cons, List.find?_nil]
    congr 1
    by_cases hkey : l = ledger ∧ y = year
    · simp [hkey]
    · have : ¬ (ledger = l ∧ year = y) := fun ⟨hl, hy⟩ => hkey ⟨hl.symm, hy.symm⟩
      simp [hkey, this]
  rw [counter, counter, hfind]
  split
  · next hkey =>
      rw [hkey.1, hkey.2, hnone]
      rfl
  · simp

theorem upsertSequence_ok {f : ℤ → ℤ} (h : upsertSequence db ledger year lastNo f = .ok db') :
    db.HasLedger ledger ∧ 0 ≤ lastNo ∧ (∃ rows, db' = { db with invoiceSequences := rows }) ∧
      ∀ l y, counter db' l y = if l = ledger ∧ y = year then
        some ((counter db ledger year).elim lastNo f) else counter db l y := by
  simp only [upsertSequence, bind_eq_ok, ensure_eq_ok] at h
  obtain ⟨-, hledger, -, hpos, h⟩ := h
  cases h
  refine ⟨hledger, hpos, ?_⟩
  split
  · next hsome =>
      refine ⟨⟨_, rfl⟩, fun l y => ?_⟩
      obtain ⟨r, hr⟩ := Option.isSome_iff_exists.mp hsome
      rw [counter_updateWhere rfl]
      split
      · next hkey =>
          rw [hkey.1, hkey.2, counter, hr]
          rfl
      · rfl
  · next hnone =>
      have hnone : counter db ledger year = none := by
        rw [counter, Option.map_eq_none_iff]
        simpa using hnone
      refine ⟨⟨_, rfl⟩, fun l y => ?_⟩
      rw [counter_concat hnone rfl, hnone]
      rfl

theorem upsertSequence_isOk (hledger : db.HasLedger ledger) (hpos : 0 ≤ lastNo) (f : ℤ → ℤ) :
    ∃ db', upsertSequence db ledger year lastNo f = .ok db' := by
  simp only [upsertSequence, ensure, if_pos hledger, if_pos hpos]
  exact ⟨_, rfl⟩

theorem setSequence_ok (h : setSequence db ledger year lastNo = .ok db') :
    (∃ rows, db' = { db with invoiceSequences := rows }) ∧
      ((counter db ledger year).isSome → 0 ≤ lastNo) ∧
      ∀ l y, counter db' l y = if l = ledger ∧ y = year then
        (counter db ledger year).map fun _ => lastNo else counter db l y := by
  simp only [setSequence, bind_eq_ok, ensure_eq_ok] at h
  obtain ⟨-, hpos, h⟩ := h
  cases h
  refine ⟨⟨_, rfl⟩, fun hsome => ?_, fun l y => ?_⟩
  · rw [counter, Option.isSome_map, Option.isSome_iff_exists] at hsome
    obtain ⟨r, hr⟩ := hsome
    rw [findSequence_eq] at hr
    obtain ⟨hmem, hkey⟩ := mem_of_find?_key hr
    simp only [sequenceKey, Prod.mk.injEq] at hkey
    exact hpos r hmem hkey.1 hkey.2
  · rw [counter_updateWhere (f := fun _ => lastNo) rfl]
    split
    · next hkey => rw [hkey.1, hkey.2]
    · rfl

theorem setSequence_isOk (hpos : 0 ≤ lastNo) (db : Db) (ledger : Uuid) (year : ℤ) :
    ∃ db', setSequence db ledger year lastNo = .ok db' := by
  have hcheck : ∀ r ∈ db.invoiceSequences, r.ledgerId = ledger → r.year = year → 0 ≤ lastNo :=
    fun _ _ _ _ => hpos
  simp only [setSequence, ensure, if_pos hcheck]
  exact ⟨_, rfl⟩

/-- The last number of the year: the counter, or its seed. -/
def lastNumber (db : Db) (ledger : Uuid) (year : ℤ) : Except SqlError ℤ :=
  match counter db ledger year with
  | some last => .ok last
  | none => do
    let suffix ← maxSuffix db ledger year
    .ok (suffix.getD 0 : ℤ)

theorem readSequence_ok (h : readSequence db ledger year = .ok (last, db')) :
    lastNumber db ledger year = .ok last ∧ (∃ rows, db' = { db with invoiceSequences := rows }) ∧
      ∀ l y, counter db' l y = if l = ledger ∧ y = year then some last else counter db l y := by
  rw [readSequence] at h
  split at h
  · next r hr =>
      cases h
      have hlast : counter db ledger year = some r.lastNo := by
        rw [counter, hr]
        rfl
      refine ⟨by rw [lastNumber, hlast], ⟨db.invoiceSequences, rfl⟩, fun l y => ?_⟩
      split
      · next hkey => rw [hkey.1, hkey.2, hlast]
      · rfl
  · next hr =>
      have hnone : counter db ledger year = none := by
        rw [counter, hr]
        rfl
      simp only [bind_eq_ok] at h
      obtain ⟨suffix, hsuffix, db₁, hupsert, h⟩ := h
      obtain ⟨-, -, hrows, hcounter⟩ := upsertSequence_ok hupsert
      have hseed : counter db₁ ledger year = some (suffix.getD 0 : ℤ) := by
        rw [hcounter, if_pos ⟨rfl, rfl⟩, hnone]
        rfl
      cases h
      have hlast : (findSequence db' ledger year).elim (suffix.getD 0 : ℤ) InvoiceSequence.lastNo =
          (suffix.getD 0 : ℤ) := by
        rw [counter, Option.map_eq_some_iff] at hseed
        obtain ⟨r, hr, hno⟩ := hseed
        rw [hr]
        exact hno
      rw [hlast]
      refine ⟨by simp [lastNumber, hnone, hsuffix, bind, Except.bind], hrows, fun l y => ?_⟩
      rw [hcounter, hnone]
      rfl

theorem readSequence_isOk (hledger : db.HasLedger ledger)
    (h : lastNumber db ledger year = .ok last) :
    ∃ db', readSequence db ledger year = .ok (last, db') := by
  rw [readSequence]
  cases hr : findSequence db ledger year with
  | some r =>
    simp only [lastNumber, counter, hr, Option.map_some] at h
    cases h
    exact ⟨db, rfl⟩
  | none =>
    simp only [lastNumber, counter, hr, Option.map_none, bind_eq_ok] at h
    obtain ⟨suffix, hsuffix, h⟩ := h
    cases h
    obtain ⟨db₁, hupsert⟩ : ∃ db₁,
        upsertSequence db ledger year (suffix.getD 0 : ℕ) id = .ok db₁ :=
      upsertSequence_isOk hledger (Int.natCast_nonneg _) id
    have hread : readSequence db ledger year = .ok
        ((findSequence db₁ ledger year).elim (suffix.getD 0 : ℤ) InvoiceSequence.lastNo,
          db₁) := by
      simp [readSequence, hr, hsuffix, hupsert, bind, Except.bind]
    obtain ⟨hlast, -⟩ := readSequence_ok hread
    simp only [lastNumber, counter, hr, Option.map_none, hsuffix, bind, Except.bind] at hlast
    refine ⟨db₁, ?_⟩
    simp only [hsuffix, hupsert, bind, Except.bind]
    rw [← Except.ok.inj hlast]

theorem nextInvoiceNumber_ok {number : String}
    (h : nextInvoiceNumber db ledger year = .ok (number, db')) :
    ∃ last, lastNumber db ledger year = .ok last ∧ 0 ≤ wrapI32 (last + 1) ∧
      number = SerialNumber.label 4 year (wrapI32 (last + 1)).toNat ∧
      (∃ rows, db' = { db with invoiceSequences := rows }) ∧
      ∀ l y, counter db' l y =
        if l = ledger ∧ y = year then some (wrapI32 (last + 1)) else counter db l y := by
  simp only [nextInvoiceNumber, bind_eq_ok] at h
  obtain ⟨⟨last, db₁⟩, hread, db₂, hset, h⟩ := h
  obtain ⟨hlast, ⟨rows, rfl⟩, hread⟩ := readSequence_ok hread
  obtain ⟨⟨rows', rfl⟩, hpos, hset⟩ := setSequence_ok hset
  cases h
  rw [hread, if_pos ⟨rfl, rfl⟩] at hpos hset
  refine ⟨last, hlast, hpos rfl, rfl, ⟨rows', rfl⟩, fun l y => ?_⟩
  rw [hset, hread]
  split <;> rfl

theorem nextInvoiceNumber_isOk (hledger : db.HasLedger ledger)
    (h : lastNumber db ledger year = .ok last) (hpos : 0 ≤ last) (hroom : last < 2 ^ 31 - 1) :
    ∃ db', nextInvoiceNumber db ledger year =
      .ok (SerialNumber.label 4 year (last + 1).toNat, db') := by
  obtain ⟨db₁, hread⟩ := readSequence_isOk hledger h
  have hwrap : wrapI32 (last + 1) = last + 1 := wrapI32_of_fits (by unfold FitsI32; omega)
  have hnext : 0 ≤ last + 1 := by omega
  obtain ⟨db₂, hset⟩ := setSequence_isOk hnext db₁ ledger year
  exact ⟨db₂, by simp [nextInvoiceNumber, hread, hwrap, hset, bind, Except.bind]⟩

/-- The last number is at least every counter of the year's numbers, if it is a seed. -/
theorem le_lastNumber (hnone : counter db ledger year = none)
    (h : lastNumber db ledger year = .ok last) {number : String}
    (hnumber : number ∈ numbersLike db ledger year) {n : ℕ}
    (hn : SerialNumber.serial number = some n) :
    (n : ℤ) ≤ last := by
  simp only [lastNumber, hnone, maxSuffix, bind_eq_ok] at h
  obtain ⟨suffix, ⟨-, -, hmax⟩, h⟩ := h
  cases h
  injection hmax with hmax
  have hmem : n ∈ (numbersLike db ledger year).filterMap SerialNumber.serial :=
    List.mem_filterMap.mpr ⟨number, hnumber, hn⟩
  cases suffix with
  | none => rw [List.max?_eq_none_iff.mp hmax] at hmem; cases hmem
  | some m =>
    have hle := (List.max?_eq_some_iff.mp hmax).2 n hmem
    exact_mod_cast hle

theorem lastNumber_nonneg (hcounter : ∀ n, counter db ledger year = some n → 0 ≤ n)
    (h : lastNumber db ledger year = .ok last) : 0 ≤ last := by
  rw [lastNumber] at h
  split at h
  · next n hn =>
      cases h
      exact hcounter _ hn
  · rw [bind_eq_ok] at h
    obtain ⟨suffix, -, h⟩ := h
    cases h
    exact Int.natCast_nonneg _

end Counter

/-! ## The gap report -/

/-- `suffix.parse::<i32>()` of a number of the year. -/
def suffixOf (year : ℤ) (number : String) : Option ℤ :=
  ((RustStr.stripPrefix (SerialNumber.start year) number).bind RustStr.parseInt).filter fun n =>
    FitsI32 n

theorem suffixOf_eq_some {year n : ℤ} {number : String} :
    suffixOf year number = some n ↔
      ∃ rest, number = SerialNumber.start year ++ rest ∧ RustStr.parseInt rest = some n ∧
        FitsI32 n := by
  simp only [suffixOf, Option.filter_eq_some_iff, Option.bind_eq_some_iff,
    RustStr.stripPrefix_eq_some, decide_eq_true_iff]
  constructor
  · rintro ⟨⟨rest, hrest, hn⟩, hfits⟩
    exact ⟨rest, hrest, hn, hfits⟩
  · rintro ⟨rest, hrest, hn, hfits⟩
    exact ⟨⟨rest, hrest, hn⟩, hfits⟩

def numbered (db : Db) (ledger : Uuid) (year : ℤ) : List (ℤ × String × InvoiceStatus) :=
  ((db.invoices.filter fun i => i.ledgerId = ledger).filterMap fun i =>
    i.invoiceNumber.bind fun number => (suffixOf year number).map fun n => (n, number, i.status))

/-- `invoice_gap_report`. -/
structure GapReport where
  allocated : List String
  void : List String
  missing : List String
deriving DecidableEq

def invoiceGapReport (db : Db) (ledger : Uuid) (year : ℤ) : GapReport :=
  let rows := numbered db ledger year
  let used := SortedMap.ofEntries (rows.map fun r => (r.1, r.2.1))
  let max := (used.getLast?.map Prod.fst).getD 0
  { allocated := used.map Prod.snd
    void := (rows.filter fun r => r.2.2 = .void).map fun r => r.2.1
    missing := (((List.range max.toNat).map Nat.succ).filter fun n : ℕ =>
      (n : ℤ) ∉ used.map Prod.fst).map (SerialNumber.label 4 year) }

end CloseControls

end OpenAccounting
