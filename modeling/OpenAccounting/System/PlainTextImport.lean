import OpenAccounting.Import.Pta
import OpenAccounting.System.JournalOps

/-!
# Dry runs of the plain-text import

The plan of an entry is the same in a dry run, so the two reports differ in the entries that cannot
be written.  `truthful_iff` says that a dry run tells the truth exactly when every planned entry can
be.
-/

namespace OpenAccounting.Import.Pta

open Commit

/-! ## Two reports -/

def isInsertError (e : ℕ × EntryError) : Bool :=
  match e.2 with
  | .insert _ => true
  | .unknownAccounts _ | .unbalanced _ => false

/-- The lines that start with `insert:`. -/
def insertLines (r : ImportReport) : List String :=
  r.planned.filter fun line => "insert: ".toList.isPrefixOf line.toList

/-- The report of a dry run beside that of the run: of the planned entries some have been inserted, and
the others are errors. -/
structure Agree (dry wet : ImportReport) : Prop where
  errors : dry.errors = wet.errors.filter fun e => ! isInsertError e
  lines : (insertLines dry).length = wet.inserted + (wet.errors.filter isInsertError).length

/-- No entry has failed at its insertion. -/
def Clean (r : ImportReport) : Prop := ∀ e ∈ r.errors, isInsertError e = false

section

variable {c : Context} {req : Request} {n : ℕ} {r r' : ImportReport} {db db' : Db} {t : PtaTxn}
  {ts : List PtaTxn}

theorem insertLines_plan (r : ImportReport) (t : PtaTxn) :
    (insertLines (r.plan t)).length = (insertLines r).length + 1 := by
  have hline : "insert: ".toList.isPrefixOf ("insert: " ++ describe t).toList = true := by
    simp
  rw [insertLines, ImportReport.plan, List.filter_append]
  simp only [List.filter_cons, hline]
  simp [insertLines]

theorem insertLines_skip (r : ImportReport) (t : PtaTxn) :
    insertLines (r.skip t) = insertLines r := by
  have hline : "insert: ".toList.isPrefixOf ("skip (duplicate): " ++ describe t).toList = false := by
    simp [List.isPrefixOf]
  rw [insertLines, ImportReport.skip, List.filter_append]
  simp only [List.filter_cons, hline]
  simp [insertLines]

theorem Agree.refuse (h : Agree r r') {e : ℕ × EntryError} (he : isInsertError e = false) :
    Agree (r.error e.1 e.2) (r'.error e.1 e.2) where
  errors := by simp [ImportReport.error, h.errors, he]
  lines := by simpa [ImportReport.error, insertLines, he] using h.lines

theorem Agree.skip (h : Agree r r') (t : PtaTxn) : Agree (r.skip t) (r'.skip t) where
  errors := h.errors
  lines := by
    rw [insertLines_skip]
    exact h.lines

theorem Agree.insert (h : Agree r r') (t : PtaTxn) : Agree (r.plan t) (r'.insert t) where
  errors := h.errors
  lines := by
    rw [insertLines_plan, h.lines]
    show _ = r'.inserted + 1 + _
    exact Nat.add_right_comm _ _ _

theorem Agree.fail (h : Agree r r') (t : PtaTxn) (n : ℕ) (e : InsertError) :
    Agree (r.plan t) (r'.error n (.insert e)) where
  errors := by simp [ImportReport.plan, ImportReport.error, h.errors, isInsertError]
  lines := by
    rw [insertLines_plan, h.lines]
    simp only [ImportReport.error, List.filter_append, List.length_append, ← Nat.add_assoc]
    rfl

theorem turn_agree (h : Agree r r') :
    Agree (turn c req true n (r, db) t).1 (turn c req false n (r', db') t).1 := by
  cases hplan : planOf c.d c.accounts c.existing t with
  | unknownAccounts names =>
    simp only [turn, hplan]
    exact h.refuse (e := (n + 1, .unknownAccounts names)) rfl
  | unbalanced net =>
    simp only [turn, hplan]
    exact h.refuse (e := (n + 1, .unbalanced net)) rfl
  | duplicate =>
    simp only [turn, hplan]
    exact h.skip t
  | insert resolved =>
    cases hinsert : insertTxn db' req n c.ledger c.actor t resolved with
    | mk result db₁ =>
      cases result with
      | ok u =>
        simp only [turn, hplan, hinsert]
        exact h.insert t
      | error e =>
        simp only [turn, hplan, hinsert]
        exact h.fail t (n + 1) e

theorem loop_agree (ts : List PtaTxn) :
    ∀ {n : ℕ} {s s' : ImportReport × Db}, Agree s.1 s'.1 →
      Agree (loop c req true n s ts).1 (loop c req false n s' ts).1 := by
  induction ts with
  | nil => exact fun h => h
  | cons t ts ih => exact fun h => ih (turn_agree h)

/-- The reports say the same exactly when no entry has failed at its insertion. -/
theorem Agree.same_iff (h : Agree r r') :
    ((insertLines r).length = r'.inserted ∧ r.errors = r'.errors) ↔ Clean r' := by
  constructor
  · rintro ⟨-, herrors⟩ e he
    have hmem : e ∈ r'.errors.filter fun e => ! isInsertError e := by
      rw [← h.errors, herrors]
      exact he
    simpa using (List.mem_filter.mp hmem).2
  · intro hclean
    have hnone : r'.errors.filter isInsertError = [] :=
      List.filter_eq_nil_iff.mpr fun e he => by simp [hclean e he]
    have hall : (r'.errors.filter fun e => ! isInsertError e) = r'.errors :=
      List.filter_eq_self.mpr fun e he => by simp [hclean e he]
    exact ⟨by rw [h.lines, hnone]; rfl, by rw [h.errors, hall]⟩

/-! ## The entries that are written -/

/-- The planned entries from index `n` on, with their index and their resolved postings. -/
def planned (c : Context) : ℕ → List PtaTxn → List (ℕ × PtaTxn × List (Uuid × PtaPosting))
  | _, [] => []
  | n, t :: ts =>
    match planOf c.d c.accounts c.existing t with
    | .insert resolved => (n, t, resolved) :: planned c (n + 1) ts
    | .unknownAccounts _ | .unbalanced _ | .duplicate => planned c (n + 1) ts

/-- The planned entries, written one after another. -/
def writeAll (c : Context) (req : Request) :
    Db → List (ℕ × PtaTxn × List (Uuid × PtaPosting)) → Except InsertError Db
  | db, [] => .ok db
  | db, (n, t, resolved) :: xs =>
    match insertTxn db req n c.ledger c.actor t resolved with
    | (.ok (), db) => writeAll c req db xs
    | (.error e, _) => .error e

theorem turn_errors (s : ImportReport × Db) : s.1.errors ⊆ (turn c req false n s t).1.errors := by
  cases hplan : planOf c.d c.accounts c.existing t with
  | unknownAccounts names => simp [turn, hplan, ImportReport.error]
  | unbalanced net => simp [turn, hplan, ImportReport.error]
  | duplicate => simp [turn, hplan, ImportReport.skip]
  | insert resolved =>
    cases hinsert : insertTxn s.2 req n c.ledger c.actor t resolved with
    | mk result db₁ =>
      cases result with
      | ok u => simp [turn, hplan, hinsert, ImportReport.insert]
      | error e => simp [turn, hplan, hinsert, ImportReport.error]

theorem loop_errors (ts : List PtaTxn) :
    ∀ {n : ℕ} {s : ImportReport × Db}, s.1.errors ⊆ (loop c req false n s ts).1.errors := by
  induction ts with
  | nil => exact fun {_ _} => List.Subset.refl _
  | cons t ts ih => exact fun {_ s} => List.Subset.trans (turn_errors s) ih

/-- If all planned entries can be written, the loop writes them and its report is clean, and otherwise
it is not. -/
theorem loop_clean (ts : List PtaTxn) :
    ∀ {n : ℕ} {r : ImportReport} {db : Db}, Clean r →
      match writeAll c req db (planned c n ts) with
      | .ok db' => Clean (loop c req false n (r, db) ts).1 ∧
          (loop c req false n (r, db) ts).2 = db' ∧
          (loop c req false n (r, db) ts).1.inserted = r.inserted + (planned c n ts).length
      | .error _ => ¬ Clean (loop c req false n (r, db) ts).1 := by
  induction ts with
  | nil => exact fun h => ⟨h, rfl, rfl⟩
  | cons t ts ih =>
    intro n r db hclean
    have hrefuse : ∀ e : ℕ × EntryError, isInsertError e = false → Clean (r.error e.1 e.2) := by
      intro e he x hx
      rcases List.mem_append.mp hx with hx | hx
      · exact hclean x hx
      · rw [List.mem_singleton.mp hx]
        exact he
    rw [loop]
    cases hplan : planOf c.d c.accounts c.existing t with
    | unknownAccounts names =>
      simp only [turn, planned, hplan]
      exact ih (hrefuse (n + 1, .unknownAccounts names) rfl)
    | unbalanced net =>
      simp only [turn, planned, hplan]
      exact ih (hrefuse (n + 1, .unbalanced net) rfl)
    | duplicate =>
      simp only [turn, planned, hplan]
      exact @ih _ (r.skip t) _ hclean
    | insert resolved =>
      cases hinsert : insertTxn db req n c.ledger c.actor t resolved with
      | mk result db₁ =>
        cases result with
        | ok u =>
          simp only [turn, planned, hplan, writeAll, hinsert, List.length_cons]
          have hrest := @ih (n + 1) (r.insert t) db₁ hclean
          split at hrest
          · next db' hwrite =>
              refine ⟨hrest.1, hrest.2.1, hrest.2.2.trans ?_⟩
              show r.inserted + 1 + _ = _
              omega
          · exact hrest
        | error e =>
          simp only [turn, planned, hplan, writeAll, hinsert]
          intro h
          have hmem : (n + 1, EntryError.insert e) ∈
              (r.error (n + 1) (.insert e)).errors := by simp [ImportReport.error]
          exact absurd (h _ (loop_errors ts hmem)) (by simp [isInsertError])

/-- The report of a run is clean exactly when all planned entries can be written. -/
theorem clean_loop_iff (ts : List PtaTxn) :
    Clean (loop c req false 0 ({}, db) ts).1 ↔
      ∃ db', writeAll c req db (planned c 0 ts) = .ok db' := by
  have h := @loop_clean c req ts 0 {} db (by simp [Clean])
  split at h
  · next db' hwrite => exact ⟨fun _ => ⟨db', hwrite⟩, fun _ => h.1⟩
  · next e hwrite => exact ⟨fun hclean => absurd hclean h, fun ⟨db', hok⟩ => by cases hwrite ▸ hok⟩

theorem writeAll_of_clean {ts : List PtaTxn} (h : loop c req false 0 ({}, db) ts = (r, db'))
    (hclean : Clean r) :
    writeAll c req db (planned c 0 ts) = .ok db' ∧ r.inserted = (planned c 0 ts).length := by
  have hrun := @loop_clean c req ts 0 {} db (by simp [Clean])
  rw [h] at hrun
  split at hrun
  · next db₁ hwrite =>
      obtain ⟨-, hdb, hinserted⟩ := hrun
      rw [hwrite, ← hdb]
      exact ⟨rfl, by simpa using hinserted⟩
  · exact absurd hclean hrun

/-! ## What lets them be written -/

variable {resolved : List (Uuid × PtaPosting)}

theorem insertTxn_ok_iff :
    insertTxn db req n c.ledger c.actor t resolved = (.ok (), db') ↔
      ¬ YearClosed db c.ledger.id t.date.year ∧ Storable t ∧
        db.insertEntry (txnRow req n c.ledger c.actor t) (postingRows req n resolved) = .ok db' := by
  simp only [insertTxn, commit_eq_ok, bind_eq_ok, ensure_eq_ok, mapError_eq_ok]
  constructor
  · rintro ⟨-, hopen, -, hstorable, db₁, hinsert, h⟩
    cases h
    exact ⟨hopen, hstorable, hinsert⟩
  · rintro ⟨hopen, hstorable, hinsert⟩
    exact ⟨(), hopen, (), hstorable, db', hinsert, rfl⟩

/-- The rows of a planned entry. -/
def entryRows (c : Context) (req : Request) (x : ℕ × PtaTxn × List (Uuid × PtaPosting)) :
    Transaction × List PostingRow :=
  (txnRow req x.1 c.ledger c.actor x.2.1, postingRows req x.1 x.2.2)

theorem txnRow_plain (req : Request) (n : ℕ) (ledger : Ledger) (actor : Uuid) (t : PtaTxn) :
    (txnRow req n ledger actor t).Plain := ⟨rfl, rfl, rfl⟩

theorem postingRows_owned {req : Request} {n : ℕ} :
    ∀ r ∈ postingRows req n resolved, r.transactionId = req.txnId n := by
  intro r hr
  obtain ⟨x, -, rfl⟩ := List.mem_map.mp hr
  rfl

/-- Nothing is in the way of these entries: their years are open, their texts and dates can be
stored, and so can their rows. -/
structure Writable (c : Context) (req : Request) (db : Db)
    (xs : List (ℕ × PtaTxn × List (Uuid × PtaPosting))) : Prop where
  years : ∀ x ∈ xs, ¬ YearClosed db c.ledger.id x.2.1.date.year
  storable : ∀ x ∈ xs, Storable x.2.1
  rows : db.EntriesInsertable (xs.map (entryRows c req))

theorem closedPeriods_insertTxn
    (h : insertTxn db req n c.ledger c.actor t resolved = (.ok (), db')) :
    db'.closedPeriods = db.closedPeriods := by
  obtain ⟨-, -, hinsert⟩ := insertTxn_ok_iff.mp h
  obtain ⟨-, b', ps, rfl, -, -, -⟩ := Db.insertEntry_spec postingRows_owned hinsert
  rfl

/-- The planned entries are written exactly if each can be, behind those before it. -/
theorem writeAll_ok_iff (xs : List (ℕ × PtaTxn × List (Uuid × PtaPosting))) :
    ∀ {db : Db}, (∃ db', writeAll c req db xs = .ok db') ↔ Writable c req db xs := by
  induction xs with
  | nil =>
    intro db
    exact ⟨fun _ => ⟨by simp, by simp, Db.entriesInsertable_nil⟩, fun _ => ⟨db, rfl⟩⟩
  | cons x xs ih =>
    intro db
    obtain ⟨n, t, resolved⟩ := x
    constructor
    · rintro ⟨db', h⟩
      rw [writeAll] at h
      split at h
      · next db₁ hinsert =>
          obtain ⟨hyears, hstorable, hrows⟩ := ih.mp ⟨db', h⟩
          obtain ⟨hopen, hstore, hentry⟩ := insertTxn_ok_iff.mp hinsert
          have hyears' : ∀ x ∈ xs, ¬ YearClosed db c.ledger.id x.2.1.date.year := by
            simpa only [YearClosed, closedPeriods_insertTxn hinsert] using hyears
          exact ⟨List.forall_mem_cons.mpr ⟨hopen, hyears'⟩,
            List.forall_mem_cons.mpr ⟨hstore, hstorable⟩,
            (Db.entriesInsertable_cons postingRows_owned hentry).mpr hrows⟩
      · cases h
    · intro h
      obtain ⟨hopen, hyears⟩ := List.forall_mem_cons.mp h.years
      obtain ⟨hstore, hstorable⟩ := List.forall_mem_cons.mp h.storable
      obtain ⟨db₁, hentry⟩ := h.rows.head (txnRow_plain ..) postingRows_owned
      have hinsert : insertTxn db req n c.ledger c.actor t resolved = (.ok (), db₁) :=
        insertTxn_ok_iff.mpr ⟨hopen, hstore, hentry⟩
      have hyears' : ∀ x ∈ xs, ¬ YearClosed db₁ c.ledger.id x.2.1.date.year := by
        simpa only [YearClosed, closedPeriods_insertTxn hinsert] using hyears
      rw [writeAll, hinsert]
      exact ih.mpr ⟨hyears', hstorable,
        (Db.entriesInsertable_cons postingRows_owned hentry).mp h.rows⟩

end

/-! ## Dry runs -/

/-- A dry run announces what the run inserts, and both give the same errors. -/
def Truthful : Except ImportError ImportReport → Except ImportError ImportReport → Prop
  | .ok dry, .ok wet => (insertLines dry).length = wet.inserted ∧ dry.errors = wet.errors
  | .error e, .error e' => e = e'
  | .ok _, .error _ | .error _, .ok _ => False

instance (dry wet : Except ImportError ImportReport) : Decidable (Truthful dry wet) :=
  match dry, wet with
  | .ok _, .ok _ => inferInstanceAs (Decidable (_ ∧ _))
  | .error e, .error e' => inferInstanceAs (Decidable (e = e'))
  | .ok _, .error _ | .error _, .ok _ => inferInstanceAs (Decidable False)

theorem importText_of_parse {lib : Libraries} {d : Decimal.Arith} {db : Db} {req : Request}
    {ledgerId actor : Uuid} {format : PtaFormat} {input : String} {dryRun : Bool}
    {txns : List PtaTxn} {ledger : Ledger} (hparse : parse lib format input = .ok txns)
    (hledger : db.findLedger ledgerId = some ledger) :
    importText lib d db req ledgerId actor format input dryRun =
      (.ok (loop (contextOf d db ledgerId actor ledger) req dryRun 0 ({ dryRun := dryRun }, db)
          txns).1,
        (loop (contextOf d db ledgerId actor ledger) req dryRun 0 ({ dryRun := dryRun }, db)
          txns).2) := by
  rw [importText, hparse, hledger]

/-- A dry run tells the truth exactly when nothing is in the way of the planned entries.  A text that
cannot be read and a ledger that does not exist are refused by both runs. -/
theorem truthful_iff (lib : Libraries) (d : Decimal.Arith) (db : Db) (req : Request)
    (ledgerId actor : Uuid) (format : PtaFormat) (input : String) :
    Truthful (importText lib d db req ledgerId actor format input true).1
        (importText lib d db req ledgerId actor format input false).1 ↔
      ∀ txns ledger, parse lib format input = .ok txns → db.findLedger ledgerId = some ledger →
        Writable (contextOf d db ledgerId actor ledger) req db
          (planned (contextOf d db ledgerId actor ledger) 0 txns) := by
  cases hparse : parse lib format input with
  | error e => simp [importText, hparse, Truthful]
  | ok txns =>
    cases hledger : db.findLedger ledgerId with
    | none => simp [importText, hparse, hledger, Truthful]
    | some ledger =>
      have hagree := @loop_agree (contextOf d db ledgerId actor ledger) req txns 0
        ({ dryRun := true }, db) ({}, db) ⟨rfl, rfl⟩
      rw [importText_of_parse hparse hledger, importText_of_parse hparse hledger, Truthful,
        hagree.same_iff, clean_loop_iff, writeAll_ok_iff]
      constructor
      · intro h txns' ledger' htxns hledger'
        cases htxns
        cases hledger'
        exact h
      · intro h
        exact h txns ledger rfl rfl

namespace Sample

open OpenAccounting.Sample

/-- A cash sale on 10 March as beancount has it. -/
def saleText (amount : String) : String :=
  "2026-03-10 * \"Sale\"\n  Cash_on_Hand  " ++ amount ++ " USD\n  Sales  -" ++ amount ++ " USD\n"

def saleTxn (amount : ℚ) : PtaTxn where
  date := march 10
  description := "Sale"
  postings := [{ accountName := "Cash_on_Hand", amount := amount, direction := .debit },
    { accountName := "Sales", amount := amount, direction := .credit }]

-- To evaluate the text is slow, so it is cut as a list of characters.
theorem lines_saleText : RustStr.lines (saleText "10") =
    ["2026-03-10 * \"Sale\"", "  Cash_on_Hand  10 USD", "  Sales  -10 USD"] := by
  delta saleText RustStr.lines
  iterate 4 rw [String.toList_append]
  iterate 4 rw [String.toList_ofList]
  rfl

theorem parse_saleText : parse plainLibraries .beancount (saleText "10") = .ok [saleTxn 10] := by
  rw [parse, Beancount.parse, lines_saleText]
  decide +kernel

/-- The import of the sale into a ledger whose year is closed. -/
def closedYear (dryRun : Bool) : Except ImportError ImportReport :=
  (importText plainLibraries Decimal.nearest
    { db with closedPeriods := [{ ledgerId := ledgerId, periodYear := 2026, closedThrough := none }] }
    (request 1) ledgerId owner .beancount (saleText "10") dryRun).1

end Sample

/-- The dry run announces the sale, and the run refuses it. -/
theorem closedYear_not_truthful :
    Sample.closedYear true =
        .ok { dryRun := true, planned := ["insert: 2026-03-10  Sale (2 postings)"] } ∧
      Sample.closedYear false = .ok { errors := [(1, .insert (.closed 2026))] } ∧
      ¬ Truthful (Sample.closedYear true) (Sample.closedYear false) := by
  rw [Sample.closedYear, Sample.closedYear, importText_of_parse Sample.parse_saleText rfl,
    importText_of_parse Sample.parse_saleText rfl]
  decide +kernel

end OpenAccounting.Import.Pta
