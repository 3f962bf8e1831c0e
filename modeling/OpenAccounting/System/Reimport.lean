import OpenAccounting.System.PlainTextImport

/-!
# Importing a text twice

An entry of the text is known again by its fingerprint.  That of the text has the amounts as they are
written there, and that of the ledger the amounts of the column, with four decimals.  It does not
have the accounts.

`reimport_iff` puts together when an import and its repetition do what they should: the new entries
are found again under the fingerprints they were written with, and an entry that is skipped is in
the ledger.
-/

namespace OpenAccounting.Import.Pta

open Calendar Commit Rounding

/-! ## What a ledger contains -/

/-- A transaction without its id. -/
structure Entry where
  date : NaiveDate
  description : String
  payee : Option String
  legs : List (Uuid × ℚ × Direction)
deriving DecidableEq

/-- The fingerprint of a transaction.  Without legs it has none. -/
def Entry.fingerprint (e : Entry) : Option Fingerprint :=
  if e.legs = [] then none
  else some (e.date, e.description, e.payee.getD "", (e.legs.map fun leg => leg.2.1).sum)

def legOf (p : Posting) : Uuid × ℚ × Direction := (p.accountId, p.amount, p.direction)

def entryOf (b : Books) (t : Transaction) : Entry where
  date := t.txnDate
  description := t.description
  payee := t.payee
  legs := (b.postingsOf t.id).map legOf

def entries (db : Db) (ledger : Uuid) : List Entry :=
  (db.books.transactions.filter fun t => t.ledgerId = ledger).map (entryOf db.books)

/-- The transaction that an entry of the text becomes. -/
def storedEntry (t : PtaTxn) (resolved : List (Uuid × PtaPosting)) : Entry where
  date := t.date
  description := t.description
  payee := t.payee.filter fun payee => payee ≠ ""
  legs := resolved.map fun x => (x.1, roundDp 4 x.2.amount, x.2.direction)

theorem existingFingerprints_eq (db : Db) (ledger : Uuid) :
    existingFingerprints db ledger = (entries db ledger).filterMap Entry.fingerprint := by
  rw [existingFingerprints, entries, List.filterMap_map]
  refine List.filterMap_congr fun t _ => ?_
  simp only [Function.comp, Entry.fingerprint, entryOf, List.map_eq_nil_iff, List.map_map]
  rfl

section

variable {c : Context} {req : Request} {n : ℕ} {db db' : Db} {t : PtaTxn}
  {resolved : List (Uuid × PtaPosting)}

theorem legs_stored {rows : List PostingRow} {ps : List Posting}
    (h : List.Forall₂ PostingRow.Stored rows ps) :
    ps.map legOf = rows.map fun r => (r.accountId, roundDp 4 r.amount, r.direction) := by
  induction h with
  | nil => rfl
  | cons hr _ ih =>
    rw [List.map_cons, List.map_cons, ih, legOf, hr.accountId, hr.amount, hr.direction]

theorem legs_postingRows (req : Request) (n : ℕ) (t : PtaTxn) (resolved : List (Uuid × PtaPosting)) :
    ((postingRows req n resolved).map fun r => (r.accountId, roundDp 4 r.amount, r.direction)) =
      (storedEntry t resolved).legs := by
  have hsplit : (resolved.zipIdx.map fun r => (r.1.1, roundDp 4 r.1.2.amount, r.1.2.direction)) =
      (resolved.zipIdx.map Prod.fst).map fun x => (x.1, roundDp 4 x.2.amount, x.2.direction) := by
    rw [List.map_map]
    rfl
  rw [postingRows, List.map_map]
  show (resolved.zipIdx.map fun r => (r.1.1, roundDp 4 r.1.2.amount, r.1.2.direction)) = _
  rw [hsplit, List.zipIdx_map_fst]
  rfl

theorem entries_insertTxn
    (h : insertTxn db req n c.ledger c.actor t resolved = (.ok (), db')) :
    entries db' c.ledger.id = entries db c.ledger.id ++ [storedEntry t resolved] := by
  obtain ⟨-, -, hinsert⟩ := insertTxn_ok_iff.mp h
  obtain ⟨-, b', ps, rfl, hposts, hstored, -⟩ := Db.insertEntry_spec postingRows_owned hinsert
  have hold : ∀ s ∈ db.books.transactions, entryOf b' s = entryOf db.books s := by
    intro s hs
    rw [entryOf, hposts.postingsOf_of_ne (hposts.ne_of_mem hs), entryOf]
  have hnew : entryOf b' (txnRow req n c.ledger c.actor t) = storedEntry t resolved := by
    rw [entryOf, hposts.postingsOf_self, legs_stored hstored, legs_postingRows req n t]
    rfl
  show (b'.transactions.filter _).map (entryOf b') = _
  rw [hposts.transactions, List.filter_append, List.map_append]
  congr 1
  · exact List.map_congr_left fun s hs => hold s (List.mem_filter.mp hs).1
  · rw [List.filter_cons_of_pos (by simp [txnRow]), List.filter_nil, List.map_singleton, hnew]

/-- A run changes the transactions and their postings only. -/
structure SameChart (db db' : Db) : Prop where
  ledgers : db'.ledgers = db.ledgers
  accounts : db'.books.accounts = db.books.accounts

theorem sameChart_insertTxn
    (h : insertTxn db req n c.ledger c.actor t resolved = (.ok (), db')) : SameChart db db' := by
  obtain ⟨-, -, hinsert⟩ := insertTxn_ok_iff.mp h
  obtain ⟨-, b', ps, rfl, hposts, -, -⟩ := Db.insertEntry_spec postingRows_owned hinsert
  exact ⟨rfl, hposts.accounts⟩

/-- The planned entries are stored one behind the other. -/
theorem writeAll_spec (xs : List (ℕ × PtaTxn × List (Uuid × PtaPosting))) :
    ∀ {db : Db}, writeAll c req db xs = .ok db' →
      SameChart db db' ∧ entries db' c.ledger.id =
        entries db c.ledger.id ++ xs.map fun x => storedEntry x.2.1 x.2.2 := by
  induction xs with
  | nil =>
    intro db h
    cases h
    exact ⟨⟨rfl, rfl⟩, by simp⟩
  | cons x xs ih =>
    intro db h
    obtain ⟨n, t, resolved⟩ := x
    rw [writeAll] at h
    split at h
    · next db₁ hinsert =>
        obtain ⟨hchart, hentries⟩ := ih h
        have hfirst := sameChart_insertTxn hinsert
        refine ⟨⟨hchart.ledgers.trans hfirst.ledgers, hchart.accounts.trans hfirst.accounts⟩, ?_⟩
        rw [hentries, entries_insertTxn hinsert, List.map_cons, List.append_assoc]
        rfl
    · cases h

end

/-! ## The entries of a text -/

/-- The entries whose accounts are known and whose postings balance. -/
def importable (d : Decimal.Arith) (accounts : List (Uuid × String)) (txns : List PtaTxn) :
    List PtaTxn :=
  txns.filter fun t => unresolved accounts t = [] ∧ signedSum d t = 0

/-- What the importer makes of an entry. -/
def toEntry (accounts : List (Uuid × String)) (t : PtaTxn) : Entry :=
  storedEntry t (resolve accounts t)

/-- Those that the ledger has no fingerprint for. -/
def newEntries (d : Decimal.Arith) (db : Db) (ledger : Uuid) (txns : List PtaTxn) : List PtaTxn :=
  (importable d (accountNames db ledger) txns).filter fun t =>
    fingerprint d t ∉ existingFingerprints db ledger

theorem map_planned {c : Context} (ts : List PtaTxn) : ∀ n : ℕ,
    ((planned c n ts).map fun x => storedEntry x.2.1 x.2.2) =
      ((importable c.d c.accounts ts).filter fun t => fingerprint c.d t ∉ c.existing).map
        (toEntry c.accounts) := by
  induction ts with
  | nil => exact fun _ => rfl
  | cons t ts ih =>
    intro n
    rw [planned, importable, List.filter_cons]
    by_cases hknown : unresolved c.accounts t = []
    · by_cases hzero : signedSum c.d t = 0
      · by_cases hdup : fingerprint c.d t ∈ c.existing
        · simp [planOf, hknown, hzero, hdup, ih, importable]
        · simp [planOf, hknown, hzero, hdup, ih, importable, toEntry]
      · simp [planOf, hknown, hzero, ih, importable]
    · simp [planOf, hknown, ih, importable]

section

variable {lib : Libraries} {d : Decimal.Arith} {db db' : Db} {req : Request} {ledgerId actor : Uuid}
  {format : PtaFormat} {input : String} {txns : List PtaTxn} {r : ImportReport}

theorem importText_eq_ok (hparse : parse lib format input = .ok txns)
    (h : importText lib d db req ledgerId actor format input false = (.ok r, db')) :
    ∃ ledger, db.findLedger ledgerId = some ledger ∧ ledger.id = ledgerId ∧
      loop (contextOf d db ledgerId actor ledger) req false 0 ({}, db) txns = (r, db') := by
  rw [importText, hparse] at h
  cases hledger : db.findLedger ledgerId with
  | none =>
    rw [hledger] at h
    cases h
  | some ledger =>
    rw [hledger] at h
    cases h
    exact ⟨ledger, rfl, by simpa using List.find?_some hledger, rfl⟩

theorem importText_clean (hparse : parse lib format input = .ok txns)
    (h : importText lib d db req ledgerId actor format input false = (.ok r, db')) (hclean : Clean r) :
    SameChart db db' ∧ r.inserted = (newEntries d db ledgerId txns).length ∧
      entries db' ledgerId = entries db ledgerId ++
        (newEntries d db ledgerId txns).map (toEntry (accountNames db ledgerId)) := by
  obtain ⟨ledger, -, hid, hloop⟩ := importText_eq_ok hparse h
  obtain ⟨hwrite, hinserted⟩ := writeAll_of_clean hloop hclean
  obtain ⟨hchart, hentries⟩ := writeAll_spec _ hwrite
  have hmap := map_planned (c := contextOf d db ledgerId actor ledger) txns 0
  refine ⟨hchart, ?_, ?_⟩
  · have hlength := congrArg List.length hmap
    rw [List.length_map, List.length_map] at hlength
    exact hinserted.trans hlength
  · rw [hmap] at hentries
    subst hid
    exact hentries

theorem clean_of_newEntries_eq_nil (hparse : parse lib format input = .ok txns)
    (h : importText lib d db req ledgerId actor format input false = (.ok r, db'))
    (hnone : newEntries d db ledgerId txns = []) : Clean r := by
  obtain ⟨ledger, -, -, hloop⟩ := importText_eq_ok hparse h
  have hmap := map_planned (c := contextOf d db ledgerId actor ledger) txns 0
  have hplanned : planned (contextOf d db ledgerId actor ledger) 0 txns = [] := by
    have hnil : (newEntries d db ledgerId txns).map (toEntry (accountNames db ledgerId)) = [] := by
      rw [hnone, List.map_nil]
    exact List.map_eq_nil_iff.mp (hmap.trans hnil)
  have hclean : Clean (loop (contextOf d db ledgerId actor ledger) req false 0 ({}, db) txns).1 := by
    refine (clean_loop_iff txns).mpr ⟨db, ?_⟩
    rw [hplanned]
    rfl
  rw [hloop] at hclean
  exact hclean

theorem SameChart.accountNames (h : SameChart db db') (ledger : Uuid) :
    accountNames db' ledger = accountNames db ledger := by
  rw [Pta.accountNames, h.accounts, Pta.accountNames]

/-- A filter keeps all elements with an image exactly when they satisfy it. -/
theorem count_map_filter_iff {α β : Type} [DecidableEq β] (f : α → β) (p : α → Bool) (l : List α)
    (b : β) : ((l.filter p).map f).count b = (l.map f).count b ↔ ∀ a ∈ l, f a = b → p a := by
  have hsplit := List.countP_eq_countP_filter_add l (fun a => f a == b) p
  have hleft : ((l.filter p).map f).count b = (l.filter p).countP fun a => f a == b := by
    rw [List.count_eq_countP, List.countP_map]
    rfl
  have hall : (l.map f).count b = l.countP fun a => f a == b := by
    rw [List.count_eq_countP, List.countP_map]
    rfl
  rw [hleft, hall, hsplit, left_eq_add, List.countP_eq_zero]
  constructor
  · intro hnone a ha hfa
    by_contra hp
    exact hnone a (List.mem_filter.mpr ⟨ha, by simpa using hp⟩) (by simpa using hfa)
  · intro h a ha hfa
    obtain ⟨ha, hp⟩ := List.mem_filter.mp ha
    rw [h a ha (by simpa using hfa)] at hp
    cases hp

/-- The repetition has no new entries exactly when the fingerprint of every new entry is that of a
transaction that has been inserted. -/
theorem newEntries_eq_nil_iff {accounts : List (Uuid × String)}
    (haccounts : accounts = accountNames db ledgerId) (hsame : accountNames db' ledgerId = accounts)
    (hentries : entries db' ledgerId =
      entries db ledgerId ++ (newEntries d db ledgerId txns).map (toEntry accounts)) :
    newEntries d db' ledgerId txns = [] ↔ ∀ t ∈ newEntries d db ledgerId txns,
      ∃ u ∈ newEntries d db ledgerId txns,
        (toEntry accounts u).fingerprint = some (fingerprint d t) := by
  have hfound : ∀ f, f ∈ existingFingerprints db' ledgerId ↔ f ∈ existingFingerprints db ledgerId ∨
      ∃ u ∈ newEntries d db ledgerId txns, (toEntry accounts u).fingerprint = some f := by
    intro f
    rw [existingFingerprints_eq db', hentries, List.filterMap_append, List.mem_append,
      ← existingFingerprints_eq, List.filterMap_map, List.mem_filterMap]
    rfl
  have himportable : importable d (accountNames db' ledgerId) txns =
      importable d (accountNames db ledgerId) txns := by
    rw [hsame, haccounts]
  constructor
  · intro hnone t ht
    obtain ⟨ht, hnew⟩ := List.mem_filter.mp ht
    have hseen : fingerprint d t ∈ existingFingerprints db' ledgerId := by
      by_contra hunseen
      have hmem : t ∈ newEntries d db' ledgerId txns :=
        List.mem_filter.mpr ⟨himportable ▸ ht, by simpa using hunseen⟩
      rw [hnone] at hmem
      cases hmem
    exact ((hfound _).mp hseen).resolve_left (by simpa using hnew)
  · intro hall
    refine List.filter_eq_nil_iff.mpr fun t ht => ?_
    rw [himportable] at ht
    simp only [decide_not, Bool.not_eq_true', decide_eq_false_iff_not, not_not]
    refine (hfound _).mpr ?_
    by_cases hold : fingerprint d t ∈ existingFingerprints db ledgerId
    · exact Or.inl hold
    · exact Or.inr (hall t (List.mem_filter.mpr ⟨ht, by simpa using hold⟩))

/-- The transactions that the ledger did not have are inserted as often as the text has them exactly
when it did have those that are skipped. -/
theorem count_entries_iff {accounts : List (Uuid × String)}
    (haccounts : accounts = accountNames db ledgerId)
    (hentries : entries db' ledgerId =
      entries db ledgerId ++ (newEntries d db ledgerId txns).map (toEntry accounts)) :
    (∀ e ∉ entries db ledgerId, (entries db' ledgerId).count e =
        ((importable d accounts txns).map (toEntry accounts)).count e) ↔
      ∀ t ∈ importable d accounts txns, fingerprint d t ∈ existingFingerprints db ledgerId →
        toEntry accounts t ∈ entries db ledgerId := by
  have hcount : ∀ e ∉ entries db ledgerId, (entries db' ledgerId).count e =
      ((newEntries d db ledgerId txns).map (toEntry accounts)).count e := by
    intro e he
    rw [hentries, List.count_append, List.count_eq_zero.mpr he, Nat.zero_add]
  subst haccounts
  constructor
  · intro hall t ht hseen
    by_contra hmissing
    have heq := (hcount _ hmissing).symm.trans (hall _ hmissing)
    have hnew := (count_map_filter_iff _ _ _ _).mp heq t ht rfl
    exact of_decide_eq_true hnew hseen
  · intro hall e he
    rw [hcount e he]
    refine (count_map_filter_iff _ _ _ _).mpr fun t ht heq => decide_eq_true fun hseen => ?_
    exact he (heq ▸ hall t ht hseen)

end

/-! ## The two imports -/

/-- Importing a text again inserts nothing and fails at no entry, and the first import has inserted
every transaction of the text that the ledger did not have, as often as the text has it, exactly if
- the fingerprint of every new entry is that of a new entry as it is stored, and
- the entries that are skipped are in the ledger. -/
theorem reimport_iff {lib : Libraries} {d : Decimal.Arith} {db db' db'' : Db} {req req' : Request}
    {ledgerId actor actor' : Uuid} {format : PtaFormat} {input : String} {txns : List PtaTxn}
    {first second : ImportReport} (hparse : parse lib format input = .ok txns)
    (hfirst : importText lib d db req ledgerId actor format input false = (.ok first, db'))
    (hclean : Clean first)
    (hsecond : importText lib d db' req' ledgerId actor' format input false = (.ok second, db'')) :
    ((second.inserted = 0 ∧ Clean second) ∧
        ∀ e ∉ entries db ledgerId, (entries db' ledgerId).count e =
          ((importable d (accountNames db ledgerId) txns).map
            (toEntry (accountNames db ledgerId))).count e) ↔
      (∀ t ∈ newEntries d db ledgerId txns, ∃ u ∈ newEntries d db ledgerId txns,
        (toEntry (accountNames db ledgerId) u).fingerprint = some (fingerprint d t)) ∧
      ∀ t ∈ importable d (accountNames db ledgerId) txns,
        fingerprint d t ∈ existingFingerprints db ledgerId →
          toEntry (accountNames db ledgerId) t ∈ entries db ledgerId := by
  obtain ⟨hchart, -, hentries⟩ := importText_clean hparse hfirst hclean
  have hnoop : second.inserted = 0 ∧ Clean second ↔ newEntries d db' ledgerId txns = [] := by
    constructor
    · rintro ⟨hzero, hclean₂⟩
      obtain ⟨-, hinserted, -⟩ := importText_clean hparse hsecond hclean₂
      exact List.length_eq_zero_iff.mp (hinserted.symm.trans hzero)
    · intro hnone
      have hclean₂ := clean_of_newEntries_eq_nil hparse hsecond hnone
      obtain ⟨-, hinserted, -⟩ := importText_clean hparse hsecond hclean₂
      exact ⟨by rw [hinserted, hnone]; rfl, hclean₂⟩
  rw [hnoop, newEntries_eq_nil_iff rfl (hchart.accountNames ledgerId) hentries,
    count_entries_iff rfl hentries]

namespace Sample

open OpenAccounting.Sample

def once (amount : String) : Except ImportError ImportReport × Db :=
  importText plainLibraries Decimal.nearest db (request 1) ledgerId owner .beancount (saleText amount)
    false

def twice (amount : String) : Except ImportError ImportReport × Db :=
  importText plainLibraries Decimal.nearest (once amount).2 (request 2) ledgerId owner .beancount
    (saleText amount) false

def inserted : ImportReport where
  inserted := 1
  planned := ["inserted: 2026-03-10  Sale (2 postings)"]

def skipped : ImportReport where
  skipped := 1
  planned := ["skip (duplicate): 2026-03-10  Sale (2 postings)"]

end Sample

open OpenAccounting.Sample Pta.Sample in
/-- A sale over ten dollars is known again. -/
theorem reimport_iff_sale :
    (once "10").1 = .ok inserted ∧ (twice "10").1 = .ok skipped ∧
      ∀ e ∉ entries db ledgerId, (entries (once "10").2 ledgerId).count e =
        ((importable Decimal.nearest (accountNames db ledgerId) [saleTxn 10]).map
          (toEntry (accountNames db ledgerId))).count e := by
  have hfirst : (once "10").1 = .ok inserted := by
    rw [once, importText_of_parse parse_saleText rfl]
    decide +kernel
  have hledger : (once "10").2.findLedger ledgerId =
      some { id := ledgerId, ownerId := owner } := by
    rw [once, importText_of_parse parse_saleText rfl]
    decide +kernel
  have hsecond : (twice "10").1 = .ok skipped := by
    rw [twice, importText_of_parse parse_saleText hledger, once,
      importText_of_parse parse_saleText rfl]
    decide +kernel
  have hclean : Clean inserted := by simp [Clean, inserted]
  refine ⟨hfirst, hsecond, ((reimport_iff parse_saleText (Prod.fst_eq_iff.mp hfirst) hclean
    (Prod.fst_eq_iff.mp hsecond)).mpr ?_).2⟩
  decide +kernel

theorem Sample.lines_fifthDecimal : RustStr.lines (Sample.saleText "10.00004") =
    ["2026-03-10 * \"Sale\"", "  Cash_on_Hand  10.00004 USD", "  Sales  -10.00004 USD"] := by
  delta Sample.saleText RustStr.lines
  iterate 4 rw [String.toList_append]
  iterate 4 rw [String.toList_ofList]
  rfl

theorem Sample.parse_fifthDecimal :
    parse plainLibraries .beancount (Sample.saleText "10.00004") = .ok [Sample.saleTxn 10.00004] := by
  rw [parse, Beancount.parse, Sample.lines_fifthDecimal]
  decide +kernel

/-- The text says 20.00008 in sum, and the ledger 20. -/
theorem fifthDecimal_reimported :
    (Sample.once "10.00004").1 = .ok Sample.inserted ∧
      (Sample.twice "10.00004").1 = .ok Sample.inserted := by
  have hledger : (Sample.once "10.00004").2.findLedger OpenAccounting.Sample.ledgerId =
      some { id := OpenAccounting.Sample.ledgerId, ownerId := OpenAccounting.Sample.owner } := by
    rw [Sample.once, importText_of_parse Sample.parse_fifthDecimal rfl]
    decide +kernel
  constructor
  · rw [Sample.once, importText_of_parse Sample.parse_fifthDecimal rfl]
    decide +kernel
  · rw [Sample.twice, importText_of_parse Sample.parse_fifthDecimal hledger, Sample.once,
      importText_of_parse Sample.parse_fifthDecimal rfl]
    decide +kernel

end OpenAccounting.Import.Pta
