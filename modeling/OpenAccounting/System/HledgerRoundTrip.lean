import OpenAccounting.Export.PlainText

/-!
# hledger CSV, written and read

The header has three fields and every record more, and the writer is one for records of one length.
So no record but the header ever ends: the transactions run together in one line, which is read as
one transaction or not at all.  `roundTrips_iff` says that a snapshot comes back exactly when it
has one transaction at most.
-/

namespace OpenAccounting.Export.Hledger

open Import (Libraries PtaTxn PtaPosting plainLibraries plainLibraries_lawful)
open Import.Hledger (parsePairs parseRecord parseRecords parse)
open Commit

/-- What a posting is to come back as. -/
def expectedPosting (s : LedgerSnapshot) (p : PostingRow) : PtaPosting where
  accountName := ((s.findAccount p.accountId).map AccountRow.name).getD ""
  amount := p.amount.value
  direction := p.side

/-- What a transaction is to come back as. -/
def expected (s : LedgerSnapshot) (t : TransactionRow) : PtaTxn where
  date := t.txnDate
  description := t.description
  payee := t.payee.filter fun payee => payee ≠ ""
  postings := (s.postingsOf t).map (expectedPosting s)

/-- The snapshot is rendered, and its transactions are read back in order. -/
def RoundTrips (lib : Libraries) (s : LedgerSnapshot) : Prop :=
  ∃ text, render lib s = some text ∧ parse lib text = .ok (s.inOrder.map (expected s))

/-- The name of the ledger is one line, and every transaction has postings, all of them valid and on
accounts of the snapshot. -/
structure Exportable (s : LedgerSnapshot) : Prop where
  name : '\n' ∉ s.ledger.name.toList ∧ '\r' ∉ s.ledger.name.toList
  posted : ∀ t ∈ s.transactions, s.postingsOf t ≠ []
  valid : ∀ p ∈ s.postings, p.Valid
  accounts : ∀ p ∈ s.postings, ∃ a ∈ s.accounts, a.id = p.accountId

section

variable {lib : Libraries} {s : LedgerSnapshot} {t : TransactionRow}

/-! ## One record -/

theorem pair_spec (hlib : lib.Lawful) {p : PostingRow} (h : p.Valid) :
    ∃ name amount signed, pair lib s p = some [name, amount] ∧
      lib.decimal.parse amount = some signed ∧
      PtaPosting.ofSigned name signed = some (expectedPosting s p) := by
  rcases h.signed_cases with ⟨hside, hsigned⟩ | ⟨hside, hsigned⟩
  · refine ⟨_, _, p.amount.value, by rw [pair, hsigned]; rfl, hlib.decimal.parse_display _, ?_⟩
    rw [expectedPosting, hside]
    exact PtaPosting.ofSigned_debit h.positive
  · refine ⟨_, _, -p.amount.value, by rw [pair, hsigned]; rfl, ?_, ?_⟩
    · rw [hlib.decimal.parse_display, Decimal.Scaled.value_neg]
    · rw [expectedPosting, hside]
      exact PtaPosting.ofSigned_credit h.positive

/-- The cells of the postings are read as these postings. -/
theorem pairs_spec (hlib : lib.Lawful) {ps : List PostingRow} (h : ∀ p ∈ ps, p.Valid) :
    ∃ pairs, ps.mapM (pair lib s) = some pairs ∧ pairs.flatten.length = 2 * ps.length ∧
      ∀ row, parsePairs lib row pairs.flatten = .ok (ps.map (expectedPosting s)) := by
  induction ps with
  | nil => exact ⟨[], rfl, rfl, fun _ => rfl⟩
  | cons p ps ih =>
    obtain ⟨name, amount, signed, hpair, hsigned, hposting⟩ :=
      pair_spec (s := s) hlib (h p List.mem_cons_self)
    obtain ⟨pairs, hpairs, hlen, hread⟩ := ih fun q hq => h q (List.mem_cons_of_mem p hq)
    refine ⟨[name, amount] :: pairs, ?_, ?_, fun row => ?_⟩
    · rw [List.mapM_cons, hpair, hpairs]
      rfl
    · rw [List.flatten_cons, List.length_append, hlen, List.length_cons]
      simp
      omega
    · have hpairs : ([name, amount] :: pairs).flatten = name :: amount :: pairs.flatten := rfl
      simp only [hpairs, parsePairs, bind_eq_ok, okOr_eq_ok]
      exact ⟨signed, hsigned, _, hread row, by rw [hposting]; rfl⟩

/-- A record is longer than the header, and is read as its transaction. -/
theorem record_spec (hlib : lib.Lawful) (h : Exportable s) (ht : t ∈ s.transactions) :
    ∃ r, record lib s t = some r ∧ header.length < r.length ∧ r.head? = some t.txnDate.display ∧
      ∀ row, parseRecord lib row r = .ok (expected s t) := by
  have hvalid : ∀ p ∈ s.postingsOf t, p.Valid :=
    fun p hp => h.valid p (List.mem_of_mem_filter hp)
  obtain ⟨pairs, hpairs, hlen, hread⟩ := pairs_spec (s := s) hlib hvalid
  have hpos := List.length_pos_iff.mpr (h.posted t ht)
  have hlength : ([t.txnDate.display, t.description, t.payee.getD ""] ++ pairs.flatten).length =
      3 + 2 * (s.postingsOf t).length := by
    rw [List.length_append, hlen]
    rfl
  refine ⟨_, by rw [record, hpairs]; rfl, ?_, rfl, fun row => ?_⟩
  · rw [hlength]
    show 3 < _
    omega
  · simp only [parseRecord, bind_eq_ok, ensure_eq_ok, okOr_eq_ok, hlength]
    refine ⟨(), by omega, (), by omega, t.txnDate, hlib.parse_display _, _, hread row, ?_⟩
    cases hpayee : t.payee with
    | none => simp [expected, hpayee]
    | some payee => by_cases hempty : payee = "" <;> simp [expected, hpayee, hempty, Option.filter]

/-- Every transaction has its record, with a date in front. -/
theorem records_spec (hlib : lib.Lawful) (h : Exportable s) {ts : List TransactionRow}
    (hts : ∀ t ∈ ts, t ∈ s.transactions) :
    ∃ rs, ts.mapM (record lib s) = some rs ∧ rs.length = ts.length ∧
      ∀ r ∈ rs, header.length < r.length ∧ ∃ d : Calendar.NaiveDate, r.head? = some d.display := by
  induction ts with
  | nil => exact ⟨[], rfl, rfl, fun r hr => (nomatch hr)⟩
  | cons t ts ih =>
    obtain ⟨r, hrecord, hlong, hdate, -⟩ := record_spec hlib h (hts t List.mem_cons_self)
    obtain ⟨rs, hrecords, hlen, hall⟩ := ih fun u hu => hts u (List.mem_cons_of_mem t hu)
    refine ⟨r :: rs, ?_, by rw [List.length_cons, List.length_cons, hlen], ?_⟩
    · rw [List.mapM_cons, hrecord, hrecords]
      rfl
    · rintro q (_ | ⟨_, hq⟩)
      · exact ⟨hlong, _, hdate⟩
      · exact hall q hq

/-! ## The text -/

theorem isRecord_flatten {rs : List (List String)} (hne : rs ≠ [])
    (h : ∀ r ∈ rs, header.length < r.length ∧
      ∃ d : Calendar.NaiveDate, r.head? = some d.display) : Csv.IsRecord rs.flatten := by
  obtain ⟨r, rs, rfl⟩ := List.exists_cons_of_ne_nil hne
  obtain ⟨hlong, d, hdate⟩ := h r List.mem_cons_self
  have hthree : 3 < r.length := hlong
  obtain ⟨f, fs, rfl⟩ := List.exists_cons_of_ne_nil (List.ne_nil_of_length_pos (l := r) (by omega))
  have hf : f = d.display := Option.some.inj hdate
  refine ⟨?_, fun g hg => ?_⟩
  · rw [List.flatten_cons, List.length_append]
    omega
  · have hg : f = g := Option.some.inj hg
    rw [← hg, hf, Calendar.NaiveDate.toList_display]
    obtain ⟨c, cs, hcs, hdigit⟩ := d.unsignedDisplay_eq_cons
    rw [hcs]
    split
    · simp
    · split
      · simp
      · intro hhash
        have hc : c = '#' := Option.some.inj hhash
        rw [hc] at hdigit
        cases hdigit

/-- The comment with the name of the ledger is one line if the name is. -/
theorem newline_notMem_comment {c : Char} (hname : c ∉ s.ledger.name.toList)
    (hplain : c.isAlphanum = false ∧ c ≠ '-')
    (htext : c ∉ (" Ledger: " : String).toList ++ (" (" : String).toList ++ [')']) :
    c ∉ (" Ledger: " ++ s.ledger.name ++ " (" ++ s.ledger.id.hyphenated ++ ")").toList := by
  intro hc
  simp only [String.toList_append, List.mem_append] at hc htext
  rcases hc with (((hc | hc) | hc) | hc) | hc
  · exact htext (Or.inl (Or.inl hc))
  · exact hname hc
  · exact htext (Or.inl (Or.inr hc))
  · rcases Uuid.mem_hyphenated hc with halnum | hdash
    · simp [hplain.1] at halnum
    · exact hplain.2 hdash
  · exact htext (Or.inr hc)

/-- The text is read as one record with all fields of all transactions. -/
theorem read_render (hlib : lib.Lawful) (h : Exportable s) :
    ∃ text rs, render lib s = some text ∧ s.inOrder.mapM (record lib s) = some rs ∧
      rs.length = s.transactions.length ∧
      lib.csv.read text = if rs = [] then [] else [.ok rs.flatten] := by
  have hmem : ∀ t ∈ s.inOrder, t ∈ s.transactions := fun t ht => Relational.mem_orderBy.mp ht
  obtain ⟨rs, hrecords, hlen, hall⟩ := records_spec hlib h hmem
  refine ⟨_, rs, by rw [render, hrecords]; rfl, hrecords, ?_, ?_⟩
  · rw [hlen]
    exact (Relational.orderBy_perm _ _).length_eq
  · have hcomments : "# Generated by openaccounting " ++ version ++ "\n" ++
        ("# Ledger: " ++ s.ledger.name ++ " (" ++ s.ledger.id.hyphenated ++ ")\n") =
          Csv.commentLines [" Generated by openaccounting " ++ version,
            " Ledger: " ++ s.ledger.name ++ " (" ++ s.ledger.id.hyphenated ++ ")"] := by
      apply String.toList_inj.mp
      simp [Csv.commentLines]
    have hread : lib.csv.read (Csv.commentLines [" Generated by openaccounting " ++ version,
        " Ledger: " ++ s.ledger.name ++ " (" ++ s.ledger.id.hyphenated ++ ")"] ++
          Csv.row lib.csv.quote header ++ "\n" ++
            Csv.rows lib.csv.quote (if rs = [] then [] else [rs.flatten])) =
        (if rs = [] then [] else [rs.flatten]).map .ok := by
      refine hlib.csv.read_rows _ _ _ ?_ (by simp [header]) (by simp [header]) ?_
      · intro c hc
        rcases List.mem_cons.mp hc with rfl | hc
        · simp [version]
        · rw [List.mem_singleton.mp hc]
          exact ⟨newline_notMem_comment h.name.1 (by decide) (by decide),
            newline_notMem_comment h.name.2 (by decide) (by decide)⟩
      · split
        · simp
        · next hne => simpa using isRecord_flatten hne hall
    have hbody : Csv.rows lib.csv.quote (if rs = [] then [] else [rs.flatten]) =
        Csv.row lib.csv.quote rs.flatten := by
      split
      · next hnil => simp [hnil, Csv.rows, Csv.row]
      · rfl
    show lib.csv.read (_ ++ (Csv.Writer.writeAll lib.csv.quote {} (header :: rs)).text) = _
    rw [hcomments, Csv.Writer.writeAll_long (by simp [header]) fun r hr => (hall r hr).1, ← hbody,
      ← String.append_assoc, ← String.append_assoc, hread]
    split <;> rfl

/-! ## The round trip -/

/-- The transactions of a snapshot come back exactly when there is one at most. -/
theorem roundTrips_iff (hlib : lib.Lawful) (h : Exportable s) :
    RoundTrips lib s ↔ s.transactions.length ≤ 1 := by
  obtain ⟨text, rs, hrender, hrecords, hlen, hread⟩ := read_render hlib h
  have hordered : s.inOrder.length = s.transactions.length :=
    (Relational.orderBy_perm _ _).length_eq
  have htrips : RoundTrips lib s ↔ parse lib text = .ok (s.inOrder.map (expected s)) := by
    constructor
    · rintro ⟨text', hrender', hparse⟩
      rw [hrender] at hrender'
      exact Option.some.inj hrender' ▸ hparse
    · exact fun hparse => ⟨text, hrender, hparse⟩
  rw [htrips]
  constructor
  · intro hparse
    have hcount := Import.Hledger.length_parseRecords hparse
    rw [List.length_map, hordered, hread] at hcount
    split at hcount
    · simp [hcount]
    · exact le_of_eq hcount
  · intro hone
    rcases Nat.le_one_iff_eq_zero_or_eq_one.mp hone with hzero | hone
    · -- Only the header has been written.
      have hnil : rs = [] := List.length_eq_zero_iff.mp (hlen.trans hzero)
      have hempty : s.inOrder = [] := List.length_eq_zero_iff.mp (hordered.trans hzero)
      rw [parse, hread, if_pos hnil, hempty]
      rfl
    · -- The record of the one transaction has no end, which the text does not need.
      obtain ⟨t, ht⟩ := List.length_eq_one_iff.mp (hordered.trans hone)
      have hmem : t ∈ s.transactions := by
        refine Relational.mem_orderBy.mp (show t ∈ s.inOrder from ?_)
        simp [ht]
      obtain ⟨r, hrecord, -, -, hparse⟩ := record_spec hlib h hmem
      have hrs : rs = [r] := by
        rw [ht, List.mapM_cons, hrecord] at hrecords
        exact (Option.some.inj hrecords).symm
      rw [parse, hread, hrs, ht, if_neg (List.cons_ne_nil r []), List.flatten_singleton]
      simp only [parseRecords, bind_eq_ok, mapError_eq_ok]
      exact ⟨r, rfl, _, hparse 1, [], rfl, rfl⟩

end

namespace Sample

def march (day : ℕ) : Calendar.NaiveDate :=
  (Calendar.NaiveDate.fromYmdOpt 2026 3 day).getD default

theorem tenth_range : 1 ≤ 28 := by decide

/-- The postings of a cash sale of 42.5. -/
def legs (txn : Uuid) : List PostingRow :=
  [{ id := 101, transactionId := txn, accountId := 11,
     amount := { coeff := 425, scale := 1, scale_range := tenth_range },
     currency := "USD", direction := "DEBIT" },
   { id := 102, transactionId := txn, accountId := 12,
     amount := { coeff := 425, scale := 1, scale_range := tenth_range },
     currency := "USD", direction := "CREDIT" }]

/-- A ledger with a cash sale on each of the given days. -/
def sales (days : List ℕ) : LedgerSnapshot where
  ledger :=
    { id := 1, name := "Books", baseCurrency := "USD",
      createdAt := { date := march 1, second := 0, second_range := Calendar.UtcTime.midnight_range } }
  accounts :=
    [{ id := 11, name := "Cash, on hand", type := "ASSET", currency := "USD" },
     { id := 12, name := "Sales", type := "INCOME", currency := "USD" }]
  transactions := days.map fun day =>
    { id := Fin.ofNat _ day, txnDate := march day, description := "A \"sale\"",
      createdAt := { micros := 0, micros_range := Calendar.DateTime.epoch_range } }
  postings := days.flatMap fun day => legs (Fin.ofNat _ day)
  currencies := ["USD"]

theorem legs_valid (txn : Uuid) : ∀ p ∈ legs txn, p.Valid ∧ ∃ a ∈ (sales []).accounts,
    a.id = p.accountId := by
  intro p hp
  simp only [legs, List.mem_cons, List.not_mem_nil, or_false] at hp
  rcases hp with rfl | rfl
  · exact ⟨⟨by norm_num [Decimal.Scaled.value], Or.inl rfl⟩, _, List.mem_cons_self, rfl⟩
  · exact ⟨⟨by norm_num [Decimal.Scaled.value], Or.inr rfl⟩, _,
      List.mem_cons_of_mem _ List.mem_cons_self, rfl⟩

theorem sales_exportable (days : List ℕ) : Exportable (sales days) where
  name := by simp [sales]
  posted t ht := by
    obtain ⟨day, hday, rfl⟩ := List.mem_map.mp ht
    have hmem : ∀ p ∈ legs (Fin.ofNat _ day), p ∈ (sales days).postingsOf
        { id := Fin.ofNat _ day, txnDate := march day, description := "A \"sale\""
          createdAt := { micros := 0 } } := by
      intro p hp
      refine List.mem_filter.mpr ⟨List.mem_flatMap.mpr ⟨day, hday, hp⟩, ?_⟩
      simp only [legs, List.mem_cons, List.not_mem_nil, or_false] at hp
      rcases hp with rfl | rfl <;> simp
    exact List.ne_nil_of_mem (hmem _ List.mem_cons_self)
  valid p hp := by
    obtain ⟨day, -, hp⟩ := List.mem_flatMap.mp hp
    exact (legs_valid _ p hp).1
  accounts p hp := by
    obtain ⟨day, -, hp⟩ := List.mem_flatMap.mp hp
    exact (legs_valid _ p hp).2

end Sample

/-- One sale comes back. -/
theorem roundTrips_iff_sale : RoundTrips plainLibraries (Sample.sales [10]) :=
  (roundTrips_iff plainLibraries_lawful (Sample.sales_exportable [10])).mpr (by decide)

/-- Two sales run together in one line, which has an odd number of fields after the payee. -/
theorem sales_not_roundTrips :
    Exportable (Sample.sales [10, 11]) ∧
      ¬ RoundTrips plainLibraries (Sample.sales [10, 11]) ∧
      (render plainLibraries (Sample.sales [10, 11])).map (parse plainLibraries) =
        some (.error "csv row 1: fields after payee must come in account/amount pairs") := by
  have herror : (render plainLibraries (Sample.sales [10, 11])).map (parse plainLibraries) =
      some (.error "csv row 1: fields after payee must come in account/amount pairs") := by
    obtain ⟨text, rs, hrender, hrecords, hlen, hread⟩ :=
      read_render plainLibraries_lawful (Sample.sales_exportable [10, 11])
    have hfields : ((Sample.sales [10, 11]).inOrder.mapM
        (record plainLibraries (Sample.sales [10, 11]))).map (fun rs => rs.flatten.length) =
          some 14 := by
      decide
    rw [hrecords, Option.map_some, Option.some.injEq] at hfields
    have hne : rs ≠ [] := List.ne_nil_of_length_pos (by rw [hlen]; exact Nat.two_pos)
    have hodd : parseRecord plainLibraries 1 rs.flatten =
        .error "csv row 1: fields after payee must come in account/amount pairs" := by
      rw [parseRecord, hfields]
      rfl
    rw [hrender, Option.map_some, parse, hread, if_neg hne, parseRecords]
    show some (parseRecord plainLibraries 1 rs.flatten >>= _) = _
    rw [hodd]
    rfl
  refine ⟨Sample.sales_exportable _, ?_, herror⟩
  rintro ⟨text, hrender, hparse⟩
  rw [hrender, Option.map_some, hparse] at herror
  cases herror

end OpenAccounting.Export.Hledger
