import OpenAccounting.Lib.Calendar
import OpenAccounting.Lib.DecimalText

/-!
# The rates of the European Central Bank

`parse_ecb_csv` of `domain/fx.rs`.  It keeps the currencies of the header that it recognises, and
pairs the first of them with the first cell of a row, the second with the second, whatever columns
it has dropped between them.  So the columns of a text keep their rates when the recognised ones
come first in its header, and for any other header there is a text that reads a rate under the
wrong currency (`aligned_iff`).
-/

namespace OpenAccounting.EcbRates

open Calendar

/-- The libraries that read the cells. -/
structure Readers where
  /-- `NaiveDate::parse_from_str(text, "%Y-%m-%d")`. -/
  parseDate : String → Option NaiveDate
  /-- `Decimal::from_str`. -/
  parseDecimal : String → Option ℚ

/-- The day of the row that goes wrong. -/
def newYear : NaiveDate := (NaiveDate.fromYmdOpt 2026 1 2).getD default

/-- Both libraries read plain texts. -/
structure Readers.Reads (lib : Readers) : Prop where
  date : lib.parseDate "2026-01-02" = some newYear
  one : lib.parseDecimal "1" = some 1

/-- A triple of the result: currency, rate and date. -/
abbrev Triple := String × ℚ × NaiveDate

/-! ## The parser -/

/-- Three upper-case ASCII letters. -/
def IsCurrency (c : String) : Prop :=
  c.utf8ByteSize = 3 ∧ ∀ x ∈ c.toList, 'A' ≤ x ∧ x ≤ 'Z'

instance (c : String) : Decidable (IsCurrency c) :=
  @instDecidableAnd _ _ _ (List.decidableBAll _ _)

def columns (header : String) : List String :=
  ((RustStr.split ',' header).drop 1).map RustStr.trim

/-- The recognised ones. -/
def currencies (header : String) : List String :=
  (columns header).filter fun c => IsCurrency c

def rateOf (lib : Readers) (cell : String) : Option ℚ :=
  let cell := RustStr.trim cell
  if cell = "" then none else (lib.parseDecimal cell).filter fun rate => 0 < rate

def dateOf (lib : Readers) (row : String) : Option NaiveDate :=
  (RustStr.split ',' row).head?.bind fun date => lib.parseDate (RustStr.trim date)

/-- The cells of a row after the date. -/
def cells (row : String) : List String := (RustStr.split ',' row).drop 1

def rowTriples (lib : Readers) (currencies : List String) (row : String) : List Triple :=
  match dateOf lib row with
  | none => []
  | some date => (currencies.zip (cells row)).filterMap fun (cur, cell) =>
    (rateOf lib cell).map fun rate => (cur, rate, date)

def parseEcbCsv (lib : Readers) (csv : String) : List Triple :=
  match RustStr.lines csv with
  | [] => []
  | header :: rows => rows.flatMap (rowTriples lib (currencies header))

/-! ## Columns -/

/-- A row has the date, and in the column of the currency the rate. -/
def HasCell (lib : Readers) (csv : String) (t : Triple) : Prop :=
  ∃ header rows, RustStr.lines csv = header :: rows ∧ ∃ row ∈ rows, ∃ (j : ℕ) (cell : String),
    dateOf lib row = some t.2.2 ∧ (columns header)[j]? = some t.1 ∧
      (cells row)[j]? = some cell ∧ rateOf lib cell = some t.2.1

/-- The triples are those of the cells under recognised columns. -/
structure Aligned (lib : Readers) (csv : String) : Prop where
  sound : ∀ t ∈ parseEcbCsv lib csv, HasCell lib csv t
  complete : ∀ t, HasCell lib csv t → IsCurrency t.1 → t ∈ parseEcbCsv lib csv

/-- The recognised columns come first. -/
def InOrder (header : String) : Prop :=
  currencies header = (columns header).takeWhile fun c => IsCurrency c

instance (header : String) : Decidable (InOrder header) := by
  unfold InOrder
  infer_instance

section

variable {lib : Readers} {csv header row : String} {rows : List String} {t : Triple}

theorem mem_rowTriples {curs : List String} : t ∈ rowTriples lib curs row ↔
    dateOf lib row = some t.2.2 ∧ ∃ (j : ℕ) (cell : String), curs[j]? = some t.1 ∧
      (cells row)[j]? = some cell ∧ rateOf lib cell = some t.2.1 := by
  obtain ⟨cur, rate, date⟩ := t
  unfold rowTriples
  cases hdate : dateOf lib row with
  | none => simp
  | some d =>
    simp only [List.mem_filterMap, Option.map_eq_some_iff, Prod.mk.injEq, Prod.exists,
      Option.some.injEq]
    constructor
    · rintro ⟨c, cell, hmem, r, hr, rfl, rfl, rfl⟩
      obtain ⟨j, hj⟩ := List.mem_iff_getElem?.mp hmem
      rw [List.getElem?_zip_eq_some] at hj
      exact ⟨rfl, j, cell, hj.1, hj.2, hr⟩
    · rintro ⟨rfl, j, cell, hcur, hcell, hr⟩
      refine ⟨cur, cell, ?_, rate, hr, rfl, rfl, rfl⟩
      exact List.mem_iff_getElem?.mpr ⟨j, List.getElem?_zip_eq_some.mpr ⟨hcur, hcell⟩⟩

theorem mem_parseEcbCsv (h : RustStr.lines csv = header :: rows) :
    t ∈ parseEcbCsv lib csv ↔ ∃ row ∈ rows, t ∈ rowTriples lib (currencies header) row := by
  rw [parseEcbCsv, h]
  exact List.mem_flatMap

/-! ## Headers in order -/

/-- Without a recognised column after another one every currency is in its column. -/
theorem getElem?_currencies (h : InOrder header) {j : ℕ} {cur : String} :
    (currencies header)[j]? = some cur ↔ (columns header)[j]? = some cur ∧ IsCurrency cur := by
  have hsplit := List.takeWhile_append_dropWhile (p := fun c => decide (IsCurrency c))
    (l := columns header)
  have hnone : ((columns header).dropWhile fun c => IsCurrency c).filter
      (fun c => IsCurrency c) = [] := by
    have hboth := congrArg (List.filter fun c => decide (IsCurrency c)) hsplit
    rw [List.filter_append, List.filter_eq_self.mpr fun c hc =>
      List.mem_takeWhile_imp (p := fun c => decide (IsCurrency c)) hc] at hboth
    exact List.append_right_eq_self.mp (hboth.trans h)
  rw [h]
  constructor
  · intro hcur
    have hmem := List.mem_takeWhile_imp (List.mem_of_getElem? hcur)
    refine ⟨?_, by simpa using hmem⟩
    rw [← hsplit, List.getElem?_append_left (List.getElem?_eq_some_iff.mp hcur).1]
    exact hcur
  · rintro ⟨hcol, hcur⟩
    rw [← hsplit, List.getElem?_append] at hcol
    split at hcol
    · exact hcol
    · have hmem : cur ∈ ((columns header).dropWhile fun c => IsCurrency c).filter
          (fun c => IsCurrency c) :=
        List.mem_filter.mpr ⟨List.mem_of_getElem? hcol, decide_eq_true hcur⟩
      rw [hnone] at hmem
      cases hmem

theorem aligned_of_inOrder (hlines : RustStr.lines csv = header :: rows) (h : InOrder header) :
    Aligned lib csv where
  sound := by
    intro t ht
    obtain ⟨row, hrow, hmem⟩ := (mem_parseEcbCsv hlines).mp ht
    obtain ⟨hdate, j, cell, hcur, hcell, hrate⟩ := mem_rowTriples.mp hmem
    exact ⟨header, rows, hlines, row, hrow, j, cell, hdate, ((getElem?_currencies h).mp hcur).1,
      hcell, hrate⟩
  complete := by
    rintro t ⟨header', rows', hlines', row, hrow, j, cell, hdate, hcol, hcell, hrate⟩ hcur
    obtain ⟨rfl, rfl⟩ := List.cons.inj (hlines.symm.trans hlines')
    exact (mem_parseEcbCsv hlines).mpr ⟨row, hrow, mem_rowTriples.mpr
      ⟨hdate, j, cell, (getElem?_currencies h).mpr ⟨hcol, hcur⟩, hcell, hrate⟩⟩

/-! ## Headers out of order -/

theorem lines_crlf {line rest : String} (h : '\n' ∉ line.toList) :
    RustStr.lines (line ++ "\r\n" ++ rest) = line :: RustStr.lines rest := by
  have htext : (line ++ "\r\n" ++ rest).toList =
      (line.toList ++ ['\r']) ++ '\n' :: rest.toList := by
    simp
  have hline : '\n' ∉ line.toList ++ ['\r'] := by
    simpa using h
  rw [RustStr.lines, htext, RustStr.linesFrom_append hline, List.map_cons, List.append_nil,
    List.reverse_append, List.reverse_singleton, List.singleton_append, RustStr.stripCr,
    List.reverse_reverse, String.ofList_toList]
  rfl

/-- A row of 2 January with empty cells before its only rate. -/
def shiftedPieces (n : ℕ) : List (List Char) :=
  "2026-01-02".toList :: (List.replicate n [] ++ [['1']])

def shiftedRow (n : ℕ) : String := String.ofList ([','].intercalate (shiftedPieces n))

theorem split_shiftedRow (n : ℕ) : RustStr.split ',' (shiftedRow n) =
    "2026-01-02" :: (List.replicate n "" ++ ["1"]) := by
  have hpieces : ∀ piece ∈ shiftedPieces n, ',' ∉ piece := by
    intro piece hpiece
    rcases List.mem_cons.mp hpiece with rfl | hpiece
    · decide
    · rcases List.mem_append.mp hpiece with hpiece | hpiece
      · rw [List.eq_of_mem_replicate hpiece]
        exact List.not_mem_nil
      · rw [List.mem_singleton.mp hpiece]
        decide
  rw [RustStr.split, shiftedRow, String.toList_ofList,
    List.splitOn_intercalate _ hpieces (List.cons_ne_nil _ _), shiftedPieces, List.map_cons,
    List.map_append, List.map_replicate]
  rfl

theorem toList_shiftedRow (n : ℕ) :
    (shiftedRow n).toList = "2026-01-02".toList ++ (List.replicate (n + 1) ',' ++ ['1']) := by
  have hcells : ∀ n, [','].intercalate (List.replicate n [] ++ [['1']]) =
      List.replicate n ',' ++ ['1'] := by
    intro n
    induction n with
    | zero => rfl
    | succ n ih =>
      rw [List.replicate_succ, List.cons_append, List.intercalate_cons_of_ne_nil (by simp), ih,
        List.replicate_succ]
      rfl
  rw [shiftedRow, String.toList_ofList, shiftedPieces, List.intercalate_cons_of_ne_nil (by simp),
    hcells, List.replicate_succ]
  simp

theorem isLine_shiftedRow (n : ℕ) : RustStr.IsLine (shiftedRow n) := by
  rw [RustStr.IsLine, toList_shiftedRow]
  refine ⟨?_, ?_⟩
  · simp only [List.mem_append, List.mem_replicate, List.mem_singleton, not_or]
    exact ⟨by decide, fun hcomma => absurd hcomma.2 (by decide), by decide⟩
  · rw [← List.append_assoc, List.getLast?_concat]
    decide

/-- The first recognised column that is out of order has the place of one that is not. -/
theorem exists_shifted (h : ¬ InOrder header) : ∃ (n : ℕ) (cur : String),
    (currencies header)[n]? = some cur ∧ IsCurrency cur ∧
      (columns header)[n]? ≠ some cur := by
  have hsplit := List.takeWhile_append_dropWhile (p := fun c => decide (IsCurrency c))
    (l := columns header)
  generalize hfront : (columns header).takeWhile (fun c => decide (IsCurrency c)) = front at hsplit
  generalize hback : (columns header).dropWhile (fun c => decide (IsCurrency c)) = back at hsplit
  have hcurrencies : currencies header = front ++ back.filter fun c => IsCurrency c := by
    rw [currencies, ← hsplit, List.filter_append, List.filter_eq_self.mpr fun c hc => ?_]
    rw [← hfront] at hc
    exact List.mem_takeWhile_imp (p := fun c => decide (IsCurrency c)) hc
  cases hfilter : back.filter fun c => IsCurrency c with
  | nil =>
    rw [hfilter, List.append_nil] at hcurrencies
    exact absurd (hcurrencies.trans hfront.symm) h
  | cons cur later =>
    have hmem : cur ∈ back.filter fun c => IsCurrency c := by
      rw [hfilter]
      exact List.mem_cons_self
    have hcur : IsCurrency cur := by simpa using (List.mem_filter.mp hmem).2
    refine ⟨front.length, cur, ?_, hcur, fun hsame => ?_⟩
    · rw [hcurrencies, hfilter, List.getElem?_append_right le_rfl, Nat.sub_self]
      rfl
    · rw [← hsplit, List.getElem?_append_right le_rfl, Nat.sub_self, ← List.head?_eq_getElem?,
        ← hback] at hsame
      have hnot := List.head?_dropWhile_not (fun c => decide (IsCurrency c)) (columns header)
      rw [hsame] at hnot
      simp [hcur] at hnot

theorem rateOf_empty : rateOf lib "" = none := by
  have htrim : RustStr.trim "" = "" := by decide
  rw [rateOf, htrim]
  exact if_pos rfl

theorem rateOf_one (h : lib.Reads) : rateOf lib "1" = some 1 := by
  have htrim : RustStr.trim "1" = "1" := by decide
  rw [rateOf, htrim, if_neg (by decide), h.one]
  rfl

theorem exists_misaligned (hlib : lib.Reads) (hline : '\n' ∉ header.toList)
    (h : ¬ InOrder header) :
    ∃ csv, (RustStr.lines csv).head? = some header ∧ ¬ Aligned lib csv := by
  obtain ⟨n, cur, hcur, -, hcol⟩ := exists_shifted h
  have hlines : RustStr.lines (header ++ "\r\n" ++ RustStr.unlines [shiftedRow n]) =
      [header, shiftedRow n] := by
    rw [lines_crlf hline, RustStr.lines_unlines fun l hl => ?_]
    rw [List.mem_singleton.mp hl]
    exact isLine_shiftedRow n
  have hcells : cells (shiftedRow n) = List.replicate n "" ++ ["1"] := by
    rw [cells, split_shiftedRow]
    rfl
  have hdate : dateOf lib (shiftedRow n) = some newYear := by
    have htrim : RustStr.trim "2026-01-02" = "2026-01-02" := by decide
    rw [dateOf, split_shiftedRow, List.head?_cons, Option.bind_some, htrim, hlib.date]
  have hone : (cells (shiftedRow n))[n]? = some "1" := by
    rw [hcells, List.getElem?_append_right (by simp), List.length_replicate, Nat.sub_self]
    rfl
  refine ⟨_, by rw [hlines]; rfl, fun haligned => ?_⟩
  have hread : (cur, 1, newYear) ∈
      parseEcbCsv lib (header ++ "\r\n" ++ RustStr.unlines [shiftedRow n]) :=
    (mem_parseEcbCsv hlines).mpr ⟨shiftedRow n, List.mem_singleton_self _, mem_rowTriples.mpr
      ⟨hdate, n, "1", hcur, hone, rateOf_one hlib⟩⟩
  obtain ⟨header', rows', hlines', row, hrow, j, cell, -, hcol', hcell, hrate⟩ :=
    haligned.sound _ hread
  obtain ⟨rfl, rfl⟩ := List.cons.inj (hlines.symm.trans hlines')
  rw [List.mem_singleton.mp hrow, hcells] at hcell
  rcases lt_trichotomy j n with hlt | rfl | hgt
  · -- The cells before the rate are empty.
    rw [List.getElem?_append_left (by simpa using hlt), List.getElem?_replicate, if_pos hlt] at hcell
    rw [← Option.some.inj hcell, rateOf_empty] at hrate
    cases hrate
  · exact hcol hcol'
  · rw [List.getElem?_eq_none_iff.mpr (by simp; omega)] at hcell
    cases hcell

end

/-- Every text with this header keeps its columns exactly when the recognised columns come first. -/
theorem aligned_iff {lib : Readers} (hlib : lib.Reads) {header : String}
    (hline : '\n' ∉ header.toList) :
    (∀ csv, (RustStr.lines csv).head? = some header → Aligned lib csv) ↔ InOrder header := by
  constructor
  · intro hall
    by_contra h
    obtain ⟨csv, hhead, hnot⟩ := exists_misaligned hlib hline h
    exact hnot (hall csv hhead)
  · intro h csv hhead
    obtain ⟨rows, hlines⟩ := List.head?_eq_some_iff.mp hhead
    exact aligned_of_inOrder hlines h

namespace Sample

/-- The readers of the standard formats. -/
def plain : Readers where
  parseDate := NaiveDate.parseYmd
  parseDecimal := Decimal.plain.parse

theorem plain_reads : plain.Reads where
  date := by decide
  one := by decide

/-- A column that is not recognised stands before the dollar. -/
def shifted : String := "Date,US,USD\n2026-01-02,1,2\n"

end Sample

/-- The dollar is given the rate of the column before it. -/
theorem shifted_not_aligned : ¬ Aligned Sample.plain Sample.shifted := by
  intro h
  have hcell : HasCell Sample.plain Sample.shifted ("USD", 2, newYear) :=
    ⟨"Date,US,USD", ["2026-01-02,1,2"], by decide, _, List.mem_cons_self, 1, "2",
      by decide, by decide, by decide, by decide⟩
  exact absurd (h.complete _ hcell (by decide)) (by decide)

/-- The columns of a published text come in order. -/
theorem aligned_iff_published : Aligned Sample.plain "Date,USD,JPY,\n2026-01-02,1.05,,\n" :=
  (@aligned_iff _ Sample.plain_reads "Date,USD,JPY," (by decide)).mpr (by decide) _
    (by decide)

end OpenAccounting.EcbRates
