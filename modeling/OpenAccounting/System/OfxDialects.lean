import Mathlib.Data.List.Chain
import OpenAccounting.Import.Bills
import OpenAccounting.System.OfxStatements

/-!
# Dialects of OFX

A list of transactions can be written in SGML, with end tags or without them, and in XML.  The XML
parser returns the rows of the transactions.  The SGML parser reads bytes as characters, so that it
returns the rows of an ASCII text only, and it takes the value of a field without an end tag to be
empty, so that no row is left.
-/

namespace OpenAccounting.OfxDialects

open ByteCode Calendar Import RustStr
open OfxStatements (compact endTag length_parts startTag)

/-! ## Transactions -/

/-- The value of a field. -/
structure Value where
  text : List Char
  filled : text ≠ [] := by decide
  trimmed : trim (String.ofList text) = String.ofList text := by decide
  plain : ∀ c ∈ text, c ≠ '<' ∧ c ≠ '>' ∧ c ≠ '\n' ∧ c ≠ '\r' := by decide

/-- A transaction.  A time may follow the date. -/
structure Transaction where
  date : NaiveDate
  time : List Char := []
  negative : Bool
  magnitude : List Char
  payee : Value
  memo : Value
  id : Value
  year : 0 ≤ date.year ∧ date.year ≤ 9999 := by decide
  time_plain : ∀ c ∈ time, isAsciiGraphic c = true ∧ c ≠ '<' ∧ c ≠ '>' := by decide
  magnitude_filled : magnitude ≠ [] := by decide
  magnitude_plain : ∀ c ∈ magnitude, c.isDigit = true ∨ c = '.' := by decide

/-- The row of a transaction whose texts are read by `f`. -/
def Transaction.rowAs (t : Transaction) (f : List Char → List Char) : ParsedRow where
  date := t.date.display
  description := String.ofList (f t.memo.text)
  debit := if t.negative then String.ofList t.magnitude else ""
  credit := if t.negative then "" else String.ofList t.magnitude
  payee := some (String.ofList (f t.payee.text))
  reference := some (String.ofList (f t.id.text))

def Transaction.row (t : Transaction) : ParsedRow := t.rowAs fun cs => cs

/-- The fields of a transaction, with their tags. -/
def Transaction.fields (t : Transaction) : List (String × List Char) :=
  [("TRNTYPE", (if t.negative then "DEBIT" else "CREDIT").toList),
    ("DTPOSTED", compact t.date ++ t.time),
    ("TRNAMT", (if t.negative then ['-'] else []) ++ t.magnitude),
    ("FITID", t.id.text),
    ("NAME", t.payee.text),
    ("MEMO", t.memo.text)]

/-! ## Renderings -/

/-- The spellings of a file. -/
inductive Dialect where
  | unclosed
  | closed
  | xml
deriving DecidableEq

def Dialect.fieldLine (d : Dialect) (field : String × List Char) : List Char :=
  '<' :: (field.1.toList ++ '>' :: (field.2 ++
    if d = .unclosed then [] else '<' :: '/' :: (field.1.toList ++ ['>'])))

/-- The lines in front of the transactions. -/
def Dialect.header : Dialect → List String
  | .unclosed => ["OFXHEADER:100", "DATA:OFXSGML", "<OFX>"]
  | .closed => ["OFXHEADER:100", "DATA:OFXSGML", "<OFX>"]
  | .xml => ["<?xml version=\"1.0\"?>", "<OFX>"]

def Dialect.lines (d : Dialect) (t : Transaction) : List (List Char) :=
  "<STMTTRN>".toList :: (t.fields.map d.fieldLine ++ ["</STMTTRN>".toList])

def Dialect.fileLines (d : Dialect) (ts : List Transaction) : List (List Char) :=
  d.header.map String.toList ++ (ts.flatMap d.lines ++ ["</OFX>".toList])

/-- The text of a file. -/
def Dialect.render (d : Dialect) (ts : List Transaction) : String :=
  unlines ((d.fileLines ts).map String.ofList)

/-- The parser of a dialect. -/
def Dialect.parse : Dialect → String → Option (List ParsedRow)
  | .unclosed => Ofx.parseSgml
  | .closed => Ofx.parseSgml
  | .xml => Ofx.parseXml

/-- The transactions come back from the dialect. -/
def Dialect.Returns (d : Dialect) (ts : List Transaction) : Prop :=
  d.parse (d.render ts) = some (ts.map Transaction.row)

def Transaction.Ascii (t : Transaction) : Prop :=
  ∀ c ∈ t.payee.text ++ (t.memo.text ++ t.id.text), c.toNat < 128

/-- What a dialect asks of the transactions. -/
def Dialect.Exact : Dialect → List Transaction → Prop
  | .unclosed, ts => ts = []
  | .closed, ts => ∀ t ∈ ts, t.Ascii
  | .xml, _ => True

/-! ## Fields -/

section

open Ofx

variable {t : Transaction}

theorem isDigit_compact {d : NaiveDate} : ∀ c ∈ compact d, c.isDigit = true := by
  intro c hc
  simp only [compact, List.mem_append] at hc
  rcases hc with hc | hc | hc
  · exact isDigit_of_mem_padZero hc
  · exact isDigit_of_mem_padZero hc
  · exact isDigit_of_mem_padZero hc

theorem toNat_of_isDigit {c : Char} (h : c.isDigit = true) : c.toNat < 128 := by
  simp only [Char.isDigit, Bool.and_eq_true, decide_eq_true_eq] at h
  have hle : c.toNat ≤ 57 := UInt32.le_iff_toNat_le.mp h.2
  omega

theorem isWhitespace_of_graphic {c : Char} (h : isAsciiGraphic c = true) :
    isWhitespace c = false := by
  simp only [isAsciiGraphic, Bool.and_eq_true, decide_eq_true_eq] at h
  simp only [isWhitespace, Bool.or_eq_false_iff, Bool.and_eq_false_iff, decide_eq_false_iff_not,
    beq_eq_false_iff_ne]
  omega

theorem trim_compact (d : NaiveDate) {cs : List Char} (h : ∀ c ∈ cs, isAsciiGraphic c = true) :
    trim (String.ofList (compact d ++ cs)) = String.ofList (compact d ++ cs) := by
  refine trim_eq_self fun c hc => ?_
  rw [String.toList_ofList, List.mem_append] at hc
  rcases hc with hc | hc
  · exact isWhitespace_of_isDigit (isDigit_compact c hc)
  · exact isWhitespace_of_graphic (h c hc)

theorem dateCore_compact {d : NaiveDate} {time : List Char}
    (h : ∀ c ∈ time, isAsciiGraphic c = true) :
    ∃ rest, dateCore (String.ofList (compact d ++ time)) = String.ofList (compact d ++ rest) := by
  have hne : compact d ≠ [] := List.append_ne_nil_of_left_ne_nil (toList_padZero_ne_nil _ _) _
  obtain ⟨front, last, hlast⟩ := (List.eq_nil_or_concat (compact d)).resolve_left hne
  rw [List.concat_eq_append] at hlast
  have hdigit : last.isDigit = true := isDigit_compact last (by rw [hlast]; simp)
  have hbracket : decide (last = ']') = false := by
    rw [decide_eq_false_iff_not]
    rintro rfl
    cases hdigit
  refine ⟨(time.reverse.dropWhile fun c => c = ']').reverse, ?_⟩
  have hend : trimEndMatches ']' (String.ofList (compact d ++ time)) =
      String.ofList (compact d ++ (time.reverse.dropWhile fun c => c = ']').reverse) := by
    rw [trimEndMatches, String.toList_ofList, hlast, List.append_assoc, List.singleton_append,
      dropEnd_append_cons front time hbracket, List.append_assoc, List.singleton_append]
  rw [dateCore, trim_compact d h, hend]
  refine trim_compact d fun c hc => h c ?_
  exact List.mem_reverse.mp ((List.dropWhile_sublist _).subset (List.mem_reverse.mp hc))

theorem normaliseDate_compact {d : NaiveDate} (hyear : 0 ≤ d.year ∧ d.year ≤ 9999)
    {time : List Char} (h : ∀ c ∈ time, isAsciiGraphic c = true) :
    normaliseDate (String.ofList (compact d ++ time)) = some d.display := by
  obtain ⟨rest, hcore⟩ := dateCore_compact (d := d) h
  obtain ⟨hfour, htwo, htwo'⟩ := length_parts hyear
  have hbytes : ∀ width n, byteLen (padZero width n).toList = (padZero width n).toList.length :=
    fun width n => byteLen_of_ascii fun c hc => toNat_of_isDigit (isDigit_of_mem_padZero hc)
  have hlong : ¬ byteLen (compact d ++ rest) < 8 := by
    have hsum : byteLen (compact d ++ rest) = byteLen (padZero 4 d.year.toNat).toList +
        (byteLen (padZero 2 d.month).toList +
          (byteLen (padZero 2 d.day).toList + byteLen rest)) := by
      simp [byteLen, compact]
    rw [hsum, hbytes, hbytes, hbytes]
    omega
  have hslice : sliceDate (compact d ++ rest) =
      some (padZero 4 d.year.toNat ++ "-" ++ padZero 2 d.month ++ "-" ++ padZero 2 d.day) := by
    simp only [sliceDate, compact, List.append_assoc, Option.bind_eq_bind,
      splitBytes_append ((hbytes _ _).trans hfour), splitBytes_append ((hbytes _ _).trans htwo),
      splitBytes_append ((hbytes _ _).trans htwo'), Option.bind_some, String.ofList_toList]
  have hdisplay : d.display =
      padZero 4 d.year.toNat ++ "-" ++ padZero 2 d.month ++ "-" ++ padZero 2 d.day := by
    have habs : d.year.natAbs = d.year.toNat := by omega
    simp only [NaiveDate.display, if_neg (not_lt.mpr hyear.1), if_neg (not_lt.mpr hyear.2), habs,
      String.empty_append]
  rw [normaliseDate]
  simp only [hcore, String.toList_ofList, if_neg hlong, hslice, hdisplay]

/-- The text of an amount. -/
def Transaction.amount (t : Transaction) : List Char :=
  (if t.negative then ['-'] else []) ++ t.magnitude

/-- The fields that are read from a transaction whose texts are read by `f`. -/
def Transaction.txn (t : Transaction) (f : List Char → List Char) : Txn where
  trntype := some (if t.negative then "DEBIT" else "CREDIT")
  dtposted := some t.date.display
  trnamt := some (String.ofList t.amount)
  fitid := some (String.ofList (f t.id.text))
  name := some (String.ofList (f t.payee.text))
  memo := some (String.ofList (f t.memo.text))

theorem trim_amount (t : Transaction) :
    trim (String.ofList t.amount) = String.ofList t.amount := by
  refine trim_eq_self fun c hc => ?_
  rw [String.toList_ofList, Transaction.amount, List.mem_append] at hc
  rcases hc with hc | hc
  · split at hc
    · rw [List.mem_singleton.mp hc]
      rfl
    · cases hc
  · rcases t.magnitude_plain c hc with hdigit | rfl
    · exact isWhitespace_of_isDigit hdigit
    · rfl

theorem startsWith_amount (t : Transaction) :
    startsWith "-" (String.ofList t.amount) = t.negative := by
  have hminus : "-".toList = ['-'] := rfl
  rw [startsWith, hminus, String.toList_ofList, Transaction.amount]
  cases hnegative : t.negative with
  | true => rfl
  | false =>
    obtain ⟨c, cs, hcs⟩ := List.exists_cons_of_ne_nil t.magnitude_filled
    have hc : c ≠ '-' := by
      rintro rfl
      rcases t.magnitude_plain '-' (by rw [hcs]; simp) with h | h <;> cases h
    simp [hcs, List.isPrefixOf, hc.symm]

theorem pushTxn_txn {f : List Char → List Char}
    (hmemo : trim (String.ofList (f t.memo.text)) ≠ "") :
    pushTxn (t.txn f) = some (t.rowAs f) := by
  have hfilled : String.ofList t.amount ≠ "" := by
    simp [Transaction.amount, t.magnitude_filled]
  have htail : t.negative = true → t.amount.tail = t.magnitude := by
    intro h
    simp [Transaction.amount, h]
  have hwhole : t.negative = false → t.amount = t.magnitude := by
    intro h
    simp [Transaction.amount, h]
  simp only [pushTxn, Transaction.txn, Option.bind_eq_bind, Option.bind_some, trim_amount,
    if_neg hfilled, startsWith_amount, Option.filter_some, hmemo, ne_eq, not_false_eq_true,
    decide_true, if_true, Option.orElse_some, Option.getD_some, String.toList_ofList]
  cases hnegative : t.negative with
  | true => simp [Transaction.rowAs, hnegative, htail hnegative]
  | false => simp [Transaction.rowAs, hnegative, hwhole hnegative]

theorem foldlM_set (trntype dtposted trnamt fitid name memo : String) :
    [("TRNTYPE", trntype), ("DTPOSTED", dtposted), ("TRNAMT", trnamt), ("FITID", fitid),
      ("NAME", name), ("MEMO", memo)].foldlM (fun t e => Txn.set t e.1 e.2) ({} : Txn) =
      (normaliseDate dtposted).map fun date =>
        { trntype := some trntype, dtposted := some date, trnamt := some trnamt
          fitid := some fitid, name := some name, memo := some memo } := by
  have hset : ∀ (t : Txn) (tag value : String), toAsciiUppercase tag = tag → Txn.set t tag value =
      if tag = "DTPOSTED" then (normaliseDate value).map fun d => { t with dtposted := some d }
      else if tag = "TRNAMT" then some { t with trnamt := some value }
      else if tag = "NAME" then some { t with name := some value }
      else if tag = "MEMO" then some { t with memo := some value }
      else if tag = "FITID" then some { t with fitid := some value }
      else if tag = "TRNTYPE" then some { t with trntype := some value }
      else some t := by
    intro t tag value h
    rw [Txn.set, h]
  simp only [List.foldlM_cons, List.foldlM_nil, hset _ "TRNTYPE" _ (by decide),
    hset _ "DTPOSTED" _ (by decide), hset _ "TRNAMT" _ (by decide), hset _ "FITID" _ (by decide),
    hset _ "NAME" _ (by decide), hset _ "MEMO" _ (by decide)]
  cases hdate : normaliseDate dtposted with
  | none => simp
  | some date => simp

end

/-! ## Lines of SGML -/

section

open Ofx

/-- Not a bracket that opens right behind one that closes. -/
def Apart (a b : Char) : Prop := a = '>' → b ≠ '<'

instance : DecidableRel Apart :=
  fun a b => inferInstanceAs (Decidable (a = '>' → b ≠ '<'))

theorem normaliseFrom_large {bytes : List UInt8} (h : ∀ b ∈ bytes, 128 ≤ b.toNat) (hne : bytes ≠ [])
    (last : Bool) (rest : List UInt8) :
    normaliseFrom last (bytes ++ rest) = (normaliseFrom false rest).map fun cs =>
      (bytes.map fun b => Char.ofNat b.toNat) ++ cs := by
  induction bytes generalizing last with
  | nil => exact absurd rfl hne
  | cons b bs ih =>
    obtain ⟨hb, hbs⟩ := List.forall_mem_cons.mp h
    have hother : ∀ c : Char, c.toNat < 128 → Char.ofNat b.toNat ≠ c := by
      rintro c hc rfl
      rw [toNat_ofNat_byte b.toNat_lt] at hc
      omega
    have hopen := hother '<' (by decide)
    have hclose := hother '>' (by decide)
    have hrest : normaliseFrom false (bs ++ rest) = (normaliseFrom false rest).map fun cs =>
        (bs.map fun b => Char.ofNat b.toNat) ++ cs := by
      cases bs with
      | nil => simp
      | cons b' bs => exact ih hbs (List.cons_ne_nil _ _) false
    simp only [List.cons_append, normaliseFrom, hopen, hclose, false_and, if_false,
      decide_false, Option.bind_eq_bind, Option.bind_some, hrest]
    cases normaliseFrom false rest with
    | none => rfl
    | some cs => simp

variable {cs : List Char} {field : String × List Char}

/-- Text without a bracket that opens right behind a closing one gets no line ends. -/
theorem normaliseFrom_apart (h : cs.IsChain Apart) {last : Bool}
    (hlast : last = true → cs.head? ≠ some '<') :
    normaliseFrom last (cs.flatMap String.utf8EncodeChar) = some (byteText cs) := by
  induction cs generalizing last with
  | nil => rfl
  | cons c cs ih =>
    have hcs := List.IsChain.of_cons h
    have hbytes : byteText (c :: cs) = byteText [c] ++ byteText cs := by
      rw [← byteText_append, List.singleton_append]
    rw [List.flatMap_cons, hbytes]
    by_cases hc : c.toNat < 128
    · have hnext : (decide (c = '>')) = true → cs.head? ≠ some '<' := by
        intro hclose hopen
        obtain ⟨ds, rfl⟩ : ∃ ds, cs = '<' :: ds := List.head?_eq_some_iff.mp hopen
        exact (List.isChain_cons_cons.mp h).1 (of_decide_eq_true hclose) rfl
      have hopen : ¬ (c = '<' ∧ last = true) := by
        rintro ⟨rfl, hl⟩
        exact hlast hl rfl
      have hbyte : Char.ofNat (UInt8.ofNat c.toNat).toNat = c := by
        rw [UInt8.toNat_ofNat', Nat.mod_eq_of_lt (by omega), Char.ofNat_toNat]
      rw [utf8EncodeChar_of_ascii hc, byteText_of_ascii hc]
      simp only [List.cons_append, List.nil_append, normaliseFrom, hbyte, if_neg hopen,
        Option.bind_eq_bind, Option.bind_some, ih hcs hnext]
      simp
    · rw [normaliseFrom_large (fun b => le_of_mem_utf8EncodeChar (by omega))
        String.utf8EncodeChar_ne_nil, ih hcs (by simp)]
      simp [byteText]

theorem normaliseSgml_ofList (h : cs.IsChain Apart) :
    normaliseSgml (String.ofList cs) = some (String.ofList (byteText cs)) := by
  rw [normaliseSgml, utf8_ofList, normaliseFrom_apart h (by simp), Option.map_some]

theorem isChain_lines {ls : List (List Char)} (h : ∀ l ∈ ls, l.IsChain Apart) :
    (ls.flatMap fun l => l ++ ['\n']).IsChain Apart := by
  induction ls with
  | nil => exact .nil
  | cons l ls ih =>
    obtain ⟨hl, hls⟩ := List.forall_mem_cons.mp h
    rw [List.flatMap_cons, List.append_assoc, List.isChain_append]
    refine ⟨hl, ?_, fun a _ b hb hclose => ?_⟩
    · rw [List.singleton_append]
      cases hrest : ls.flatMap fun l => l ++ ['\n'] with
      | nil => exact .singleton _
      | cons d ds =>
        rw [List.isChain_cons_cons, ← hrest]
        exact ⟨fun hbreak => absurd hbreak (by decide), ih hls⟩
    · simp only [List.singleton_append, List.head?_cons, Option.mem_some_iff] at hb
      rw [← hb]
      decide

theorem unlines_ofList (ls : List (List Char)) :
    unlines (ls.map String.ofList) = String.ofList (ls.flatMap fun l => l ++ ['\n']) := by
  induction ls with
  | nil => rfl
  | cons l ls ih =>
    rw [unlines] at ih ⊢
    rw [List.map_cons, List.map_cons, String.join_cons, ih, List.flatMap_cons,
      String.ofList_append, String.ofList_append]

theorem normaliseSgml_unlines {ls : List (List Char)} (h : ∀ l ∈ ls, l.IsChain Apart) :
    normaliseSgml (unlines (ls.map String.ofList)) =
      some (unlines ((ls.map byteText).map String.ofList)) := by
  have hbytes : byteText (ls.flatMap fun l => l ++ ['\n']) =
      (ls.map byteText).flatMap fun l => l ++ ['\n'] := by
    induction ls with
    | nil => rfl
    | cons l ls ih =>
      rw [List.flatMap_cons, byteText_append, byteText_append, ih (List.forall_mem_cons.mp h).2]
      rfl
  rw [unlines_ofList, normaliseSgml_ofList (isChain_lines h), hbytes, unlines_ofList]

/-- The search for an end tag. -/
def ends (s : List Char) : Bool := ['<', '/'].isPrefixOf s

theorem ends_plain : ∀ c ≠ '<', ∀ rest, ends (c :: rest) = false := by
  intro c hc rest
  simp [ends, List.isPrefixOf, hc.symm]

theorem ends_start {c : Char} (hc : c ≠ '/') (rest : List Char) :
    ends ('<' :: c :: rest) = false := by
  simp [ends, List.isPrefixOf, hc.symm]

theorem ends_end (rest : List Char) : ends ('<' :: '/' :: rest) = true := by
  simp [ends, List.isPrefixOf]

theorem cutBefore_ends_none (h : '<' ∉ cs) : cutBefore ends cs = none := by
  have hcut : cutBefore ends (cs ++ []) = (cutBefore ends []).map fun r => (cs ++ r.1, r.2) :=
    OfxStatements.cutBefore_plain ends_plain h
  rw [List.append_nil] at hcut
  rw [hcut]
  rfl

theorem chunks_of_none (h : cutBefore ends cs = none) : chunks cs = [cs] := by
  have hcut : cutChunk cs = none := by
    rw [cutChunk]
    exact congrArg (fun o => Option.bind o _) h
  rw [chunks]
  split
  · rfl
  · next heq => rw [hcut] at heq; cases heq

theorem chunks_of_end {inner : List Char}
    (h : cutBefore ends (cs ++ '<' :: '/' :: (inner ++ ['>'])) =
      some (cs, '<' :: '/' :: (inner ++ ['>']))) (hinner : '>' ∉ inner) :
    chunks (cs ++ '<' :: '/' :: (inner ++ ['>'])) =
      [cs ++ '<' :: '/' :: (inner ++ ['>']), []] := by
  have hclose : cutAt '>' ('<' :: '/' :: (inner ++ ['>'])) = some ('<' :: '/' :: inner, []) :=
    cutAt_eq_some.mpr ⟨by simp, by simp [hinner]⟩
  have hcut : cutChunk (cs ++ '<' :: '/' :: (inner ++ ['>'])) =
      some (cs ++ '<' :: '/' :: (inner ++ ['>']), []) := by
    rw [cutChunk, Option.bind_eq_bind]
    refine (congrArg (fun o => Option.bind o _) h).trans ?_
    simp [hclose]
  rw [chunks]
  split
  · next heq => rw [hcut] at heq; cases heq
  · next heq =>
      rw [hcut] at heq
      cases heq
      rw [chunks_of_none (by rfl)]

/-- The lines that a line of the text is cut into. -/
def logicalOf (raw : String) : List String :=
  ((chunks (trim raw).toList).map fun chunk => trim (String.ofList chunk)).filter
    fun line => line ≠ ""

theorem logicalLines_unlines {ls : List String} (h : ∀ l ∈ ls, IsLine l) :
    logicalLines (unlines ls) = ls.flatMap logicalOf := by
  rw [logicalLines, lines_unlines h]
  rfl

/-- The tags of the fields. -/
def tags : List String := ["TRNTYPE", "DTPOSTED", "TRNAMT", "FITID", "NAME", "MEMO"]

theorem trim_tagged (tag x : List Char) :
    trim (String.ofList ('<' :: (tag ++ '>' :: x))) =
      String.ofList ('<' :: (tag ++ '>' :: (trimEnd (String.ofList x)).toList)) := by
  have htrim := trim_append '<' tag '>' (String.ofList x) (by decide) (by decide)
  have hjoin : ∀ cs : List Char, String.ofList ('<' :: (tag ++ '>' :: cs)) =
      String.ofList ('<' :: (tag ++ ['>'])) ++ String.ofList cs := by
    intro cs
    rw [← String.ofList_append]
    simp
  rw [hjoin x, htrim, hjoin (trimEnd (String.ofList x)).toList, String.ofList_toList]

/-- The value of a field goes up to the next end tag, and is empty if there is none. -/
theorem parseSgmlValue_tag {tag : String} (htag : tag ∈ tags) (x : List Char) :
    parseSgmlValue (String.ofList ('<' :: (tag.toList ++ '>' :: x))) =
      some (tag, ((splitAtStr "</" (trimEnd (String.ofList x))).map Prod.fst).getD "") := by
  have hplain : ∀ tag ∈ tags, '>' ∉ tag.toList ∧ trimEndMatches '/' tag = tag ∧
      isTag tag = true := by decide
  obtain ⟨hclose, hslash, hisTag⟩ := hplain tag htag
  have hstrip : ∀ cs : List Char, stripPrefix "<" (String.ofList ('<' :: cs)) =
      some (String.ofList cs) := by
    intro cs
    simp [stripPrefix]
  have hsplit : ∀ text : String, splitOnce '>' (String.ofList (tag.toList ++ '>' :: text.toList)) =
      some (tag, text) :=
    fun text => splitOnce_eq_some.mpr ⟨by simp, hclose⟩
  rw [parseSgmlValue, trim_tagged]
  simp only [taggedValue, hstrip, Option.bind_eq_bind, Option.bind_some, hsplit, hslash, hisTag,
    if_true, Option.orElse_some]

theorem not_startsWith_tag {pat line : String} {c d : Char} {p : List Char}
    (hpat : pat.toList = '<' :: c :: p) (hline : line.toList = '<' :: d :: cs) (h : c ≠ d) :
    startsWith pat line = false := by
  simp [startsWith, hpat, hline, List.isPrefixOf, h]

theorem step_tag {s : State} (hin : s.inStmt = true) {tag : String} (htag : tag ∈ tags)
    (x : List Char) :
    step s (String.ofList ('<' :: (tag.toList ++ '>' :: x))) =
      (s.current.set tag (((splitAtStr "</" (trimEnd (String.ofList x))).map Prod.fst).getD "")).map
        fun t => { s with current := t } := by
  have hstart : ∀ tag ∈ tags, (tag.toList.map Char.toUpper).head?.any
      (fun c => c ≠ '/' && c ≠ 'S' && c ≠ 'O') = true := by decide
  obtain ⟨d, ds, hd, hother⟩ : ∃ d ds, tag.toList.map Char.toUpper = d :: ds ∧
      d ≠ '/' ∧ d ≠ 'S' ∧ d ≠ 'O' := by
    have hany := hstart tag htag
    cases htext : tag.toList.map Char.toUpper with
    | nil => simp [htext] at hany
    | cons d ds =>
      rw [htext] at hany
      exact ⟨d, ds, rfl, by simpa [and_assoc] using hany⟩
  have hupper : (toAsciiUppercase (String.ofList ('<' :: (tag.toList ++ '>' :: x)))).toList =
      '<' :: d :: (ds ++ '>' :: x.map Char.toUpper) := by
    have hopen : Char.toUpper '<' = '<' := by decide
    have hclose : Char.toUpper '>' = '>' := by decide
    rw [toAsciiUppercase, String.toList_ofList, String.toList_ofList, List.map_cons,
      List.map_append, List.map_cons, hd, hopen, hclose, List.cons_append]
  have hheader : startsWith "OFXHEADER:"
      (toAsciiUppercase (String.ofList ('<' :: (tag.toList ++ '>' :: x)))) = false := by
    have hpat : "OFXHEADER:".toList = 'O' :: "FXHEADER:".toList := rfl
    rw [startsWith, hpat, hupper]
    rfl
  have hofx : toAsciiUppercase (String.ofList ('<' :: (tag.toList ++ '>' :: x))) ≠ "<OFX>" := by
    intro heq
    rw [heq] at hupper
    exact hother.2.2 (List.cons.inj (List.cons.inj hupper).2).1.symm
  have hopens : startsWith "<STMTTRN>" _ = false := not_startsWith_tag rfl hupper hother.2.1.symm
  have hends : startsWith "</STMTTRN>" _ = false := not_startsWith_tag rfl hupper hother.1.symm
  simp only [step, hheader, hofx, hopens, hends, hin, parseSgmlValue_tag htag, Bool.false_eq_true,
    or_self, if_false, if_true]

/-! ### Fields of both dialects -/

/-- What a dialect leaves of a value. -/
def Dialect.read (d : Dialect) (v : List Char) : List Char :=
  if d = .unclosed then [] else byteText v

theorem splitAtStr_ends (cs : List Char) :
    (splitAtStr "</" (String.ofList cs)).map Prod.fst =
      (cutBefore ends cs).map fun r => String.ofList r.1 := by
  have hpat : "</".toList = ['<', '/'] := rfl
  rw [splitAtStr, hpat, cutAtStr, String.toList_ofList, Option.map_map, Option.map_map]
  rfl

theorem cutBefore_front {tag y : List Char} (htag : tag ≠ []) (hslash : tag.head? ≠ some '/')
    (hopen : '<' ∉ tag) (hy : '<' ∉ y) (rest : List Char) :
    cutBefore ends (('<' :: (tag ++ '>' :: y)) ++ rest) =
      (cutBefore ends rest).map fun r => (('<' :: (tag ++ '>' :: y)) ++ r.1, r.2) := by
  obtain ⟨c, cs, rfl⟩ := List.exists_cons_of_ne_nil htag
  have hc : c ≠ '/' := by
    rintro rfl
    exact hslash rfl
  have htail : '<' ∉ c :: cs ++ '>' :: y := by simp_all
  have hstart : ends ('<' :: (c :: cs ++ '>' :: y) ++ rest) = false := ends_start hc _
  rw [List.cons_append] at hstart ⊢
  rw [cutBefore_neg hstart, OfxStatements.cutBefore_plain ends_plain htail, Option.map_map]
  rfl

theorem plain_tags : ∀ tag ∈ tags, tag.toList ≠ [] ∧ tag.toList.head? ≠ some '/' ∧
    '<' ∉ tag.toList ∧ '>' ∉ tag.toList ∧ ∀ c ∈ tag.toList, c.toNat < 128 := by
  decide

theorem byteText_fieldLine (d : Dialect) (htag : field.1 ∈ tags) :
    byteText (d.fieldLine field) = '<' :: (field.1.toList ++ '>' :: (byteText field.2 ++
      if d = .unclosed then [] else '<' :: '/' :: (field.1.toList ++ ['>']))) := by
  have hascii := byteText_eq_self.mpr (plain_tags field.1 htag).2.2.2.2
  have hone : ∀ (c : Char) (cs : List Char), c.toNat < 128 →
      byteText (c :: cs) = c :: byteText cs := by
    intro c cs hc
    rw [← List.singleton_append, byteText_append, byteText_of_ascii hc, List.singleton_append]
  rw [Dialect.fieldLine, hone _ _ (by decide), byteText_append, hascii, hone _ _ (by decide),
    byteText_append]
  congr 4
  split
  · rfl
  · rw [hone _ _ (by decide), hone _ _ (by decide), byteText_append, hascii]
    rfl

/-- The line of a field sets the field of the current transaction. -/
theorem step_fieldLine {s : State} (hin : s.inStmt = true) {d : Dialect} (htag : field.1 ∈ tags)
    (hplain : '<' ∉ field.2) :
    ∃ line, logicalOf (String.ofList (byteText (d.fieldLine field))) = [line] ∧
      step s line = (s.current.set field.1 (String.ofList (d.read field.2))).map
        fun t => { s with current := t } := by
  obtain ⟨hne, hslash, hopen, hclose, -⟩ := plain_tags field.1 htag
  have hbytes : '<' ∉ byteText field.2 := fun h => hplain ((mem_byteText (by decide)).mp h)
  have hcut : ∀ y, '<' ∉ y → ∀ rest,
      cutBefore ends (('<' :: (field.1.toList ++ '>' :: y)) ++ rest) =
        (cutBefore ends rest).map fun r => (('<' :: (field.1.toList ++ '>' :: y)) ++ r.1, r.2) :=
    fun y hy rest => cutBefore_front hne hslash hopen hy rest
  rw [byteText_fieldLine d htag]
  by_cases hd : d = .unclosed
  · have hquiet : ∀ y, '<' ∉ y → '<' ∉ (trimEnd (String.ofList y)).toList := by
      intro y hy h
      rw [trimEnd, String.toList_ofList, String.toList_ofList, List.mem_reverse] at h
      exact hy (List.mem_reverse.mp ((List.dropWhile_sublist _).subset h))
    obtain ⟨y, hy⟩ : ∃ y, y = (trimEnd (String.ofList (byteText field.2))).toList := ⟨_, rfl⟩
    obtain ⟨z, hz⟩ : ∃ z, z = (trimEnd (String.ofList y)).toList := ⟨_, rfl⟩
    have hyopen : '<' ∉ y := hy ▸ hquiet _ hbytes
    have hzopen : '<' ∉ z := hz ▸ hquiet _ hyopen
    have hnone : cutBefore ends ('<' :: (field.1.toList ++ '>' :: y)) = none := by
      have h := hcut y hyopen []
      rw [List.append_nil] at h
      rw [h]
      rfl
    refine ⟨String.ofList ('<' :: (field.1.toList ++ '>' :: z)), ?_, ?_⟩
    · rw [if_pos hd, List.append_nil, logicalOf, trim_tagged, ← hy, String.toList_ofList,
        chunks_of_none hnone, List.map_singleton, trim_tagged, ← hz]
      simp
    · rw [step_tag hin htag z, ← String.ofList_toList (s := trimEnd (String.ofList z)),
        splitAtStr_ends, cutBefore_ends_none (hquiet z hzopen), Dialect.read, if_pos hd]
      rfl
  · rw [if_neg hd]
    obtain ⟨ending, hending⟩ : ∃ e, e = '<' :: '/' :: (field.1.toList ++ ['>']) := ⟨_, rfl⟩
    have htrim : trimEnd (String.ofList (byteText field.2 ++ ending)) =
        String.ofList (byteText field.2 ++ ending) := by
      refine trimEnd_eq_self fun c hc => ?_
      have hlast : (byteText field.2 ++ ending).getLast? = some '>' := by
        have hconcat : byteText field.2 ++ ending =
            (byteText field.2 ++ '<' :: '/' :: field.1.toList) ++ ['>'] := by simp [hending]
        rw [hconcat, List.getLast?_concat]
      rw [String.toList_ofList, hlast, Option.mem_some_iff] at hc
      rw [← hc]
      rfl
    have hend : ∀ y, '<' ∉ y → cutBefore ends (y ++ ending) = some (y, ending) := by
      intro y hy
      rw [OfxStatements.cutBefore_plain ends_plain hy, hending, cutBefore_pos (ends_end _)]
      simp
    have hchunks : chunks ('<' :: (field.1.toList ++ '>' :: (byteText field.2 ++ ending))) =
        ['<' :: (field.1.toList ++ '>' :: (byteText field.2 ++ ending)), []] := by
      have hwhole : '<' :: (field.1.toList ++ '>' :: (byteText field.2 ++ ending)) =
          ('<' :: (field.1.toList ++ '>' :: byteText field.2)) ++ ending := by simp
      rw [hwhole, hending]
      refine chunks_of_end ?_ hclose
      rw [hcut _ hbytes, cutBefore_pos (ends_end _), Option.map_some, List.append_nil]
    refine ⟨String.ofList ('<' :: (field.1.toList ++ '>' :: (byteText field.2 ++ ending))), ?_, ?_⟩
    · rw [← hending, logicalOf, trim_tagged, htrim, String.toList_ofList, String.toList_ofList,
        hchunks, List.map_cons, List.map_singleton, trim_tagged, htrim, String.toList_ofList]
      have hempty : trim (String.ofList []) = "" := rfl
      simp [hempty]
    · rw [step_tag hin htag, htrim, splitAtStr_ends, hend _ hbytes, Dialect.read, if_neg hd]
      rfl

theorem foldlM_fieldLines {d : Dialect} {fields : List (String × List Char)}
    (h : ∀ field ∈ fields, field.1 ∈ tags ∧ '<' ∉ field.2) {s : State} (hin : s.inStmt = true) :
    ((fields.map fun field => String.ofList (byteText (d.fieldLine field))).flatMap
        logicalOf).foldlM step s =
      ((fields.map fun field => (field.1, String.ofList (d.read field.2))).foldlM
        (fun t field => Txn.set t field.1 field.2) s.current).map
          fun t => { s with current := t } := by
  induction fields generalizing s with
  | nil => rfl
  | cons field fields ih =>
    obtain ⟨⟨htag, hopen⟩, hfields⟩ := List.forall_mem_cons.mp h
    obtain ⟨line, hline, hstep⟩ := step_fieldLine (d := d) hin htag hopen
    rw [List.map_cons, List.flatMap_cons, hline, List.singleton_append, List.foldlM_cons, hstep,
      List.map_cons, List.foldlM_cons]
    cases Txn.set s.current field.1 (String.ofList (d.read field.2)) with
    | none => rfl
    | some t => exact ih hfields (s := { s with current := t }) hin

/-- A character of a value. -/
def Inner (c : Char) : Prop := c ≠ '<' ∧ c ≠ '>' ∧ c ≠ '\n' ∧ c ≠ '\r'

theorem inner_of_graphic {c : Char} (h : isAsciiGraphic c = true ∧ c ≠ '<' ∧ c ≠ '>') :
    Inner c := by
  refine ⟨h.2.1, h.2.2, ?_, ?_⟩ <;> rintro rfl <;> exact absurd h.1 (by decide)

theorem inner_of_isDigit {c : Char} (h : c.isDigit = true) : Inner c := by
  refine ⟨?_, ?_, ?_, ?_⟩ <;> rintro rfl <;> cases h

theorem inner_magnitude (t : Transaction) : ∀ c ∈ t.magnitude, Inner c := by
  intro c hc
  rcases t.magnitude_plain c hc with h | rfl
  · exact inner_of_isDigit h
  · exact ⟨by decide, by decide, by decide, by decide⟩

/-- The fields of a transaction have the tags, and values without brackets and line breaks. -/
theorem plain_fields (t : Transaction) :
    ∀ field ∈ t.fields, field.1 ∈ tags ∧ field.2 ≠ [] ∧ ∀ c ∈ field.2, Inner c := by
  have htype : ∀ c ∈ (if t.negative then "DEBIT" else "CREDIT").toList, Inner c := by
    have hall : ∀ b : Bool, ∀ c ∈ (if b then "DEBIT" else "CREDIT").toList,
        c ≠ '<' ∧ c ≠ '>' ∧ c ≠ '\n' ∧ c ≠ '\r' := by decide
    exact hall t.negative
  have htype' : (if t.negative then "DEBIT" else "CREDIT").toList ≠ [] := by
    cases t.negative <;> decide
  have hcompact : compact t.date ≠ [] :=
    List.append_ne_nil_of_left_ne_nil (toList_padZero_ne_nil _ _) _
  simp only [Transaction.fields, List.forall_mem_cons]
  refine ⟨⟨by decide, htype', htype⟩, ⟨by decide, by simp [hcompact], ?_⟩,
    ⟨by decide, by simp [t.magnitude_filled], ?_⟩, ⟨by decide, t.id.filled, t.id.plain⟩,
    ⟨by decide, t.payee.filled, t.payee.plain⟩, ⟨by decide, t.memo.filled, t.memo.plain⟩, by simp⟩
  · intro c hc
    rcases List.mem_append.mp hc with hc | hc
    · exact inner_of_isDigit (isDigit_compact c hc)
    · exact inner_of_graphic (t.time_plain c hc)
  · intro c hc
    rcases List.mem_append.mp hc with hc | hc
    · split at hc
      · rw [List.mem_singleton.mp hc]
        exact ⟨by decide, by decide, by decide, by decide⟩
      · cases hc
    · exact inner_magnitude t c hc

theorem step_start (s : State) :
    step s "<STMTTRN>" = some { s with inStmt := true, current := {} } := rfl

theorem step_end (s : State) :
    step s "</STMTTRN>" =
      some { s with out := s.out ++ (pushTxn s.current).toList, inStmt := false } := rfl

theorem logicalOf_plain {line : String} (htrim : trim line = line) (hne : line ≠ "")
    (hnone : cutBefore ends line.toList = none) : logicalOf line = [line] := by
  rw [logicalOf, htrim, chunks_of_none hnone, List.map_singleton, String.ofList_toList, htrim]
  simp [hne]

theorem logicalOf_ending {line : String} {inner : List Char}
    (hline : line.toList = '<' :: '/' :: (inner ++ ['>'])) (htrim : trim line = line)
    (hinner : '>' ∉ inner) : logicalOf line = [line] := by
  have hchunks : chunks line.toList = [line.toList, []] := by
    have h : chunks ([] ++ '<' :: '/' :: (inner ++ ['>'])) = _ :=
      chunks_of_end (cutBefore_pos (ends_end _)) hinner
    rw [hline]
    exact h
  have hne : line ≠ "" := by
    rintro rfl
    cases hline
  have hempty : trim (String.ofList []) = "" := rfl
  rw [logicalOf, htrim, hchunks, List.map_cons, List.map_singleton, String.ofList_toList, htrim,
    hempty]
  simp [hne]

theorem Value.exists_solid (v : Value) : ∃ c ∈ v.text, isWhitespace c = false := by
  by_contra hnone
  have hall : ∀ c ∈ v.text, isWhitespace c = true := by
    intro c hc
    by_contra hsolid
    exact hnone ⟨c, hc, by simpa using hsolid⟩
  have hblank : trim (String.ofList v.text) = "" := by
    rw [trim, String.toList_ofList, List.dropWhile_eq_nil_iff.mpr hall]
    rfl
  rw [v.trimmed] at hblank
  exact v.filled (by simpa using hblank)

theorem Value.trim_byteText (v : Value) : trim (String.ofList (byteText v.text)) ≠ "" := by
  obtain ⟨c, hc, hsolid⟩ := v.exists_solid
  by_cases hascii : c.toNat < 128
  · have hmem : c ∈ byteText v.text := (mem_byteText hascii).mpr hc
    exact trim_ne_empty (by simpa using hmem) hsolid
  · obtain ⟨b, hb, hlead⟩ := exists_lead_byte (by omega : 128 ≤ c.toNat)
    have hmem : Char.ofNat b.toNat ∈ byteText v.text :=
      List.mem_map.mpr ⟨b, List.mem_flatMap.mpr ⟨c, hc, hb⟩, rfl⟩
    refine trim_ne_empty (c := Char.ofNat b.toNat) (by simpa using hmem) ?_
    have hlt := b.toNat_lt
    simp only [isWhitespace, toNat_ofNat_byte hlt, Bool.or_eq_false_iff, Bool.and_eq_false_iff,
      decide_eq_false_iff_not, beq_eq_false_iff_ne]
    omega

theorem byteText_amount (t : Transaction) : byteText t.amount = t.amount := by
  refine byteText_eq_self.mpr fun c hc => ?_
  rcases List.mem_append.mp hc with hc | hc
  · split at hc
    · rw [List.mem_singleton.mp hc]
      decide
    · cases hc
  · rcases t.magnitude_plain c hc with h | rfl
    · exact toNat_of_isDigit h
    · decide

theorem byteText_date (t : Transaction) :
    byteText (compact t.date ++ t.time) = compact t.date ++ t.time := by
  refine byteText_eq_self.mpr fun c hc => ?_
  rcases List.mem_append.mp hc with hc | hc
  · exact toNat_of_isDigit (isDigit_compact c hc)
  · have hgraphic := (t.time_plain c hc).1
    simp only [isAsciiGraphic, Bool.and_eq_true, decide_eq_true_eq] at hgraphic
    omega

/-- The rows that the SGML parser returns for a transaction. -/
def Dialect.rows (d : Dialect) (t : Transaction) : List ParsedRow :=
  if d = .unclosed then [] else [t.rowAs byteText]

theorem exists_txn (d : Dialect) (t : Transaction) :
    ∃ txn, (t.fields.map fun field => (field.1, String.ofList (d.read field.2))).foldlM
      (fun t field => Txn.set t field.1 field.2) {} = some txn ∧
        (pushTxn txn).toList = d.rows t := by
  have hdate := normaliseDate_compact t.year fun c hc => (t.time_plain c hc).1
  have htype : byteText (if t.negative then "DEBIT" else "CREDIT").toList =
      (if t.negative then "DEBIT" else "CREDIT").toList := by
    cases t.negative <;> decide
  rw [Transaction.fields]
  simp only [List.map_cons, List.map_nil, foldlM_set]
  by_cases hd : d = .unclosed
  · have hempty : normaliseDate (String.ofList []) = some "" := by decide
    simp only [Dialect.read, if_pos hd, hempty, Dialect.rows]
    exact ⟨_, rfl, rfl⟩
  · have hamount := byteText_amount t
    simp only [Transaction.amount] at hamount
    simp only [Dialect.read, if_neg hd, byteText_date, htype, hamount, hdate, Option.map_some,
      String.ofList_toList, Dialect.rows]
    exact ⟨_, rfl, congrArg Option.toList (pushTxn_txn t.memo.trim_byteText)⟩

theorem foldlM_lines (d : Dialect) (t : Transaction) (s : State) :
    ∃ current, (((d.lines t).map fun l => String.ofList (byteText l)).flatMap logicalOf).foldlM
      step s = some { out := s.out ++ d.rows t, current := current, inStmt := false } := by
  obtain ⟨txn, htxn, hrows⟩ := exists_txn d t
  have hfields := foldlM_fieldLines (d := d)
    (fun field hfield => ⟨(plain_fields t field hfield).1,
      fun hopen => ((plain_fields t field hfield).2.2 '<' hopen).1 rfl⟩)
    (s := { s with inStmt := true, current := {} }) rfl
  rw [htxn, Option.map_some] at hfields
  have hstart : logicalOf (String.ofList (byteText "<STMTTRN>".toList)) = ["<STMTTRN>"] :=
    @logicalOf_plain "<STMTTRN>" (by decide) (by decide) (by decide)
  have hend : logicalOf (String.ofList (byteText "</STMTTRN>".toList)) = ["</STMTTRN>"] :=
    @logicalOf_ending "</STMTTRN>" "STMTTRN".toList (by decide) (by decide) (by decide)
  refine ⟨txn, ?_⟩
  rw [Dialect.lines, List.map_cons, List.map_append, List.map_singleton, List.map_map,
    List.flatMap_cons, List.flatMap_append, List.flatMap_singleton, hstart, hend,
    List.singleton_append, List.foldlM_cons, step_start, Option.bind_eq_bind, Option.bind_some,
    List.foldlM_append]
  refine (congrArg (fun o => Option.bind o _) hfields).trans ?_
  rw [Option.bind_some, List.foldlM_cons, step_end, hrows]
  rfl

theorem foldlM_transactions (d : Dialect) (ts : List Transaction) (s : State)
    (hs : s.inStmt = false) :
    ∃ current, (((ts.flatMap d.lines).map fun l => String.ofList (byteText l)).flatMap
      logicalOf).foldlM step s =
        some { out := s.out ++ ts.flatMap d.rows, current := current, inStmt := false } := by
  induction ts generalizing s with
  | nil => exact ⟨s.current, by simp [← hs]⟩
  | cons t ts ih =>
    obtain ⟨current, hlines⟩ := foldlM_lines d t s
    obtain ⟨current', hrest⟩ := ih
      { out := s.out ++ d.rows t, current := current, inStmt := false } rfl
    refine ⟨current', ?_⟩
    rw [List.flatMap_cons, List.map_append, List.flatMap_append, List.foldlM_append, hlines,
      Option.bind_eq_bind, Option.bind_some, hrest, List.flatMap_cons, List.append_assoc]

theorem isChain_open (h : '<' ∉ cs) : ('<' :: cs).IsChain Apart := by
  have hcs : cs.IsChain Apart := by
    induction cs with
    | nil => exact .nil
    | cons c cs ih =>
      rw [List.mem_cons, not_or] at h
      cases cs with
      | nil => exact .singleton c
      | cons d ds =>
        refine List.isChain_cons_cons.mpr ⟨fun _ hd => h.2 ?_, ih h.2⟩
        rw [hd]
        exact List.mem_cons_self
  cases cs with
  | nil => exact .singleton _
  | cons c cs => exact List.isChain_cons_cons.mpr ⟨fun hclose => absurd hclose (by decide), hcs⟩

theorem isLine_byteText {l : List Char} (h : ∀ c ∈ l, c ≠ '\n' ∧ c ≠ '\r') :
    IsLine (String.ofList (byteText l)) := by
  have hnot : ∀ c : Char, c.toNat < 128 → (c = '\n' ∨ c = '\r') → c ∉ byteText l := by
    intro c hc hbreak hmem
    have hmem := h c ((mem_byteText hc).mp hmem)
    rcases hbreak with rfl | rfl
    · exact hmem.1 rfl
    · exact hmem.2 rfl
  refine ⟨?_, fun hlast => ?_⟩
  · rw [String.toList_ofList]
    exact hnot '\n' (by decide) (Or.inl rfl)
  · rw [String.toList_ofList] at hlast
    exact hnot '\r' (by decide) (Or.inr rfl) (List.mem_of_getLast? hlast)

theorem plain_fieldLine (d : Dialect) (htag : field.1 ∈ tags) (hne : field.2 ≠ [])
    (hinner : ∀ c ∈ field.2, Inner c) :
    (d.fieldLine field).IsChain Apart ∧ ∀ c ∈ d.fieldLine field, c ≠ '\n' ∧ c ≠ '\r' := by
  have htags : ∀ tag ∈ tags, ∀ c ∈ tag.toList, c ≠ '<' ∧ c ≠ '>' ∧ c ≠ '\n' ∧ c ≠ '\r' := by decide
  have htag := htags field.1 htag
  have hline : d.fieldLine field = ('<' :: (field.1.toList ++ ['>'])) ++ (field.2 ++
      if d = .unclosed then [] else '<' :: '/' :: (field.1.toList ++ ['>'])) := by
    simp [Dialect.fieldLine]
  have hfront : '<' ∉ (field.1.toList ++ ['>']) ++ field.2 := by
    simp only [List.mem_append, List.mem_singleton]
    rintro ((hc | hc) | hc)
    · exact (htag '<' hc).1 rfl
    · exact absurd hc (by decide)
    · exact (hinner '<' hc).1 rfl
  have hback : '<' ∉ '/' :: (field.1.toList ++ ['>']) := by
    simp only [List.mem_cons, List.mem_append, List.not_mem_nil, or_false]
    rintro (hc | hc | hc)
    · exact absurd hc (by decide)
    · exact (htag '<' hc).1 rfl
    · exact absurd hc (by decide)
  constructor
  · rw [hline, ← List.append_assoc, List.isChain_append]
    refine ⟨isChain_open hfront, ?_, fun a ha b _ hclose => ?_⟩
    · split
      · exact .nil
      · exact isChain_open hback
    · rw [List.getLast?_append_of_ne_nil _ hne] at ha
      exact absurd hclose (hinner a (List.mem_of_getLast? ha)).2.1
  · have hbreaks : ∀ c, c = '<' ∨ c = '/' ∨ c = '>' → c ≠ '\n' ∧ c ≠ '\r' := by
      rintro c (rfl | rfl | rfl) <;> decide
    intro c hc
    rw [hline] at hc
    simp only [List.cons_append, List.append_assoc, List.nil_append, List.mem_cons,
      List.mem_append] at hc
    rcases hc with hc | hc | hc | hc | hc
    · exact hbreaks c (Or.inl hc)
    · exact (htag c hc).2.2
    · exact hbreaks c (Or.inr (Or.inr hc))
    · exact (hinner c hc).2.2
    · split at hc
      · cases hc
      · simp only [List.mem_cons, List.mem_append, List.not_mem_nil, or_false] at hc
        rcases hc with hc | hc | hc | hc
        · exact hbreaks c (Or.inl hc)
        · exact hbreaks c (Or.inr (Or.inl hc))
        · exact (htag c hc).2.2
        · exact hbreaks c (Or.inr (Or.inr hc))

/-- The lines of a file are read as they are, and have no brackets next to each other. -/
theorem plain_fileLines (d : Dialect) (ts : List Transaction) :
    ∀ l ∈ d.fileLines ts, l.IsChain Apart ∧ IsLine (String.ofList (byteText l)) := by
  have hfixed : ∀ l ∈ ["OFXHEADER:100", "DATA:OFXSGML", "<OFX>", "<?xml version=\"1.0\"?>",
      "<STMTTRN>", "</STMTTRN>", "</OFX>"], l.toList.IsChain Apart ∧
        ∀ c ∈ l.toList, c ≠ '\n' ∧ c ≠ '\r' := by decide
  have hheader : ∀ l ∈ d.header, l ∈ ["OFXHEADER:100", "DATA:OFXSGML", "<OFX>",
      "<?xml version=\"1.0\"?>", "<STMTTRN>", "</STMTTRN>", "</OFX>"] := by
    cases d <;> decide
  suffices h : ∀ l ∈ d.fileLines ts, l.IsChain Apart ∧ ∀ c ∈ l, c ≠ '\n' ∧ c ≠ '\r' from
    fun l hl => ⟨(h l hl).1, isLine_byteText (h l hl).2⟩
  intro l hl
  rw [Dialect.fileLines, List.mem_append, List.mem_append, List.mem_singleton] at hl
  rcases hl with hl | hl | rfl
  · obtain ⟨line, hline, rfl⟩ := List.mem_map.mp hl
    exact hfixed line (hheader line hline)
  · obtain ⟨t, -, hl⟩ := List.mem_flatMap.mp hl
    rw [Dialect.lines, List.mem_cons, List.mem_append, List.mem_singleton] at hl
    rcases hl with rfl | hl | rfl
    · exact hfixed "<STMTTRN>" (by decide)
    · obtain ⟨field, hfield, rfl⟩ := List.mem_map.mp hl
      obtain ⟨htag, hne, hinner⟩ := plain_fields t field hfield
      exact plain_fieldLine d htag hne hinner
    · exact hfixed "</STMTTRN>" (by decide)
  · exact hfixed "</OFX>" (by decide)

/-- A file in an SGML dialect is parsed to the rows of its transactions. -/
theorem parseSgml_render {d : Dialect} (hd : d ≠ .xml) (ts : List Transaction) :
    Ofx.parseSgml (d.render ts) = some (ts.flatMap d.rows) := by
  have hplain := plain_fileLines d ts
  have hlines : ∀ l ∈ ((d.fileLines ts).map byteText).map String.ofList, IsLine l := by
    intro l hl
    rw [List.map_map] at hl
    obtain ⟨cs, hcs, rfl⟩ := List.mem_map.mp hl
    exact (hplain cs hcs).2
  rw [parseSgml, Dialect.render, normaliseSgml_unlines fun l hl => (hplain l hl).1,
    Option.bind_eq_bind, Option.bind_some, logicalLines_unlines hlines, List.map_map]
  have hheader : (d.header.map fun l => String.ofList (byteText l.toList)).flatMap logicalOf =
      d.header := by
    have hlines : logicalOf (String.ofList (byteText "OFXHEADER:100".toList)) = ["OFXHEADER:100"] ∧
        logicalOf (String.ofList (byteText "DATA:OFXSGML".toList)) = ["DATA:OFXSGML"] ∧
          logicalOf (String.ofList (byteText "<OFX>".toList)) = ["<OFX>"] :=
      ⟨@logicalOf_plain "OFXHEADER:100" (by decide) (by decide) (by decide),
        @logicalOf_plain "DATA:OFXSGML" (by decide) (by decide) (by decide),
        @logicalOf_plain "<OFX>" (by decide) (by decide) (by decide)⟩
    obtain ⟨hversion, hdata, hofx⟩ := hlines
    cases d with
    | xml => exact absurd rfl hd
    | unclosed =>
      rw [Dialect.header, List.map_cons, List.map_cons, List.map_singleton, List.flatMap_cons,
        List.flatMap_cons, List.flatMap_singleton, hversion, hdata, hofx]
      rfl
    | closed =>
      rw [Dialect.header, List.map_cons, List.map_cons, List.map_singleton, List.flatMap_cons,
        List.flatMap_cons, List.flatMap_singleton, hversion, hdata, hofx]
      rfl
  have hstart : d.header.foldlM step {} = some {} := by
    cases d with
    | xml => exact absurd rfl hd
    | unclosed => rfl
    | closed => rfl
  have hfooter : logicalOf (String.ofList (byteText "</OFX>".toList)) = ["</OFX>"] :=
    @logicalOf_ending "</OFX>" "OFX".toList (by decide) (by decide) (by decide)
  obtain ⟨current, hts⟩ := foldlM_transactions d ts {} rfl
  have hlogical : ((d.fileLines ts).map (String.ofList ∘ byteText)).flatMap logicalOf = d.header ++
      (((ts.flatMap d.lines).map fun l => String.ofList (byteText l)).flatMap logicalOf ++
        ["</OFX>"]) := by
    rw [Dialect.fileLines, List.map_append, List.map_append, List.flatMap_append,
      List.flatMap_append, List.map_map, List.map_singleton, List.flatMap_singleton]
    exact congrArg₂ _ hheader (congrArg₂ _ rfl hfooter)
  have hfold : (((d.fileLines ts).map (String.ofList ∘ byteText)).flatMap logicalOf).foldlM step
      {} = some { out := ts.flatMap d.rows, current := current, inStmt := false } := by
    rw [hlogical, List.foldlM_append, hstart, Option.bind_eq_bind, Option.bind_some,
      List.foldlM_append, hts]
    rfl
  rw [hfold]
  rfl

end

/-! ## XML -/

section

open Ofx

/-- The text between the tags of a transaction. -/
def region (t : Transaction) : List Char :=
  '\n' :: t.fields.flatMap fun field => Dialect.xml.fieldLine field ++ ['\n']

/-- A field of the XML dialect is read as its element. -/
theorem extractElements_field {field : String × List Char} (htag : field.1 ∈ tags)
    (htrim : trim (String.ofList field.2) = String.ofList field.2) (hopen : '<' ∉ field.2)
    (rest : List Char) :
    extractElements (Dialect.xml.fieldLine field ++ rest) =
      (field.1, String.ofList field.2) :: extractElements rest := by
  have hplain : ∀ tag ∈ tags, tag.toList.head?.all (fun c => c ≠ '/' && c ≠ '!') = true ∧
      elementName tag.toList = some tag ∧ tag.toList.getLast? ≠ some '/' := by decide
  obtain ⟨hhead, hname, hlast⟩ := hplain field.1 htag
  obtain ⟨hne, -, -, hclose, -⟩ := plain_tags field.1 htag
  have hvalue : cutAtStr ("</" ++ field.1 ++ ">").toList
      (field.2 ++ '<' :: '/' :: (field.1.toList ++ '>' :: rest)) = some (field.2, rest) := by
    have hpat : ("</" ++ field.1 ++ ">").toList = '<' :: '/' :: (field.1.toList ++ ['>']) := by
      simp
    have hskip : ∀ c ≠ '<', ∀ s : List Char,
        ('<' :: '/' :: (field.1.toList ++ ['>'])).isPrefixOf (c :: s) = false := by
      intro c hc s
      simp [List.isPrefixOf, hc.symm]
    have hend : '<' :: '/' :: (field.1.toList ++ '>' :: rest) =
        '<' :: '/' :: (field.1.toList ++ ['>']) ++ rest := by simp
    rw [hpat, cutAtStr, OfxStatements.cutBefore_plain hskip hopen, hend, cutBefore_pos]
    · simp
    · simp [List.isPrefixOf_iff_prefix]
  have hnext : nextElement (field.1.toList ++ '>' :: (field.2 ++
      '<' :: '/' :: (field.1.toList ++ '>' :: rest))) =
        (some (field.1, String.ofList field.2), rest) := by
    have hcut : ∀ x, cutAt '>' (field.1.toList ++ '>' :: x) = some (field.1.toList, x) :=
      fun x => cutAt_eq_some.mpr ⟨rfl, hclose⟩
    rw [nextElement, hcut]
    simp only [hname, if_neg hlast, hvalue, htrim]
  have hline : Dialect.xml.fieldLine field ++ rest = '<' :: (field.1.toList ++ '>' :: (field.2 ++
      '<' :: '/' :: (field.1.toList ++ '>' :: rest))) := by
    simp [Dialect.fieldLine]
  obtain ⟨c, cs, hcs⟩ := List.exists_cons_of_ne_nil hne
  have hc : c ≠ '/' ∧ c ≠ '!' := by simpa [hcs] using hhead
  rw [hline, extractElements, if_pos ⟨rfl, by simp, by simp [hcs, hc.1], by simp [hcs, hc.2]⟩]
  rw [hnext]
  rfl

theorem extractElements_break (rest : List Char) :
    extractElements ('\n' :: rest) = extractElements rest := by
  rw [extractElements, if_neg]
  rintro ⟨h, -⟩
  exact absurd h (by decide)

theorem extractElements_fields {fields : List (String × List Char)}
    (h : ∀ field ∈ fields, field.1 ∈ tags ∧
      trim (String.ofList field.2) = String.ofList field.2 ∧ '<' ∉ field.2) :
    extractElements (fields.flatMap fun field => Dialect.xml.fieldLine field ++ ['\n']) =
      fields.map fun field => (field.1, String.ofList field.2) := by
  induction fields with
  | nil =>
    rw [List.flatMap_nil, extractElements]
    rfl
  | cons field fields ih =>
    obtain ⟨⟨htag, htrim, hopen⟩, hfields⟩ := List.forall_mem_cons.mp h
    rw [List.flatMap_cons, List.append_assoc, extractElements_field htag htrim hopen,
      List.singleton_append, extractElements_break, ih hfields, List.map_cons]

theorem trim_fields (t : Transaction) :
    ∀ field ∈ t.fields, trim (String.ofList field.2) = String.ofList field.2 := by
  have htype : trim (String.ofList (if t.negative then "DEBIT" else "CREDIT").toList) =
      String.ofList (if t.negative then "DEBIT" else "CREDIT").toList := by
    cases t.negative <;> decide
  simp only [Transaction.fields, List.forall_mem_cons]
  exact ⟨htype, trim_compact t.date fun c hc => (t.time_plain c hc).1, trim_amount t, t.id.trimmed,
    t.payee.trimmed, t.memo.trimmed, by simp⟩

theorem parseRegion_region (t : Transaction) : parseRegion (region t) = some (some t.row) := by
  have hdate := normaliseDate_compact t.year fun c hc => (t.time_plain c hc).1
  have helements : extractElements (region t) =
      t.fields.map fun field => (field.1, String.ofList field.2) := by
    rw [region, extractElements_break]
    refine extractElements_fields fun field hfield => ?_
    obtain ⟨htag, -, hinner⟩ := plain_fields t field hfield
    exact ⟨htag, trim_fields t field hfield, fun hopen => (hinner '<' hopen).1 rfl⟩
  have hmemo : trim (String.ofList t.memo.text) ≠ "" := by
    rw [t.memo.trimmed]
    simpa using t.memo.filled
  have htxn : (t.fields.map fun field => (field.1, String.ofList field.2)).foldlM
      (fun t e => Txn.set t e.1 e.2) {} = some (t.txn fun cs => cs) := by
    rw [Transaction.fields]
    simp only [List.map_cons, List.map_nil, foldlM_set, hdate, Option.map_some,
      String.ofList_toList]
    rfl
  rw [parseRegion, helements, htxn, Option.map_some]
  exact congrArg some (pushTxn_txn hmemo)

/-- The searches for the tags of a transaction stop at opening brackets only. -/
theorem atTag_plain {needle : String} {n : List Char} (hneedle : needle.toList = '<' :: n) :
    ∀ c ≠ '<', ∀ rest, atTag needle (c :: rest) = false := by
  intro c hc rest
  have hopen : Char.toLower '<' = '<' := by decide
  have hlower : c.toLower ≠ '<' := fun h => hc ((toLower_eq_iff (by decide)).mp h)
  simp [atTag, hneedle, hopen, List.isPrefixOf, hlower.symm]

theorem atTag_self (needle : String) (rest : List Char) :
    atTag needle (needle.toList ++ rest) = true := by
  rw [atTag, List.isPrefixOf_iff_prefix, List.map_append]
  exact List.prefix_append _ _

def transactionText (t : Transaction) : List Char :=
  startTag ++ (region t ++ (endTag ++ ['\n']))

/-- The last line of a file. -/
def footer : List Char := "</OFX>\n".toList

theorem cutBefore_fieldLine {field : String × List Char} (htag : field.1 ∈ tags)
    (hopen : '<' ∉ field.2) (cs : List Char) :
    cutBefore (atTag "</STMTTRN>") ((Dialect.xml.fieldLine field ++ ['\n']) ++ cs) =
      (cutBefore (atTag "</STMTTRN>") cs).map fun r =>
        ((Dialect.xml.fieldLine field ++ ['\n']) ++ r.1, r.2) := by
  have hplain : ∀ c ≠ '<', ∀ rest, atTag "</STMTTRN>" (c :: rest) = false := atTag_plain rfl
  have hhead : ∀ tag ∈ tags, (tag.toList.map Char.toLower).head?.all
      (fun c => c ≠ '/' && c ≠ 's') = true := by decide
  obtain ⟨hne, -, htagOpen, -, -⟩ := plain_tags field.1 htag
  obtain ⟨c, cs', hcs⟩ := List.exists_cons_of_ne_nil hne
  have hc : c.toLower ≠ '/' ∧ c.toLower ≠ 's' := by simpa [hcs] using hhead field.1 htag
  have hneedle : "</STMTTRN>".toList.map Char.toLower =
      ['<', '/', 's', 't', 'm', 't', 't', 'r', 'n', '>'] := by decide
  have hstart : ∀ rest, atTag "</STMTTRN>" ('<' :: (field.1.toList ++ rest)) = false := by
    intro rest
    rw [atTag, hneedle, hcs]
    simp [List.isPrefixOf, hc.1.symm]
  have hend : ∀ rest, atTag "</STMTTRN>" ('<' :: '/' :: (field.1.toList ++ rest)) = false := by
    intro rest
    rw [atTag, hneedle, hcs]
    simp [List.isPrefixOf, hc.2.symm]
  have hfront : '<' ∉ field.1.toList ++ '>' :: field.2 := by simp [htagOpen, hopen]
  have hback : '<' ∉ '/' :: (field.1.toList ++ ['>', '\n']) := by simp [htagOpen]
  have hline : (Dialect.xml.fieldLine field ++ ['\n']) ++ cs =
      '<' :: ((field.1.toList ++ '>' :: field.2) ++
        '<' :: ('/' :: (field.1.toList ++ ['>', '\n']) ++ cs)) := by
    simp [Dialect.fieldLine]
  have hneg : atTag "</STMTTRN>" ('<' :: ((field.1.toList ++ '>' :: field.2) ++
      '<' :: ('/' :: (field.1.toList ++ ['>', '\n']) ++ cs))) = false := by
    rw [List.append_assoc]
    exact hstart _
  have hneg' : atTag "</STMTTRN>" ('<' :: ('/' :: (field.1.toList ++ ['>', '\n']) ++ cs)) =
      false := by
    rw [List.cons_append, List.append_assoc]
    exact hend _
  rw [hline, cutBefore_neg hneg, OfxStatements.cutBefore_plain hplain hfront,
    cutBefore_neg hneg', OfxStatements.cutBefore_plain hplain hback, Option.map_map, Option.map_map,
    Option.map_map]
  simp [Dialect.fieldLine, Function.comp_def]

theorem cutRegion_region (t : Transaction) (rest : List Char) :
    cutRegion (region t ++ (endTag ++ rest)) = some (region t, rest) := by
  have hfields : ∀ fields : List (String × List Char),
      (∀ field ∈ fields, field.1 ∈ tags ∧ '<' ∉ field.2) →
        cutBefore (atTag "</STMTTRN>") ((fields.flatMap fun field =>
          Dialect.xml.fieldLine field ++ ['\n']) ++ (endTag ++ rest)) =
            some (fields.flatMap fun field => Dialect.xml.fieldLine field ++ ['\n'],
              endTag ++ rest) := by
    intro fields h
    induction fields with
    | nil => exact cutBefore_pos (atTag_self _ rest)
    | cons field fields ih =>
      obtain ⟨⟨htag, hopen⟩, hrest⟩ := List.forall_mem_cons.mp h
      rw [List.flatMap_cons, List.append_assoc, cutBefore_fieldLine htag hopen, ih hrest,
        Option.map_some]
  have hcut : cutBefore (atTag "</STMTTRN>") (region t ++ (endTag ++ rest)) =
      some (region t, endTag ++ rest) := by
    rw [region, List.cons_append, cutBefore_neg (atTag_plain rfl _ (by decide) _), hfields t.fields]
    · rfl
    · intro field hfield
      obtain ⟨htag, -, hinner⟩ := plain_fields t field hfield
      exact ⟨htag, fun hopen => (hinner '<' hopen).1 rfl⟩
  rw [cutRegion, hcut]
  rfl

theorem parseXmlFrom_skip {front cs : List Char}
    (h : cutBefore (atTag "<STMTTRN>") (front ++ cs) =
      (cutBefore (atTag "<STMTTRN>") cs).map fun r => (front ++ r.1, r.2)) :
    parseXmlFrom (front ++ cs) = parseXmlFrom cs := by
  cases hcut : cutBefore (atTag "<STMTTRN>") cs with
  | none =>
    rw [hcut] at h
    rw [parseXmlFrom_done h, parseXmlFrom_done hcut]
  | some r =>
    rw [hcut] at h
    cases hregion : cutRegion (r.2.drop 9) with
    | none => rw [parseXmlFrom_open h hregion, parseXmlFrom_open hcut hregion]
    | some region => rw [parseXmlFrom_region h hregion, parseXmlFrom_region hcut hregion]

theorem parseXmlFrom_break (cs : List Char) : parseXmlFrom ('\n' :: cs) = parseXmlFrom cs :=
  show parseXmlFrom (['\n'] ++ cs) = parseXmlFrom cs from
    parseXmlFrom_skip (OfxStatements.cutBefore_plain (atTag_plain rfl) (by decide))

theorem parseXmlFrom_transactions (ts : List Transaction) :
    parseXmlFrom (ts.flatMap transactionText ++ footer) =
      some (ts.map Transaction.row) := by
  induction ts with
  | nil => exact parseXmlFrom_done rfl
  | cons t ts ih =>
    have htext : (t :: ts).flatMap transactionText ++ footer = startTag ++
        (region t ++ (endTag ++
          '\n' :: (ts.flatMap transactionText ++ footer))) := by
      simp only [List.flatMap_cons, transactionText, List.append_assoc, List.cons_append,
        List.nil_append]
    have hstart : ∀ rest, cutBefore (atTag "<STMTTRN>") (startTag ++ rest) =
        some ([], startTag ++ rest) := fun rest => cutBefore_pos (atTag_self _ rest)
    have hregion : ∀ rest, cutRegion ((startTag ++
        (region t ++ (endTag ++ rest))).drop 9) = some (region t, rest) := by
      intro rest
      rw [List.drop_left' (by decide)]
      exact cutRegion_region t rest
    rw [htext, parseXmlFrom_region (hstart _) (hregion _), parseRegion_region,
      parseXmlFrom_break, ih]
    rfl

/-- The declaration in the first line of a file, up to its last two characters. -/
def declaration : List Char := "<?xml version=\"1.0\"".toList

/-- The text between the declaration and the first transaction. -/
def opening : List Char := "\n<OFX>\n".toList

theorem toList_render (ts : List Transaction) :
    (Dialect.xml.render ts).toList =
      declaration ++ '?' :: '>' :: (opening ++ (ts.flatMap transactionText ++ footer)) := by
  have hlines : ∀ t : Transaction, ((Dialect.xml.lines t).flatMap fun l => l ++ ['\n']) =
      transactionText t := by
    intro t
    rw [Dialect.lines, List.flatMap_cons, List.flatMap_append, List.flatMap_singleton,
      List.flatMap_map, transactionText, region]
    simp only [List.append_assoc, List.cons_append, List.nil_append]
    rfl
  have hheader : ((Dialect.xml.header.map String.toList).flatMap fun l => l ++ ['\n']) =
      declaration ++ '?' :: '>' :: opening := rfl
  rw [Dialect.render, unlines_ofList, String.toList_ofList, Dialect.fileLines, List.flatMap_append,
    hheader, List.flatMap_append, List.flatMap_assoc, List.flatMap_singleton]
  simp only [hlines, List.append_assoc, List.cons_append]
  rfl

theorem xmlBody_render (ts : List Transaction) :
    xmlBody (Dialect.xml.render ts) = opening ++ (ts.flatMap transactionText ++ footer) := by
  have hstart : ∀ cs, "<?xml".toList.isPrefixOf (declaration ++ cs) = true := fun cs => rfl
  have hend : ∀ cs, cutBefore (fun s => ['?', '>'].isPrefixOf s) (declaration ++ '?' :: '>' :: cs) =
      some (declaration, '?' :: '>' :: cs) := fun cs => rfl
  have hsuffix : suffixFrom "<?xml" (Dialect.xml.render ts) = some (Dialect.xml.render ts) := by
    rw [suffixFrom, cutBefore_pos, Option.map_some, String.ofList_toList]
    rw [toList_render]
    exact hstart _
  have hsplit : splitAtStr "?>" (Dialect.xml.render ts) = some (String.ofList declaration,
      String.ofList (opening ++ (ts.flatMap transactionText ++ footer))) := by
    have hpat : "?>".toList = ['?', '>'] := rfl
    rw [splitAtStr, cutAtStr, hpat, toList_render, hend]
    rfl
  simp only [xmlBody, hsuffix, hsplit, Option.bind_eq_bind, Option.bind_some, Option.getD_some,
    String.toList_ofList]

theorem parseXml_render (ts : List Transaction) :
    Ofx.parseXml (Dialect.xml.render ts) = some (ts.map Transaction.row) := by
  have hopening : ∀ cs, cutBefore (atTag "<STMTTRN>") (opening ++ cs) =
      (cutBefore (atTag "<STMTTRN>") cs).map fun r => (opening ++ r.1, r.2) := by
    intro cs
    have hplain : ∀ c ≠ '<', ∀ rest, atTag "<STMTTRN>" (c :: rest) = false := atTag_plain rfl
    have hopen : opening = '\n' :: '<' :: ['O', 'F', 'X', '>', '\n'] := rfl
    have hneedle : "<STMTTRN>".toList.map Char.toLower =
        ['<', 's', 't', 'm', 't', 't', 'r', 'n', '>'] := by decide
    have hneg : atTag "<STMTTRN>" ('<' :: (['O', 'F', 'X', '>', '\n'] ++ cs)) = false := by
      rw [atTag, hneedle]
      rfl
    rw [hopen, List.cons_append, List.cons_append, cutBefore_neg (hplain _ (by decide) _),
      cutBefore_neg hneg, OfxStatements.cutBefore_plain hplain (by decide), Option.map_map,
      Option.map_map]
    rfl
  rw [parseXml, xmlBody_render, parseXmlFrom_skip (hopening _), parseXmlFrom_transactions]

end

/-! ## Dialects -/

section

theorem rowAs_byteText_eq_row {t : Transaction} : t.rowAs byteText = t.row ↔ t.Ascii := by
  simp only [Transaction.row, Transaction.rowAs, ParsedRow.mk.injEq, String.ofList_inj,
    Option.some.injEq, byteText_eq_self, true_and, and_true, Transaction.Ascii,
    List.forall_mem_append]
  tauto

/-- Each dialect returns the rows of the transactions under its own condition, and so all of them
do when there are no transactions. -/
theorem returns_iff (ts : List Transaction) :
    (∀ d : Dialect, d.Returns ts ↔ d.Exact ts) ∧ ((∀ d : Dialect, d.Returns ts) ↔ ts = []) := by
  have heach : ∀ d : Dialect, d.Returns ts ↔ d.Exact ts := by
    intro d
    cases d with
    | unclosed =>
      have hrows : ts.flatMap Dialect.unclosed.rows = [] := by
        simp [Dialect.rows]
      have hrender := parseSgml_render (d := .unclosed) (by decide) ts
      rw [hrows] at hrender
      rw [Dialect.Returns, Dialect.parse, hrender, Option.some.injEq, eq_comm,
        List.map_eq_nil_iff, Dialect.Exact]
    | closed =>
      have hrows : ts.flatMap Dialect.closed.rows = ts.map fun t => t.rowAs byteText :=
        List.flatMap_pure_eq_map _ ts
      have hrender := parseSgml_render (d := .closed) (by decide) ts
      rw [hrows] at hrender
      rw [Dialect.Returns, Dialect.parse, hrender, Option.some.injEq, List.map_inj_left]
      simp only [rowAs_byteText_eq_row, Dialect.Exact]
    | xml => exact iff_of_true (parseXml_render ts) trivial
  refine ⟨heach, fun h => (heach .unclosed).mp (h .unclosed), ?_⟩
  rintro rfl d
  refine (heach d).mpr ?_
  cases d with
  | unclosed => rfl
  | closed => exact fun t ht => absurd ht List.not_mem_nil
  | xml => trivial

theorem coffee_day : 1 ≤ 21 ∧ 21 ≤ daysInMonth 2026 8 := by decide

theorem coffee_id_filled : "T1".toList ≠ [] := by decide

theorem coffee_id_trimmed : trim (String.ofList "T1".toList) = String.ofList "T1".toList := by
  decide

/-- A payment of 12 on 21 August 2026. -/
def coffee : Transaction where
  date := ⟨2026, 8, 21, OfxStatements.year_range, OfxStatements.august_range, coffee_day⟩
  negative := true
  magnitude := ['1', '2']
  payee := { text := "Cafe".toList }
  memo := { text := "Coffee".toList }
  id := { text := "T1".toList, filled := coffee_id_filled, trimmed := coffee_id_trimmed }

/-- Without end tags the payment is lost. -/
theorem unclosed_coffee :
    Ofx.parseSgml (Dialect.unclosed.render [coffee]) = some [] ∧
      ¬ Dialect.unclosed.Returns [coffee] := by
  have hnone : Ofx.parseSgml (Dialect.unclosed.render [coffee]) = some [] :=
    parseSgml_render (by decide) [coffee]
  refine ⟨hnone, fun h => ?_⟩
  cases hnone.symm.trans h

end

end OpenAccounting.OfxDialects
