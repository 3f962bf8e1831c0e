import OpenAccounting.Import.Statement
import OpenAccounting.Lib.DecimalText

/-!
# OFX statements

An aggregate `STMTTRN` has an end tag, and its fields are closed or not.  The parser of statements
reads it exactly: a value runs to the next `<`, which no value has, and the white space around it is
cut off.  There may be other fields, in any order, and any text around the aggregates.
-/

namespace OpenAccounting.OfxStatements

open Calendar Import.Statement RustStr

/-! ## Aggregates -/

/-- A field `<T>v</T>` or `<T>v`, and the white space behind it. -/
structure Field where
  tag : List Char
  value : List Char
  closed : Bool
  blank : List Char
  tag_open : '<' ∉ tag := by decide
  tag_close : '>' ∉ tag := by decide
  tag_start : tag.head? ≠ some '/' := by decide
  tag_inner : tag.map Char.toUpper ≠ "STMTTRN".toList := by decide
  value_open : '<' ∉ value := by decide
  value_filled : value ≠ [] := by decide
  value_trimmed : trim (String.ofList value) = String.ofList value := by decide
  blank_white : ∀ c ∈ blank, isWhitespace c = true := by decide

def Field.ending (f : Field) : List Char :=
  if f.closed then '<' :: '/' :: (f.tag ++ ['>']) else []

/-- The text of a field. -/
def Field.render (f : Field) : List Char :=
  '<' :: (f.tag ++ '>' :: (f.value ++ (f.ending ++ f.blank)))

/-- The value of the first field with a tag. -/
def valueOf (tag : String) (fields : List Field) : Option String :=
  (fields.find? fun f => f.tag = tag.toList).map fun f => String.ofList f.value

/-- The tags that the parser looks for. -/
def readTags : List String := ["DTPOSTED", "TRNAMT", "NAME", "PAYEE", "MEMO", "FITID"]

structure Transaction where
  date : NaiveDate
  amount : ℚ
  name : Option String
  memo : Option String
  id : Option String

def Transaction.line (t : Transaction) : StatementLine where
  date := t.date
  amount := t.amount
  payee := t.name.getD "(unnamed)"
  memo := t.memo
  externalId := t.id

/-- The date `YYYYMMDD`. -/
def compact (d : NaiveDate) : List Char :=
  (padZero 4 d.year.toNat).toList ++ ((padZero 2 d.month).toList ++ (padZero 2 d.day).toList)

/-- The fields have the values of a transaction.  A time may follow the date. -/
structure Spells (lib : Libraries) (t : Transaction) (fields : List Field) : Prop where
  year : 0 ≤ t.date.year ∧ t.date.year ≤ 9999
  date : ∃ raw time, valueOf "DTPOSTED" fields = some raw ∧ raw.toList = compact t.date ++ time
  amount : ∃ raw, valueOf "TRNAMT" fields = some raw ∧ lib.parseDecimal raw = some t.amount
  name : valueOf "NAME" fields = t.name
  payee : valueOf "PAYEE" fields = none
  memo : valueOf "MEMO" fields = t.memo
  id : valueOf "FITID" fields = t.id
  /-- No other tag starts like one that is looked for. -/
  apart : ∀ f ∈ fields, ∀ tag ∈ readTags, tag.toList <+: f.tag → f.tag = tag.toList

/-- The start tag of an aggregate. -/
def startTag : List Char := "<STMTTRN>".toList

/-- The end tag of an aggregate. -/
def endTag : List Char := "</STMTTRN>".toList

/-- A text without the start tag of an aggregate. -/
structure Between where
  text : List Char
  quiet : cutBefore (Ofx.startsWithTag "<STMTTRN>") text = none := by decide

/-- An aggregate, and the text behind it. -/
structure Aggregate (lib : Libraries) where
  transaction : Transaction
  blank : List Char
  fields : List Field
  behind : Between
  blank_white : ∀ c ∈ blank, isWhitespace c = true
  spells : Spells lib transaction fields

variable {lib : Libraries}

/-- The text between the tags of an aggregate. -/
def Aggregate.body (a : Aggregate lib) : List Char := a.blank ++ a.fields.flatMap Field.render

def Aggregate.render (a : Aggregate lib) : List Char :=
  startTag ++ (a.body ++ (endTag ++ a.behind.text))

/-- The text of a file. -/
def document (header : Between) (aggregates : List (Aggregate lib)) : String :=
  String.ofList (header.text ++ aggregates.flatMap Aggregate.render)

/-! ## Searches -/

section

variable {p : List Char → Bool} {cs : List Char}

theorem open_notMem_blank {blank : List Char} (h : ∀ c ∈ blank, isWhitespace c = true) :
    '<' ∉ blank :=
  fun hc => absurd (h '<' hc) (by decide)

theorem cutBefore_plain {text : List Char} (hplain : ∀ c ≠ '<', ∀ rest, p (c :: rest) = false)
    (htext : '<' ∉ text) :
    cutBefore p (text ++ cs) = (cutBefore p cs).map fun r => (text ++ r.1, r.2) := by
  refine cutBefore_append (fun c hc => hplain c ?_) cs
  rintro rfl
  exact htext hc

theorem Field.tail_plain (f : Field) :
    '<' ∉ f.tag ++ '>' :: f.value := by
  simp [f.tag_open, f.value_open]

theorem Field.cutBefore_render (f : Field) (hplain : ∀ c ≠ '<', ∀ rest, p (c :: rest) = false)
    (hopen : ∀ rest, p ('<' :: (f.tag ++ '>' :: rest)) = false)
    (hclose : ∀ rest, p ('<' :: '/' :: (f.tag ++ '>' :: rest)) = false) :
    cutBefore p (f.render ++ cs) = (cutBefore p cs).map fun r => (f.render ++ r.1, r.2) := by
  have hblank := open_notMem_blank f.blank_white
  have hrest : cutBefore p (f.ending ++ f.blank ++ cs) =
      (cutBefore p cs).map fun r => (f.ending ++ f.blank ++ r.1, r.2) := by
    rw [ending]
    split
    · have hending : '<' ∉ '/' :: (f.tag ++ '>' :: f.blank) := by simp [f.tag_open, hblank]
      have htext : '<' :: '/' :: (f.tag ++ ['>']) ++ f.blank ++ cs =
          '<' :: ('/' :: (f.tag ++ '>' :: f.blank) ++ cs) := by simp
      rw [htext, cutBefore_neg (by simpa using hclose (f.blank ++ cs)),
        cutBefore_plain hplain hending, Option.map_map]
      simp [Function.comp_def]
    · rw [List.nil_append, cutBefore_plain hplain hblank]
  have hrender : f.render ++ cs =
      '<' :: ((f.tag ++ '>' :: f.value) ++ (f.ending ++ f.blank ++ cs)) := by simp [render]
  rw [hrender, cutBefore_neg (by simpa using hopen _), cutBefore_plain hplain f.tail_plain, hrest,
    Option.map_map, Option.map_map]
  simp [render, Function.comp_def]

end

/-! ## Values -/

section

variable {tag : String} {cs : List Char}

/-- A tag that the parser looks for. -/
structure Looked (tag : String) : Prop where
  filled : tag.toList ≠ []
  start : tag.toList.head? ≠ some '/'
  plain : '>' ∉ tag.toList

theorem looked_of_mem (h : tag ∈ readTags) : Looked tag := by
  simp only [readTags, List.mem_cons, List.not_mem_nil, or_false] at h
  rcases h with rfl | rfl | rfl | rfl | rfl | rfl <;>
    exact ⟨by decide, by decide, by decide⟩

/-- The search of the parser for a tag. -/
def opens (tag : String) (s : List Char) : Bool := ('<' :: tag.toList).isPrefixOf s

theorem opens_plain (tag : String) : ∀ c ≠ '<', ∀ rest, opens tag (c :: rest) = false := by
  intro c hc rest
  simp [opens, List.isPrefixOf, Ne.symm hc]

theorem prefix_of_prefix_append {t tag rest : List Char} (ht : '>' ∉ t)
    (h : t <+: tag ++ '>' :: rest) : t <+: tag := by
  rcases List.prefix_or_prefix_of_prefix h (List.prefix_append tag _) with h' | ⟨u, rfl⟩
  · exact h'
  · cases u with
    | nil => simp
    | cons c u =>
      rw [List.prefix_append_right_inj, List.cons_prefix_cons] at h
      exact absurd (by simp [h.1]) ht

theorem opens_other (h : Looked tag) (f : Field) (hf : ¬ tag.toList <+: f.tag) (rest : List Char) :
    opens tag ('<' :: (f.tag ++ '>' :: rest)) = false := by
  rw [opens, Bool.eq_false_iff]
  intro hprefix
  rw [List.isPrefixOf_iff_prefix, List.cons_prefix_cons] at hprefix
  exact hf (prefix_of_prefix_append h.plain hprefix.2)

theorem opens_end (h : Looked tag) (rest : List Char) : opens tag ('<' :: '/' :: rest) = false := by
  rw [opens, Bool.eq_false_iff]
  intro hprefix
  rw [List.isPrefixOf_iff_prefix, List.cons_prefix_cons] at hprefix
  cases htag : tag.toList with
  | nil => exact h.filled htag
  | cons c t =>
    rw [htag, List.cons_prefix_cons] at hprefix
    exact h.start (by rw [htag, hprefix.2.1]; rfl)

theorem cutBefore_fields (h : Looked tag) {fields : List Field}
    (hfields : ∀ f ∈ fields, tag.toList <+: f.tag → f.tag = tag.toList) :
    (valueOf tag fields = none ∧ cutBefore (opens tag) (fields.flatMap Field.render) = none) ∨
      ∃ (before : List Char) (f : Field) (fs : List Field), f.tag = tag.toList ∧
        valueOf tag fields = some (String.ofList f.value) ∧
        cutBefore (opens tag) (fields.flatMap Field.render) =
          some (before, f.render ++ fs.flatMap Field.render) := by
  induction fields with
  | nil => exact Or.inl ⟨rfl, by rw [List.flatMap_nil, cutBefore, opens]; rfl⟩
  | cons f fs ih =>
    have hfs := ih fun g hg => hfields g (List.mem_cons_of_mem f hg)
    rw [List.flatMap_cons]
    by_cases htag : f.tag = tag.toList
    · refine Or.inr ⟨[], f, fs, htag, by simp [valueOf, htag], ?_⟩
      exact cutBefore_pos (by simp [opens, List.isPrefixOf_iff_prefix, Field.render, htag])
    · have hother : ¬ tag.toList <+: f.tag :=
        fun hprefix => htag (hfields f List.mem_cons_self hprefix)
      have hvalue : valueOf tag (f :: fs) = valueOf tag fs := by simp [valueOf, htag]
      rw [hvalue, f.cutBefore_render (opens_plain tag) (opens_other h f hother)
        fun rest => opens_end h _]
      rcases hfs with ⟨hnone, hcut⟩ | ⟨before, g, gs, hg, hsome, hcut⟩
      · exact Or.inl ⟨hnone, by rw [hcut]; rfl⟩
      · exact Or.inr ⟨f.render ++ before, g, gs, hg, hsome, by rw [hcut]; rfl⟩

theorem Field.takeWhile_value (f : Field) (fs : List Field) :
    ∃ white, (∀ c ∈ white, isWhitespace c = true) ∧
      (f.value ++ (f.ending ++ f.blank ++ fs.flatMap Field.render)).takeWhile (fun d => d ≠ '<') =
        f.value ++ white := by
  have hplain : ∀ {cs : List Char}, '<' ∉ cs → ∀ c ∈ cs, decide (c ≠ '<') = true := by
    intro cs hcs c hc
    rw [decide_eq_true_eq]
    rintro rfl
    exact hcs hc
  have hstop : (fs.flatMap Field.render).takeWhile (fun d => decide (d ≠ '<')) = [] := by
    cases fs with
    | nil => rfl
    | cons g gs => simp [render]
  rw [List.takeWhile_append_of_pos (hplain f.value_open)]
  by_cases hclosed : f.closed = true
  · exact ⟨[], by simp, by simp [ending, hclosed]⟩
  · refine ⟨f.blank, f.blank_white, ?_⟩
    rw [ending, if_neg hclosed, List.nil_append,
      List.takeWhile_append_of_pos (hplain (open_notMem_blank f.blank_white)), hstop,
      List.append_nil]

theorem stripPrefix_gt (cs : List Char) :
    stripPrefix ">" (String.ofList ('>' :: cs)) = some (String.ofList cs) := by
  simp [stripPrefix]

/-- The value of a tag is that of the first field that has it. -/
theorem tagValue_fields (h : Looked tag) {blank : List Char} {fields : List Field}
    (hblank : ∀ c ∈ blank, isWhitespace c = true)
    (hfields : ∀ f ∈ fields, tag.toList <+: f.tag → f.tag = tag.toList) :
    Ofx.tagValue (String.ofList (blank ++ fields.flatMap Field.render)) tag =
      valueOf tag fields := by
  have hsplit : splitAtStr ("<" ++ tag) (String.ofList (blank ++ fields.flatMap Field.render)) =
      (cutBefore (opens tag) (fields.flatMap Field.render)).map fun r =>
        (String.ofList (blank ++ r.1), String.ofList (r.2.drop (tag.toList.length + 1))) := by
    have hpat : ("<" ++ tag).toList = '<' :: tag.toList := by simp
    have hskip : cutBefore (opens tag) (blank ++ fields.flatMap Field.render) =
        (cutBefore (opens tag) (fields.flatMap Field.render)).map fun r => (blank ++ r.1, r.2) :=
      cutBefore_plain (opens_plain tag) (open_notMem_blank hblank)
    have hsearch : (fun s : List Char => ('<' :: tag.toList).isPrefixOf s) = opens tag := rfl
    rw [splitAtStr, cutAtStr, hpat, String.toList_ofList, hsearch, hskip, Option.map_map,
      Option.map_map]
    rfl
  rw [Ofx.tagValue, hsplit]
  rcases cutBefore_fields h hfields with ⟨hnone, hcut⟩ | ⟨front, f, fs, hf, hsome, hcut⟩
  · rw [hnone, hcut]
    rfl
  · obtain ⟨white, hwhite, htake⟩ := f.takeWhile_value fs
    have hrest : (f.render ++ fs.flatMap Field.render).drop (tag.toList.length + 1) =
        '>' :: (f.value ++ (f.ending ++ f.blank ++ fs.flatMap Field.render)) := by
      simp [Field.render, hf]
    have hvalue : trim (String.ofList (f.value ++ white)) = String.ofList f.value := by
      rw [String.ofList_append]
      exact trim_append_blank f.value_trimmed (by simpa using f.value_filled)
        (by simpa using hwhite)
    have hfilled : String.ofList f.value ≠ "" := by simpa using f.value_filled
    rw [hsome, hcut, Option.map_some, Option.bind_eq_bind, Option.bind_some, hrest]
    simp only [stripPrefix_gt, Option.getD_some, before, String.toList_ofList, htake, hvalue,
      if_neg hfilled]

end

/-! ## Blocks -/

section

/-- The text starts with a tag of an aggregate, in any case. -/
def atTag (tag text : List Char) : Bool := tag.isPrefixOf (text.map Char.toUpper)

theorem atTag_start : Ofx.startsWithTag "<STMTTRN>" = atTag startTag := rfl

theorem atTag_end : Ofx.startsWithTag "</STMTTRN>" = atTag endTag := rfl

theorem atTag_iff {tag cs : List Char} : atTag tag cs = true ↔ tag <+: cs.map Char.toUpper :=
  List.isPrefixOf_iff_prefix

theorem endTag_eq : endTag = '<' :: '/' :: ("STMTTRN".toList ++ ['>']) := rfl

theorem startTag_eq : startTag = '<' :: ("STMTTRN".toList ++ ['>']) := rfl

theorem atTag_plain {tag t : List Char} (htag : tag = '<' :: t) :
    ∀ c ≠ '<', ∀ rest, atTag tag (c :: rest) = false := by
  intro c hc rest
  rw [Bool.eq_false_iff, Ne, atTag_iff, htag, List.map_cons, List.cons_prefix_cons]
  rintro ⟨hopen, -⟩
  exact hc ((toUpper_eq_iff (by decide)).mp hopen.symm)

theorem atTag_self {tag : List Char} (h : tag.map Char.toUpper = tag) (rest : List Char) :
    atTag tag (tag ++ rest) = true := by
  rw [atTag_iff, List.map_append, h]
  exact List.prefix_append _ _

theorem endTag_field (f : Field) (rest : List Char) :
    atTag endTag ('<' :: (f.tag ++ '>' :: rest)) = false := by
  have hslash : (f.tag ++ '>' :: rest).head? ≠ some '/' := by
    have hstart := f.tag_start
    cases htag : f.tag with
    | nil => simp
    | cons c t => simpa [htag] using hstart
  rw [Bool.eq_false_iff, Ne, atTag_iff, endTag_eq, List.map_cons, List.cons_prefix_cons]
  rintro ⟨-, hprefix⟩
  cases htext : f.tag ++ '>' :: rest with
  | nil => simp at htext
  | cons c cs =>
    rw [htext, List.map_cons, List.cons_prefix_cons] at hprefix
    rw [htext] at hslash
    exact hslash (by rw [(toUpper_eq_iff (by decide)).mp hprefix.1.symm]; rfl)

theorem endTag_ending (f : Field) (rest : List Char) :
    atTag endTag ('<' :: '/' :: (f.tag ++ '>' :: rest)) = false := by
  have hclose : '>' ∉ f.tag.map Char.toUpper := by
    intro hmem
    obtain ⟨c, hc, heq⟩ := List.mem_map.mp hmem
    rw [(toUpper_eq_iff (by decide)).mp heq] at hc
    exact f.tag_close hc
  rw [Bool.eq_false_iff, Ne, atTag_iff, endTag_eq, List.map_cons, List.cons_prefix_cons,
    List.map_cons, List.cons_prefix_cons, List.map_append, List.map_cons]
  rintro ⟨-, -, u, hu⟩
  have hcut : cutAt '>' ("STMTTRN".toList ++ '>' :: u) = some ("STMTTRN".toList, u) :=
    cutAt_eq_some.mpr ⟨rfl, by decide⟩
  have hcut' : cutAt '>' (f.tag.map Char.toUpper ++ '>' :: rest.map Char.toUpper) =
      some (f.tag.map Char.toUpper, rest.map Char.toUpper) := cutAt_eq_some.mpr ⟨rfl, hclose⟩
  have hgt : Char.toUpper '>' = '>' := by decide
  rw [List.append_assoc, List.singleton_append, hgt] at hu
  rw [hu, hcut'] at hcut
  exact f.tag_inner (Prod.mk.inj (Option.some.inj hcut)).1

theorem cutBlock_body (a : Aggregate lib) (rest : List Char) :
    Ofx.cutBlock (a.body ++ (endTag ++ rest)) = some (a.body, endTag ++ rest) := by
  have hplain := atTag_plain endTag_eq
  have hfields : ∀ fs : List Field,
      cutBefore (atTag endTag) (fs.flatMap Field.render ++ (endTag ++ rest)) =
        some (fs.flatMap Field.render, endTag ++ rest) := by
    intro fs
    induction fs with
    | nil => exact cutBefore_pos (atTag_self (by decide) rest)
    | cons f fs ih =>
      rw [List.flatMap_cons, List.append_assoc,
        f.cutBefore_render hplain (endTag_field f) (endTag_ending f), ih, Option.map_some]
  have hcut : cutBefore (atTag endTag) (a.body ++ (endTag ++ rest)) =
      some (a.body, endTag ++ rest) := by
    rw [Aggregate.body, List.append_assoc,
      cutBefore_plain hplain (open_notMem_blank a.blank_white), hfields, Option.map_some]
  rw [Ofx.cutBlock, atTag_end, hcut]

theorem startTag_append {cs rest : List Char} (hne : cs ≠ []) (h : atTag startTag cs = false) :
    atTag startTag (cs ++ (startTag ++ rest)) = false := by
  obtain ⟨d, ds, rfl⟩ := List.exists_cons_of_ne_nil hne
  have hupper : startTag.map Char.toUpper = startTag := by decide
  rw [Bool.eq_false_iff, Ne, atTag_iff] at h ⊢
  rw [List.map_append, List.map_append, hupper]
  intro hprefix
  rcases List.prefix_or_prefix_of_prefix hprefix (List.prefix_append _ _) with h' | ⟨u, hu⟩
  · exact h h'
  · cases u with
    | nil =>
      rw [List.append_nil] at hu
      exact h (hu ▸ List.prefix_rfl)
    | cons c u =>
      nth_rewrite 1 [← hu] at hprefix
      rw [List.prefix_append_right_inj, startTag_eq, List.cons_append,
        List.cons_prefix_cons] at hprefix
      obtain rfl : c = '<' := hprefix.1
      rw [List.map_cons, List.cons_append, startTag_eq] at hu
      have hmem : '<' ∈ "STMTTRN".toList ++ ['>'] := by
        rw [← (List.cons.inj hu).2]
        simp
      exact absurd hmem (by decide)

theorem cutBefore_quiet {cs : List Char} (h : cutBefore (atTag startTag) cs = none)
    (rest : List Char) :
    cutBefore (atTag startTag) (cs ++ (startTag ++ rest)) = some (cs, startTag ++ rest) := by
  induction cs with
  | nil => exact cutBefore_pos (atTag_self (by decide) rest)
  | cons c cs ih =>
    cases hstart : atTag startTag (c :: cs) with
    | true =>
      rw [cutBefore_pos hstart] at h
      cases h
    | false =>
      rw [cutBefore_neg hstart, Option.map_eq_none_iff] at h
      have happend : atTag startTag (c :: (cs ++ (startTag ++ rest))) = false :=
        startTag_append (List.cons_ne_nil c cs) hstart
      rw [List.cons_append, cutBefore_neg happend, ih h, Option.map_some]

def Aggregate.after (a : Aggregate lib) : Between where
  text := endTag ++ a.behind.text
  quiet := by
    have hplain := atTag_plain startTag_eq
    have hend : '<' ∉ '/' :: ("STMTTRN".toList ++ ['>']) := by decide
    have hneg : ∀ rest, atTag startTag ('<' :: '/' :: rest) = false := by
      intro rest
      rw [Bool.eq_false_iff, Ne, atTag_iff, startTag_eq, List.map_cons, List.cons_prefix_cons,
        List.map_cons]
      rintro ⟨-, hprefix⟩
      exact absurd (List.cons_prefix_cons.mp hprefix).1 (by decide)
    have hcut : cutBefore (atTag startTag) ('/' :: ("STMTTRN".toList ++ ['>']) ++ a.behind.text) =
        none := by
      rw [cutBefore_plain hplain hend, ← atTag_start, a.behind.quiet, Option.map_none]
    rw [atTag_start, endTag_eq, List.cons_append]
    refine (cutBefore_neg (hneg _)).trans ?_
    exact congrArg (Option.map _) hcut

theorem nextBlock_render (b : Between) (a : Aggregate lib) (rest : List Char) :
    Ofx.nextBlock (b.text ++ (a.render ++ rest)) = some (some (a.body, a.after.text ++ rest)) := by
  have htext : a.render ++ rest = startTag ++ (a.body ++ (endTag ++ (a.behind.text ++ rest))) := by
    simp only [Aggregate.render, List.append_assoc]
  have hdrop : ∀ cs : List Char, (startTag ++ cs).drop 9 = cs :=
    fun cs => List.drop_left' (by decide)
  have hquiet := b.quiet
  rw [atTag_start] at hquiet
  rw [Ofx.nextBlock, atTag_start, htext, cutBefore_quiet hquiet, Option.map_some]
  simp only [hdrop, cutBlock_body, Aggregate.after, List.append_assoc]

theorem stmttrnBlocks_render (aggregates : List (Aggregate lib)) (b : Between) :
    Ofx.stmttrnBlocks (b.text ++ aggregates.flatMap Aggregate.render) =
      .ok (aggregates.map fun a => String.ofList a.body) := by
  induction aggregates generalizing b with
  | nil =>
    refine Ofx.stmttrnBlocks_none ?_
    rw [List.flatMap_nil, List.append_nil, Ofx.nextBlock, b.quiet, Option.map_none]
  | cons a aggregates ih =>
    rw [List.flatMap_cons, Ofx.stmttrnBlocks_some (nextBlock_render b a _), ih a.after]
    rfl

end

/-! ## Lines -/

section

theorem digits_padZero (width n : ℕ) :
    (padZero width n).toList.filter Char.isDigit = (padZero width n).toList :=
  List.filter_eq_self.mpr fun _ hc => isDigit_of_mem_padZero hc

theorem length_parts {d : NaiveDate} (h : 0 ≤ d.year ∧ d.year ≤ 9999) :
    (padZero 4 d.year.toNat).toList.length = 4 ∧ (padZero 2 d.month).toList.length = 2 ∧
      (padZero 2 d.day).toList.length = 2 := by
  have hlast := d.day_range.2.trans (daysInMonth_le d.year d.month)
  exact ⟨length_padZero (by decide) (by omega),
    length_padZero (by decide) (by have := d.month_range; omega),
    length_padZero (by decide) (by omega)⟩

theorem parseOfxDate_compact {d : NaiveDate} (h : 0 ≤ d.year ∧ d.year ≤ 9999) {raw : String}
    {time : List Char} (hraw : raw.toList = compact d ++ time) : Ofx.parseOfxDate raw = some d := by
  obtain ⟨hyear, hmonth, hday⟩ := length_parts h
  have hdigits : raw.toList.filter Char.isDigit = (padZero 4 d.year.toNat).toList ++
      ((padZero 2 d.month).toList ++ ((padZero 2 d.day).toList ++ time.filter Char.isDigit)) := by
    simp only [hraw, compact, List.filter_append, digits_padZero, List.append_assoc]
  have hfour : (raw.toList.filter Char.isDigit).take 4 = (padZero 4 d.year.toNat).toList := by
    rw [hdigits, List.take_left' hyear]
  have hsix : ((raw.toList.filter Char.isDigit).drop 4).take 2 = (padZero 2 d.month).toList := by
    rw [hdigits, List.drop_left' hyear, List.take_left' hmonth]
  have height : ((raw.toList.filter Char.isDigit).drop 6).take 2 = (padZero 2 d.day).toList := by
    rw [hdigits, ← List.drop_drop (i := 2) (j := 4), List.drop_left' hyear, List.drop_left' hmonth,
      List.take_left' hday]
  have hlong : ¬ (raw.toList.filter Char.isDigit).length < 8 := by
    simp only [hdigits, List.length_append, hyear, hmonth, hday]
    omega
  have hdate : NaiveDate.fromYmdOpt d.year.toNat d.month d.day = some d :=
    NaiveDate.fromYmdOpt_eq_some.mpr ⟨by omega, rfl, rfl⟩
  rw [Ofx.parseOfxDate]
  simp only [if_neg hlong, hfour, hsix, height, NaiveDate.parseDigits_padZero, Option.bind_eq_bind,
    Option.bind_some, hdate]

theorem parseBlock_body (a : Aggregate lib) :
    Ofx.parseBlock lib (String.ofList a.body) = .ok a.transaction.line := by
  have hvalue : ∀ tag ∈ readTags, Ofx.tagValue (String.ofList a.body) tag = valueOf tag a.fields :=
    fun tag htag => tagValue_fields (looked_of_mem htag) a.blank_white
      fun f hf => a.spells.apart f hf tag htag
  obtain ⟨rawDate, time, hdate, htime⟩ := a.spells.date
  obtain ⟨rawAmount, hamount, hparse⟩ := a.spells.amount
  have hpayee : (a.transaction.name.orElse fun _ => none) = a.transaction.name := by
    cases a.transaction.name <;> rfl
  rw [Ofx.parseBlock]
  simp only [hvalue "DTPOSTED" (by decide), hvalue "TRNAMT" (by decide), hvalue "NAME" (by decide),
    hvalue "PAYEE" (by decide), hvalue "MEMO" (by decide), hvalue "FITID" (by decide), hdate,
    hamount, a.spells.name, a.spells.payee, a.spells.memo, a.spells.id, Commit.okOr, Commit.ok_bind,
    parseOfxDate_compact a.spells.year htime, hparse, hpayee]
  rfl

theorem mapM_parseBlock (aggregates : List (Aggregate lib)) :
    (aggregates.map fun a => String.ofList a.body).mapM (Ofx.parseBlock lib) =
      .ok (aggregates.map fun a => a.transaction.line) := by
  induction aggregates with
  | nil => rfl
  | cons a aggregates ih =>
    rw [List.map_cons, List.mapM_cons, parseBlock_body, Commit.ok_bind, ih]
    rfl

/-- A file of aggregates is parsed to the lines of their transactions, in order. -/
theorem parse_document (lib : Libraries) (header : Between) {aggregates : List (Aggregate lib)}
    (h : aggregates ≠ []) :
    Ofx.parse lib (document header aggregates) =
      .ok (aggregates.map fun a => a.transaction.line) := by
  have hlines : aggregates.map (fun a => a.transaction.line) ≠ [] := by simpa using h
  rw [Ofx.parse, document, String.toList_ofList, stmttrnBlocks_render, Commit.ok_bind,
    mapM_parseBlock, Commit.ok_bind, Commit.ensure, if_pos hlines]
  rfl

def plainLibraries : Libraries where
  parseDate _ := none
  parseDecimal := Decimal.plain.parse
  isAlphanumeric := Char.isAlphanum
  toLowercase c := [c.toLower]
  lower s := s
  infer _ := none
  csvRecords _ := .ok []

theorem year_range : minYear ≤ 2026 ∧ 2026 ≤ maxYear := by decide

theorem august_range : 1 ≤ 8 ∧ 8 ≤ 12 := by decide

/-- A payment of 12 on 21 August 2026, with one closed field and three that are not. -/
def coffee : Aggregate plainLibraries where
  transaction :=
    { date := ⟨2026, 8, 21, year_range, august_range, by decide⟩
      amount := -12
      name := some "Café"
      memo := none
      id := some "T1" }
  blank := ['\n']
  fields :=
    [{ tag := "DTPOSTED".toList, value := "20260821".toList, closed := false, blank := ['\n'] },
      { tag := "TRNAMT".toList, value := "-12".toList, closed := false, blank := ['\n'] },
      { tag := "FITID".toList, value := "T1".toList, closed := false, blank := ['\n'] },
      { tag := "NAME".toList, value := "Café".toList, closed := true, blank := [] }]
  behind := { text := ['\n'] }
  blank_white := by decide
  spells :=
    { year := by decide
      date := ⟨"20260821", [], by decide, by decide⟩
      amount := ⟨"-12", by decide, by decide⟩
      name := by decide
      payee := by decide
      memo := by decide
      id := by decide
      apart := by decide }

theorem parse_document_coffee :
    Ofx.parse plainLibraries (document { text := "<OFX>".toList } [coffee]) =
      .ok [coffee.transaction.line] :=
  parse_document plainLibraries { text := "<OFX>".toList } (List.cons_ne_nil coffee [])

end

end OpenAccounting.OfxStatements
