import Mathlib.Data.List.Forall2
import OpenAccounting.Import.Bills

/-!
# MT940 movements

A bill is a list of movements, each a `:61:` line and perhaps an `:86:` line.  The parser pushes a
row for a movement whose mark is `C` or `D` and which has no funds code, with its amount on its side.
The cursor stops at any other mark and at a funds code, so there the amount is empty and the
movement is dropped.  A narrative comes through when its subfields have codes of two bytes: of a text
without subfields nothing is left, and the slash at the end of a text is cut off with the slashes
that join the subfields.
-/

namespace OpenAccounting.Mt940Movements

open Import RustStr

/-! ## Movements -/

/-- A text without a line break. -/
def OneLine (cs : List Char) : Prop := ∀ c ∈ cs, c ≠ '\n' ∧ c ≠ '\r'

/-- A text of digits. -/
def Digits (cs : List Char) : Prop := ∀ c ∈ cs, c.isDigit = true

instance (cs : List Char) : Decidable (OneLine cs) :=
  inferInstanceAs (Decidable (∀ c ∈ cs, c ≠ '\n' ∧ c ≠ '\r'))

instance (cs : List Char) : Decidable (Digits cs) :=
  inferInstanceAs (Decidable (∀ c ∈ cs, c.isDigit = true))

/-- The marks `C`, `D`, `RC` and `RD`. -/
inductive Mark where
  | credit
  | debit
  | reversedCredit
  | reversedDebit
deriving DecidableEq

/-- The letters of a mark. -/
def Mark.text : Mark → List Char
  | .credit => ['C']
  | .debit => ['D']
  | .reversedCredit => ['R', 'C']
  | .reversedDebit => ['R', 'D']

/-- The movement belongs on the credit side. -/
def Mark.isCredit : Mark → Bool
  | .credit => true
  | .debit => false
  | .reversedCredit => false
  | .reversedDebit => true

/-- A `:61:` line with its `:86:` line. -/
structure Movement where
  date : List Char
  entryDate : Option (List Char)
  mark : Mark
  funds : Option Char
  whole : List Char
  fraction : List Char
  reference : List Char
  narrative : Option (List Char)
  date_length : date.length = 6 := by decide
  date_digits : Digits date := by decide
  entryDate_digits : ∀ cs ∈ entryDate, cs.length = 4 ∧ Digits cs := by decide
  funds_upper : ∀ c ∈ funds, c.isUpper = true := by decide
  whole_digits : Digits whole := by decide
  fraction_digits : Digits fraction := by decide
  reference_line : OneLine reference := by decide
  narrative_line : ∀ cs ∈ narrative, OneLine cs := by decide

/-- A line with another tag, as there are before and after the movements. -/
structure OtherLine where
  text : List Char
  line : OneLine text := by decide
  tagged : text.head? = some ':' := by decide
  not61 : ¬ [':', '6', '1', ':'] <+: text := by decide
  not86 : ¬ [':', '8', '6', ':'] <+: text := by decide

def Movement.amount (m : Movement) : List Char := m.whole ++ '.' :: m.fraction

/-- What a `:61:` line has after the date. -/
def Movement.tail (m : Movement) : List Char :=
  m.mark.text ++ (m.funds.toList ++ (m.whole ++ ',' :: (m.fraction ++ ['N'])))

def Movement.line61 (m : Movement) : List Char :=
  [':', '6', '1', ':'] ++ (m.date ++ (m.entryDate.getD [] ++ (m.tail ++ m.reference)))

def Movement.lines (m : Movement) : List (List Char) :=
  m.line61 :: (m.narrative.map fun text => [':', '8', '6', ':'] ++ text).toList

def billLines (header : List OtherLine) (movements : List Movement) (footer : List OtherLine) :
    List (List Char) :=
  header.map OtherLine.text ++ (movements.flatMap Movement.lines ++ footer.map OtherLine.text)

/-- The text of a bill. -/
def bill (header : List OtherLine) (movements : List Movement) (footer : List OtherLine) : String :=
  unlines ((billLines header movements footer).map String.ofList)

/-! ## Rows -/

/-- The text without the white space at its end. -/
def trimmed (cs : List Char) : List Char := (trimEnd (String.ofList cs)).toList

/-- The pieces occur in the text, one after the other. -/
inductive InOrder : List (List Char) → List Char → Prop where
  | nil (text : List Char) : InOrder [] text
  | cons {p : List Char} {ps : List (List Char)} (before : List Char) {after : List Char}
      (h : InOrder ps after) : InOrder (p :: ps) (before ++ (p ++ after))

/-- The parts of a text: what is in front of the first question mark, and what follows each one with
it. -/
def parts (text : List Char) : List (List Char) :=
  match text.splitOn '?' with
  | [] => []
  | start :: segments =>
    (trim (String.ofList start)).toList :: segments.map fun segment => '?' :: segment

structure RowOf (m : Movement) (row : ParsedRow) : Prop where
  credit : m.mark.isCredit = true → row.credit.toList = m.amount ∧ row.debit = ""
  debit : m.mark.isCredit = false → row.debit.toList = m.amount ∧ row.credit = ""
  description : ∀ text ∈ m.narrative, InOrder (parts (trimmed text)) row.description.toList

/-- The bill is parsed to one row for each movement, in order. -/
def ParsesTo (header : List OtherLine) (movements : List Movement) (footer : List OtherLine) :
    Prop :=
  ∃ mt, Mt940.parse (bill header movements footer) = some mt ∧ List.Forall₂ RowOf movements mt.rows

/-- Each subfield of a text has a code of two bytes. -/
inductive Coded : List Char → Prop where
  | plain {text : List Char} (h : '?' ∉ text) : Coded text
  | sub {before code segment rest : List Char} (hbefore : '?' ∉ before) (hcode : byteLen code = 2)
      (hsegment : '?' ∉ segment) (hrest : ∀ c ∈ rest.head?, c = '?') (h : Coded rest) :
      Coded (before ++ '?' :: (code ++ (segment ++ rest)))

/-- A narrative that comes through: if it has a text at all, it has subfields, and the last one does
not end with a slash. -/
def Kept (text : List Char) : Prop :=
  text = [] ∨ '?' ∈ text ∧ Coded text ∧ text.getLast? ≠ some '/'

/-- The mark of the movement is a single letter, and the amount follows it. -/
def Movement.Plain (m : Movement) : Prop := (m.mark = .credit ∨ m.mark = .debit) ∧ m.funds = none

instance (m : Movement) : Decidable m.Plain := inferInstanceAs (Decidable (_ ∧ _))

/-- What the parser asks of a movement. -/
structure Movement.Readable (m : Movement) : Prop where
  plain : m.Plain
  kept : ∀ text ∈ m.narrative, Kept (trimmed text)

/-! ## The lines -/

section

/-- A `:61:` line up to the `N`. -/
def Movement.body (m : Movement) : List Char := m.date ++ (m.entryDate.getD [] ++ m.tail)

theorem Movement.line61_eq (m : Movement) :
    m.line61 = [':', '6', '1', ':'] ++ (m.body ++ m.reference) := by
  simp [line61, body]

theorem Movement.digits_dates (m : Movement) :
    ∀ c ∈ m.date ++ m.entryDate.getD [], c.isDigit = true := by
  intro c hc
  rcases List.mem_append.mp hc with hc | hc
  · exact m.date_digits c hc
  · cases hentry : m.entryDate with
    | none => simp [hentry] at hc
    | some cs =>
      rw [hentry] at hc
      exact (m.entryDate_digits cs (by simp [hentry])).2 c hc

theorem Movement.body_ends (m : Movement) : ∃ (first : Char) (middle : List Char),
    first.isDigit = true ∧ m.body = first :: (middle ++ ['N']) := by
  have hlength := m.date_length
  have hdigits := m.date_digits
  obtain ⟨first, rest, hdate⟩ := List.exists_cons_of_length_eq_add_one hlength
  rw [hdate] at hdigits
  refine ⟨first, rest ++ (m.entryDate.getD [] ++ (m.mark.text ++ (m.funds.toList ++
    (m.whole ++ ',' :: m.fraction)))), hdigits first List.mem_cons_self, ?_⟩
  simp [body, tail, hdate]

theorem Movement.trim_body (m : Movement) (rest : List Char) :
    ∃ rest', (trim (String.ofList (m.body ++ rest))).toList = m.body ++ rest' := by
  obtain ⟨first, middle, hfirst, hbody⟩ := m.body_ends
  have htrim := trim_append first middle 'N' (String.ofList rest) (isWhitespace_of_isDigit hfirst)
    (by decide)
  rw [← hbody, ← String.ofList_append] at htrim
  rw [htrim]
  exact ⟨(trimEnd (String.ofList rest)).toList, by simp⟩

theorem Movement.trim_line61 (m : Movement) :
    ∃ rest, trim (String.ofList m.line61) =
      String.ofList ([':', '6', '1', ':'] ++ (m.body ++ rest)) := by
  obtain ⟨first, middle, -, hbody⟩ := m.body_ends
  have htrim := trim_append ':' ('6' :: '1' :: ':' :: first :: middle) 'N'
    (String.ofList m.reference) (by decide) (by decide)
  rw [← String.ofList_append] at htrim
  have hline : m.line61 =
      ':' :: ('6' :: '1' :: ':' :: first :: middle ++ ['N']) ++ m.reference := by
    rw [m.line61_eq, hbody]
    simp
  rw [hline, htrim]
  refine ⟨(trimEnd (String.ofList m.reference)).toList, String.toList_inj.mp ?_⟩
  simp [hbody]

theorem Movement.takeWhile_tail (m : Movement) (rest : List Char) :
    (m.tail ++ rest).takeWhile Char.isDigit = [] := by
  rw [tail]
  cases m.mark <;> simp [Mark.text]

theorem isDigit_of_isUpper {c : Char} (h : c.isUpper = true) : Mt940.isAmountChar c = false := by
  delta Char.isUpper at h
  simp only [decide_eq_true_eq, ge_iff_le, UInt32.le_iff_toNat_le] at h
  have hval : c.toNat = c.val.toNat := rfl
  simp only [Mt940.isAmountChar, Char.isDigit, Bool.or_eq_false_iff, Bool.and_eq_false_iff,
    decide_eq_false_iff_not, beq_eq_false_iff_ne, ne_eq, ge_iff_le, UInt32.le_iff_toNat_le]
  simp at h ⊢
  refine ⟨by omega, ?_⟩
  rintro rfl
  simp at h

theorem Movement.takeMark_plain {m : Movement} (h : m.Plain) (rest : List Char) :
    (Mt940.takeMark (m.tail ++ rest)).1 = some (if m.mark = .debit then 'D' else 'C') ∧
      (Mt940.takeMark (m.tail ++ rest)).2.takeWhile Mt940.isAmountChar =
        m.whole ++ ',' :: m.fraction := by
  have hamount : (m.whole ++ (',' :: m.fraction) ++ 'N' :: rest).takeWhile Mt940.isAmountChar =
      m.whole ++ ',' :: m.fraction := by
    rw [List.takeWhile_append_of_pos]
    · simp [Mt940.isAmountChar]
    · intro c hc
      rcases List.mem_append.mp hc with hc | hc
      · simp [Mt940.isAmountChar, m.whole_digits c hc]
      · rcases List.mem_cons.mp hc with rfl | hc
        · rfl
        · simp [Mt940.isAmountChar, m.fraction_digits c hc]
  obtain ⟨hmark, hfunds⟩ := h
  rcases hmark with hmark | hmark
  · simp only [tail, hmark, hfunds, Mark.text]
    simpa [Mt940.takeMark] using hamount
  · simp only [tail, hmark, hfunds, Mark.text]
    simpa [Mt940.takeMark] using hamount

theorem Movement.takeMark_other {m : Movement} (h : ¬ m.Plain) (rest : List Char) :
    (Mt940.takeMark (m.tail ++ rest)).2.takeWhile Mt940.isAmountChar = [] := by
  rw [tail]
  cases hmark : m.mark with
  | reversedCredit => simp [Mark.text, Mt940.takeMark, Mt940.isAmountChar]
  | reversedDebit => simp [Mark.text, Mt940.takeMark, Mt940.isAmountChar]
  | credit =>
    cases hfunds : m.funds with
    | none => exact absurd ⟨Or.inl hmark, hfunds⟩ h
    | some c => simp [Mark.text, Mt940.takeMark, isDigit_of_isUpper (m.funds_upper c hfunds)]
  | debit =>
    cases hfunds : m.funds with
    | none => exact absurd ⟨Or.inr hmark, hfunds⟩ h
    | some c => simp [Mark.text, Mt940.takeMark, isDigit_of_isUpper (m.funds_upper c hfunds)]

theorem Movement.points (m : Movement) :
    (m.whole ++ ',' :: m.fraction).map (fun c => if c = ',' then '.' else c) = m.amount := by
  have hdigits : ∀ {cs : List Char}, Digits cs →
      cs.map (fun c => if c = ',' then '.' else c) = cs := by
    intro cs hcs
    conv_rhs => rw [← List.map_id cs]
    refine List.map_congr_left fun c hc => if_neg ?_
    rintro rfl
    exact absurd (hcs _ hc) (by decide)
  rw [List.map_append, List.map_cons, hdigits m.whole_digits, hdigits m.fraction_digits, if_pos rfl,
    amount]

/-- What is read from a `:61:` line. -/
structure Reads61 (m : Movement) (t : Mt940.Txn) : Prop where
  valueDate : t.valueDate ≠ none
  plain : m.Plain → t.amount = some (String.ofList m.amount) ∧
    (t.direction = some 'D' ↔ m.mark = .debit)
  other : ¬ m.Plain → t.amount = none

theorem Movement.parse61 (m : Movement) (rest : List Char) :
    Reads61 m (Mt940.parse61 (String.ofList (m.body ++ rest))) := by
  obtain ⟨rest', htrim⟩ := m.trim_body rest
  have hsplit : (trim (String.ofList (m.body ++ rest))).toList =
      (m.date ++ m.entryDate.getD []) ++ (m.tail ++ rest') := by
    rw [htrim]
    simp [body]
  obtain ⟨hdirection, hamount⟩ := Mt940.parse61_mark hsplit m.digits_dates (m.takeWhile_tail rest')
  refine ⟨?_, fun hplain => ?_, fun hother => ?_⟩
  · rw [Mt940.parse61_valueDate hsplit m.digits_dates (m.takeWhile_tail rest')
      (by rw [List.length_append, m.date_length]; omega)]
    exact Option.some_ne_none _
  · obtain ⟨hmark, htake⟩ := takeMark_plain hplain rest'
    constructor
    · rw [hamount, htake, if_neg (by simp), m.points]
    · rw [hdirection, hmark]
      by_cases hdebit : m.mark = .debit
      · simp [hdebit]
      · simp [hdebit]
  · rw [hamount, takeMark_other hother rest', if_pos rfl]

end

/-! ## Pieces in order -/

section

theorem splitOn_eq_cons (cs : List Char) : ∃ start segments, cs.splitOn '?' = start :: segments ∧
    '?' ∉ start ∧ (∀ segment ∈ segments, '?' ∉ segment) ∧ segments.length = cs.count '?' := by
  induction cs with
  | nil => exact ⟨[], [], rfl, by simp, by simp, rfl⟩
  | cons c cs ih =>
    obtain ⟨start, segments, hsplit, hstart, hsegments, hlength⟩ := ih
    rw [List.splitOn_cons_eq_if_modifyHead, hsplit]
    by_cases hc : c = '?'
    · subst hc
      refine ⟨[], start :: segments, by simp, by simp, ?_, by simp [hlength]⟩
      intro segment hsegment
      rcases List.mem_cons.mp hsegment with rfl | hsegment
      · exact hstart
      · exact hsegments segment hsegment
    · refine ⟨c :: start, segments, by simp [hc], ?_, hsegments, ?_⟩
      · simp [hstart, Ne.symm hc]
      · rw [hlength, List.count_cons_of_ne hc]

theorem count_eq_zero_of_trim {cs : List Char} (h : '?' ∉ cs) :
    (trim (String.ofList cs)).toList.count '?' = 0 := by
  refine List.count_eq_zero.mpr fun hc => h ?_
  simpa using mem_toList_trim hc

theorem count_parts (text : List Char) :
    ((parts text).map (List.count '?')).sum = text.count '?' := by
  obtain ⟨start, segments, hsplit, hstart, hsegments, hlength⟩ := splitOn_eq_cons text
  have hone : segments.map (List.count '?' ∘ fun segment => '?' :: segment) =
      segments.map fun _ => 1 := by
    refine List.map_congr_left fun segment hsegment => ?_
    simp [List.count_eq_zero.mpr (hsegments segment hsegment)]
  simp only [parts, hsplit, List.map_cons, List.map_map, List.sum_cons,
    count_eq_zero_of_trim hstart, hone]
  simp [hlength]

theorem parts_last {before last : List Char} (h : '?' ∉ last) :
    ∃ front, parts (before ++ '?' :: last) = front ++ ['?' :: last] := by
  obtain ⟨start, segments, hsplit, -, -, -⟩ := splitOn_eq_cons before
  have hall : (before ++ '?' :: last).splitOn '?' = start :: (segments ++ [last]) := by
    rw [List.splitOn_append_cons_self, hsplit, List.splitOn_eq_singleton h, List.cons_append]
  simp only [parts, hall, List.map_append, List.map_cons, List.map_nil]
  exact ⟨(trim (String.ofList start)).toList :: segments.map fun segment => '?' :: segment, by simp⟩

theorem InOrder.count_le {ps : List (List Char)} {text : List Char} (h : InOrder ps text) :
    (ps.map (List.count '?')).sum ≤ text.count '?' := by
  induction h with
  | nil => exact Nat.zero_le _
  | cons before _ ih =>
    simp only [List.map_cons, List.sum_cons, List.count_append]
    omega

theorem InOrder.eq_nil {p : List Char} (h : InOrder [p] "".toList) : p = [] := by
  generalize htext : "".toList = text at h
  cases h with
  | cons before h =>
    have hpieces := List.append_eq_nil_iff.mp htext.symm
    exact (List.append_eq_nil_iff.mp hpieces.2).1

theorem InOrder.last {ps : List (List Char)} {p text : List Char} (h : InOrder (ps ++ [p]) text) :
    ∃ before after, text = before ++ (p ++ after) ∧
      (ps.map (List.count '?')).sum ≤ before.count '?' := by
  induction ps generalizing text with
  | nil =>
    cases h with
    | cons before h => exact ⟨before, _, rfl, Nat.zero_le _⟩
  | cons q ps ih =>
    obtain ⟨⟩ | ⟨before, hrest⟩ := h
    obtain ⟨before', after', rfl, hle⟩ := ih hrest
    refine ⟨before ++ (q ++ before'), after', by simp, ?_⟩
    simp only [List.map_cons, List.sum_cons, List.count_append]
    omega

theorem last_unique {before last before' last' : List Char} (h : '?' ∉ last) (h' : '?' ∉ last')
    (heq : before ++ '?' :: last = before' ++ '?' :: last') : last = last' := by
  have hcut : cutAt '?' (before ++ '?' :: last).reverse = some (last.reverse, before.reverse) :=
    cutAt_eq_some.mpr ⟨by simp, by simpa using h⟩
  have hcut' : cutAt '?' (before' ++ '?' :: last').reverse =
      some (last'.reverse, before'.reverse) :=
    cutAt_eq_some.mpr ⟨by simp, by simpa using h'⟩
  rw [heq, hcut'] at hcut
  exact List.reverse_injective (Prod.mk.inj (Option.some.inj hcut)).1.symm

theorem exists_last {cs : List Char} (h : '?' ∈ cs) :
    ∃ before last, cs = before ++ '?' :: last ∧ '?' ∉ last := by
  cases hcut : cutAt '?' cs.reverse with
  | none => exact absurd (List.mem_reverse.mpr h) (cutAt_eq_none.mp hcut)
  | some r =>
    obtain ⟨last, before⟩ := r
    obtain ⟨hrev, hlast⟩ := cutAt_eq_some.mp hcut
    refine ⟨before.reverse, last.reverse, ?_, by simpa using hlast⟩
    rw [← List.reverse_reverse cs, hrev]
    simp

end

/-! ## Slashes -/

section

/-- A text with slashes in front of some of its question marks. -/
inductive Slashed : List Char → List Char → Prop where
  | nil : Slashed [] []
  | char (c : Char) {text slashed : List Char} (h : Slashed text slashed) :
      Slashed (c :: text) (c :: slashed)
  | slash {text slashed : List Char} (h : Slashed text slashed) :
      Slashed ('?' :: text) ('/' :: '?' :: slashed)

variable {text slashed : List Char}

theorem Slashed.append (cs : List Char) (h : Slashed text slashed) :
    Slashed (cs ++ text) (cs ++ slashed) := by
  induction cs with
  | nil => exact h
  | cons c cs ih => exact ih.char c

theorem Slashed.refl (text : List Char) : Slashed text text := by
  simpa using Slashed.nil.append text

theorem Slashed.count (h : Slashed text slashed) : slashed.count '?' = text.count '?' := by
  induction h with
  | nil => rfl
  | char c _ ih => simp [List.count_cons, ih]
  | slash _ ih => simp [ih]

theorem Slashed.eq_self (h : Slashed text slashed) (htext : '?' ∉ text) : slashed = text := by
  induction h with
  | nil => rfl
  | char c _ ih => rw [ih fun hc => htext (List.mem_cons_of_mem c hc)]
  | slash _ _ => exact absurd List.mem_cons_self htext

theorem Slashed.last {before last : List Char} (h : Slashed text slashed) (hlast : '?' ∉ last)
    (htext : text = before ++ '?' :: last) : ∃ before', slashed = before' ++ '?' :: last := by
  induction h generalizing before with
  | nil => simp at htext
  | char c h ih =>
    cases before with
    | nil =>
      obtain ⟨rfl, rfl⟩ := List.cons.inj htext
      exact ⟨[], by rw [h.eq_self hlast, List.nil_append]⟩
    | cons d before =>
      obtain ⟨rfl, htail⟩ := List.cons.inj htext
      obtain ⟨before', rfl⟩ := ih htail
      exact ⟨c :: before', rfl⟩
  | slash h ih =>
    cases before with
    | nil =>
      obtain ⟨-, rfl⟩ := List.cons.inj htext
      exact ⟨['/'], by rw [h.eq_self hlast, List.singleton_append]⟩
    | cons d before =>
      obtain ⟨rfl, htail⟩ := List.cons.inj htext
      obtain ⟨before', rfl⟩ := ih htail
      exact ⟨'/' :: '?' :: before', rfl⟩

theorem Slashed.inOrder (h : Slashed text slashed) : ∃ start segments rest,
    text.splitOn '?' = start :: segments ∧ slashed = start ++ rest ∧
      InOrder (segments.map fun segment => '?' :: segment) rest := by
  induction h with
  | nil => exact ⟨[], [], [], rfl, rfl, .nil []⟩
  | char c h ih =>
    obtain ⟨start, segments, rest, hsplit, rfl, hrest⟩ := ih
    rw [List.splitOn_cons_eq_if_modifyHead, hsplit]
    by_cases hc : c = '?'
    · subst hc
      exact ⟨[], start :: segments, '?' :: (start ++ rest), by simp, rfl, .cons [] hrest⟩
    · exact ⟨c :: start, segments, rest, by simp [hc], rfl, hrest⟩
  | slash h ih =>
    obtain ⟨start, segments, rest, hsplit, rfl, hrest⟩ := ih
    rw [List.splitOn_cons_eq_if_modifyHead, hsplit]
    exact ⟨[], start :: segments, '/' :: '?' :: (start ++ rest), by simp, rfl, .cons ['/'] hrest⟩

end

/-! ## Subfields -/

section

open Mt940

variable {before : List Char}

/-- The subfields of a text as they stand in a description, with a slash behind each. -/
def joined (subs : List (List Char)) : List Char := subs.flatMap fun sub => sub ++ ['/']

theorem joined_cons (sub : List Char) (subs : List (List Char)) :
    joined (sub :: subs) = sub ++ '/' :: joined subs := by
  simp [joined]

theorem joined_append (subs subs' : List (List Char)) :
    joined (subs ++ subs') = joined subs ++ joined subs' := List.flatMap_append

theorem joined_leading (before : List Char) : ∃ between,
    joined (leading before) = (trim (String.ofList before)).toList ++ between := by
  rw [leading]
  split
  · next hnil => exact ⟨[], by rw [hnil]; rfl⟩
  · exact ⟨['/'], by simp [joined]⟩

theorem count_joined_leading (h : '?' ∉ before) : (joined (leading before)).count '?' = 0 := by
  have hcount := count_eq_zero_of_trim h
  rw [leading]
  split
  · rfl
  · simp [joined, hcount]

/-- A coded narrative is split at its codes, and slashes take their places. -/
theorem Coded.splitSubfields {text : List Char} (h : Coded text) (htext : '?' ∈ text) :
    ∃ before rest slashed subs, text = before ++ '?' :: rest ∧ '?' ∉ before ∧
      splitSubfields text = some subs ∧ Slashed rest slashed ∧
      joined subs = joined (leading before) ++ '?' :: (slashed ++ ['/']) := by
  induction h with
  | plain h => exact absurd htext h
  | @sub before code segment rest hbefore hcode hsegment hrest h ih =>
    have hsplit := splitSubfields_code hbefore hcode hsegment hrest
    cases rest with
    | nil =>
      have hnil : Mt940.splitSubfields [] = some [] := splitSubfields_plain (by simp)
      rw [hnil, Option.map_some] at hsplit
      refine ⟨before, _, code ++ segment, _, rfl, hbefore, hsplit, ?_, ?_⟩
      · rw [List.append_nil]
        exact Slashed.refl _
      · simp [joined]
    | cons c rest =>
      obtain rfl := hrest c rfl
      obtain ⟨before', rest', slashed, subs, htail, hbefore', hsubs, hslashed, hjoined⟩ :=
        ih List.mem_cons_self
      obtain rfl : before' = [] := by
        cases before' with
        | nil => rfl
        | cons d before' =>
          obtain ⟨rfl, -⟩ := List.cons.inj htail
          exact absurd List.mem_cons_self hbefore'
      obtain rfl := (List.cons.inj htail).2
      rw [hsubs, Option.map_some] at hsplit
      refine ⟨before, _, code ++ (segment ++ '/' :: '?' :: slashed), _, rfl, hbefore, hsplit,
        (hslashed.slash.append segment).append code, ?_⟩
      have hnone : joined (leading []) = [] := rfl
      rw [hnone, List.nil_append] at hjoined
      rw [joined_append, joined_cons, hjoined]
      simp

/-- A subfield without a code of two bytes stops the parser, or loses question marks. -/
theorem count_splitSubfields {text : List Char} (h : ¬ Coded text) {subs : List (List Char)}
    (hsubs : splitSubfields text = some subs) : (joined subs).count '?' < text.count '?' := by
  induction hn : text.length using Nat.strong_induction_on generalizing text subs with
  | _ n ih =>
    subst hn
    cases hcut : cutAt '?' text with
    | none => exact absurd (Coded.plain (cutAt_eq_none.mp hcut)) h
    | some r =>
      obtain ⟨before, tail⟩ := r
      obtain ⟨rfl, hbefore⟩ := cutAt_eq_some.mp hcut
      have hleading := count_joined_leading hbefore
      by_cases hshort : byteLen tail < 2
      · rw [splitSubfields_short hbefore hshort] at hsubs
        obtain rfl := Option.some.inj hsubs
        rw [hleading, List.count_append, List.count_cons_self]
        omega
      · cases hsub : takeSubfield tail with
        | none =>
          rw [splitSubfields_panic hbefore hshort hsub] at hsubs
          cases hsubs
        | some r =>
          obtain ⟨⟨code, after⟩, hsplit, hr⟩ := Option.map_eq_some_iff.mp hsub
          cases hr
          have hcode := byteLen_of_splitBytes hsplit
          obtain rfl := splitBytes_eq_some hsplit
          obtain ⟨segment, rest, rfl, hsegment, hrest⟩ := exists_segment after
          have hrestCoded : ¬ Coded rest := fun hc =>
            h (Coded.sub hbefore hcode hsegment hrest hc)
          rw [splitSubfields_code hbefore hcode hsegment hrest] at hsubs
          obtain ⟨out, hout, rfl⟩ := Option.map_eq_some_iff.mp hsubs
          have hshorter : rest.length <
              (before ++ '?' :: (code ++ (segment ++ rest))).length := by
            simp only [List.length_append, List.length_cons]
            omega
          have hlt := ih rest.length hshorter hrestCoded hout rfl
          have hslash : ('/' :: joined out).count '?' = (joined out).count '?' :=
            List.count_cons_of_ne (by decide)
          simp only [joined_append, joined_cons, List.count_append, List.count_cons_self,
            hleading, hslash]
          omega

end

/-! ## Narratives -/

section

variable {text : List Char}

/-- A text without the slashes at its end. -/
def trimSlash (cs : List Char) : List Char := (cs.reverse.dropWhile fun c => c = '/').reverse

theorem trimSlash_append (cs ds : List Char) :
    trimSlash (cs ++ '?' :: ds) = cs ++ '?' :: trimSlash ds :=
  dropEnd_append_cons cs ds (by decide)

theorem trimSlash_slash (cs : List Char) : trimSlash (cs ++ ['/']) = trimSlash cs := by
  simp [trimSlash]

theorem trimSlash_eq_self {cs : List Char} (h : cs.getLast? ≠ some '/') : trimSlash cs = cs := by
  rw [← List.head?_reverse] at h
  rw [trimSlash]
  cases hrev : cs.reverse with
  | nil => exact (List.reverse_eq_nil_iff.mp hrev).symm
  | cons c rest =>
    rw [hrev] at h
    rw [List.dropWhile_cons_of_neg (by simpa using h), ← hrev, List.reverse_reverse]

theorem trimSlash_shorter {cs : List Char} (h : cs.getLast? = some '/') :
    (trimSlash cs).length < cs.length := by
  obtain ⟨front, rfl⟩ := List.getLast?_eq_some_iff.mp h
  rw [trimSlash_slash, trimSlash, List.length_reverse, List.length_append, List.length_singleton]
  have hle := (List.dropWhile_sublist (fun c => decide (c = '/')) (l := front.reverse)).length_le
  rw [List.length_reverse] at hle
  omega

theorem parse86_eq_some {subs : List (List Char)}
    (h : Mt940.splitSubfields text = some subs) :
    ∃ n, Mt940.parse86 (String.ofList text) = some n ∧ n.text.toList = trimSlash (joined subs) := by
  rw [Mt940.parse86, String.toList_ofList, h, Option.map_some]
  exact ⟨_, rfl, by simp [trimEndMatches, trimSlash, joined]⟩

theorem mem_of_mem_trimSlash {cs : List Char} {c : Char} (h : c ∈ trimSlash cs) : c ∈ cs := by
  rw [trimSlash, List.mem_reverse] at h
  exact List.mem_reverse.mp ((List.dropWhile_sublist _).subset h)

theorem count_trimSlash_le (cs : List Char) : (trimSlash cs).count '?' ≤ cs.count '?' := by
  rw [trimSlash, List.count_reverse]
  exact ((List.dropWhile_sublist _).count_le '?').trans List.count_reverse.le

/-- The description of a text with subfields, up to the slashes at its end. -/
theorem Coded.parse86 (h : Coded text) (hmem : '?' ∈ text) :
    ∃ n before front last, Mt940.parse86 (String.ofList text) = some n ∧
      text = before ++ '?' :: last ∧ '?' ∉ last ∧ n.text.toList = front ++ '?' :: trimSlash last ∧
      InOrder (parts text) (front ++ '?' :: last) ∧
      (front ++ '?' :: last).count '?' = text.count '?' := by
  obtain ⟨before, rest, slashed, subs, rfl, hbefore, hsubs, hslashed, hjoined⟩ :=
    h.splitSubfields hmem
  obtain ⟨n, hn, htext⟩ := parse86_eq_some hsubs
  obtain ⟨before', last, hlast, hplain⟩ := exists_last (List.mem_cons_self : '?' ∈ '?' :: rest)
  obtain ⟨front, hfront⟩ := (hslashed.char '?').last hplain hlast
  have hdescription : joined (Mt940.leading before) ++ front ++ '?' :: last =
      joined (Mt940.leading before) ++ '?' :: slashed := by
    rw [List.append_assoc, hfront]
  refine ⟨n, before ++ before', joined (Mt940.leading before) ++ front, last, hn, ?_, hplain, ?_,
    ?_, ?_⟩
  · rw [hlast, List.append_assoc]
  · have hall : joined subs = joined (Mt940.leading before) ++ front ++ '?' :: (last ++ ['/']) := by
      rw [hjoined, ← List.cons_append, hfront]
      simp
    rw [htext, hall, trimSlash_append, trimSlash_slash]
  · obtain ⟨start, segments, behind, hsplit, rfl, hrest⟩ := hslashed.inOrder
    have hparts : (before ++ '?' :: rest).splitOn '?' = before :: start :: segments := by
      rw [List.splitOn_append_cons_self, List.splitOn_eq_singleton hbefore, hsplit,
        List.singleton_append]
    rw [hdescription]
    simp only [parts, hparts, List.map_cons]
    obtain ⟨between, hbetween⟩ := joined_leading before
    rw [hbetween, List.append_assoc]
    have hbehind : InOrder (('?' :: start) :: segments.map fun segment => '?' :: segment)
        (between ++ ('?' :: start ++ behind)) := .cons between hrest
    have hall := InOrder.cons (p := (trim (String.ofList before)).toList) [] hbehind
    rw [List.nil_append] at hall
    exact hall
  · rw [hdescription, List.count_append, List.count_cons_self, count_joined_leading hbefore,
      hslashed.count, List.count_append, List.count_eq_zero.mpr hbefore, List.count_cons_self]

theorem parse86_plain (h : '?' ∉ text) :
    ∃ n, Mt940.parse86 (String.ofList text) = some n ∧ n.text = "" := by
  obtain ⟨n, hn, htext⟩ := parse86_eq_some (Mt940.splitSubfields_plain h)
  exact ⟨n, hn, String.toList_inj.mp htext⟩

theorem parts_plain (h : '?' ∉ text) : parts text = [(trim (String.ofList text)).toList] := by
  rw [parts, List.splitOn_eq_singleton h]
  rfl

theorem not_inOrder_of_slash {before front last : List Char} (hplain : '?' ∉ last)
    (hcount : (front ++ '?' :: last).count '?' = (before ++ '?' :: last).count '?')
    (hslash : last.getLast? = some '/') :
    ¬ InOrder (parts (before ++ '?' :: last)) (front ++ '?' :: trimSlash last) := by
  intro horder
  have hparts := count_parts (before ++ '?' :: last)
  obtain ⟨ps, hlast⟩ := parts_last hplain
  rw [hlast] at horder hparts
  obtain ⟨b, after, htext, hle⟩ := horder.last
  have hcut : '?' ∉ trimSlash last := fun h => hplain (mem_of_mem_trimSlash h)
  have hall := congrArg (List.count '?') htext
  simp only [List.count_append, List.count_cons_self, List.map_append, List.sum_append,
    List.map_cons, List.map_nil, List.sum_cons, List.sum_nil, List.cons_append,
    List.count_eq_zero.mpr hplain, List.count_eq_zero.mpr hcut] at hall hparts hcount
  have hafter : '?' ∉ last ++ after := by
    rw [List.mem_append, not_or]
    exact ⟨hplain, List.count_eq_zero.mp (by omega)⟩
  have hunique := congrArg List.length (last_unique hcut hafter htext)
  have hshorter := trimSlash_shorter hslash
  rw [List.length_append] at hunique
  omega

theorem not_inOrder_of_not_coded (h : ¬ Coded text) {n : Mt940.Narrative}
    (hn : Mt940.parse86 (String.ofList text) = some n) : ¬ InOrder (parts text) n.text.toList := by
  intro horder
  have hle := horder.count_le
  rw [count_parts] at hle
  rw [Mt940.parse86, String.toList_ofList] at hn
  obtain ⟨subs, hsubs, -⟩ := Option.map_eq_some_iff.mp hn
  obtain ⟨n', hn', htext⟩ := parse86_eq_some hsubs
  rw [Mt940.parse86, String.toList_ofList] at hn'
  obtain rfl : n = n' := Option.some.inj (hn.symm.trans hn')
  rw [htext] at hle
  have hlt := count_splitSubfields h hsubs
  have hcut := count_trimSlash_le (joined subs)
  omega

/-- The description of a narrative has its parts exactly when the narrative comes through. -/
theorem parse86_keeps (hsolid : ∀ c ∈ text.getLast?, isWhitespace c = false) :
    (∃ n, Mt940.parse86 (String.ofList text) = some n ∧ InOrder (parts text) n.text.toList) ↔
      Kept text := by
  by_cases hmem : '?' ∈ text
  · by_cases hcoded : Coded text
    · obtain ⟨n, before, front, last, hn, rfl, hplain, htext, horder, hcount⟩ := hcoded.parse86 hmem
      have hlast : (before ++ '?' :: last).getLast? = some '/' ↔ last.getLast? = some '/' := by
        rcases List.eq_nil_or_concat' last with rfl | ⟨front, c, rfl⟩
        · simp
        · have hconcat : before ++ '?' :: (front ++ [c]) = (before ++ '?' :: front) ++ [c] := by
            simp
          rw [hconcat, List.getLast?_concat, List.getLast?_concat]
      constructor
      · rintro ⟨n', hn', horder'⟩
        obtain rfl : n = n' := Option.some.inj (hn.symm.trans hn')
        refine Or.inr ⟨hmem, hcoded, fun hslash => ?_⟩
        rw [htext] at horder'
        exact not_inOrder_of_slash hplain hcount (hlast.mp hslash) horder'
      · rintro (hnil | ⟨-, -, hslash⟩)
        · rw [hnil] at hmem
          cases hmem
        · refine ⟨n, hn, ?_⟩
          rw [htext, trimSlash_eq_self fun h => hslash (hlast.mpr h)]
          exact horder
    · constructor
      · rintro ⟨n, hn, horder⟩
        exact absurd horder (not_inOrder_of_not_coded hcoded hn)
      · rintro (rfl | ⟨-, h, -⟩)
        · cases hmem
        · exact absurd h hcoded
  · obtain ⟨n, hn, htext⟩ := parse86_plain hmem
    rw [parts_plain hmem]
    constructor
    · rintro ⟨n', hn', horder⟩
      obtain rfl : n = n' := Option.some.inj (hn.symm.trans hn')
      rw [htext] at horder
      refine Or.inl ?_
      by_contra hne
      obtain ⟨front, c, rfl⟩ := (List.eq_nil_or_concat' text).resolve_left hne
      have hc : isWhitespace c = false := hsolid c (by simp)
      have hmem' : c ∈ (String.ofList (front ++ [c])).toList := by simp
      refine trim_ne_empty hmem' hc ?_
      exact String.toList_inj.mp horder.eq_nil
    · rintro (rfl | ⟨h, -⟩)
      · exact ⟨n, hn, .cons [] (.nil n.text.toList)⟩
      · exact absurd h hmem

end

/-! ## Lines of a bill -/

section

open Mt940

variable {m : Movement} {t : Txn} {s : State}

theorem Reads61.pushTxn (h : Reads61 m t) (hplain : m.Plain) :
    ∃ row, pushTxn t = some row ∧ row.description = t.narrative.getD "" ∧
      (m.mark.isCredit = true → row.credit.toList = m.amount ∧ row.debit = "") ∧
      (m.mark.isCredit = false → row.debit.toList = m.amount ∧ row.credit = "") := by
  obtain ⟨hamount, hdirection⟩ := h.plain hplain
  have hsolid : ∀ c ∈ m.amount, isWhitespace c = false ∧ c ≠ '-' := by
    intro c hc
    have hdigit : c.isDigit = true ∨ c = '.' := by
      rcases List.mem_append.mp hc with hc | hc
      · exact Or.inl (m.whole_digits c hc)
      · exact (List.mem_cons.mp hc).symm.imp_left (m.fraction_digits c)
    rcases hdigit with hdigit | rfl
    · refine ⟨isWhitespace_of_isDigit hdigit, ?_⟩
      rintro rfl
      cases hdigit
    · exact ⟨rfl, by decide⟩
  have hfilled : m.amount ≠ [] := by simp [Movement.amount]
  obtain ⟨row, hrow, hdescription, hside⟩ := pushTxn_of_amount hamount hfilled hsolid
  refine ⟨row, hrow, hdescription, ?_⟩
  rcases hplain.1 with hmark | hmark
  · have hcredit : ¬ t.direction = some 'D' := by simp [hdirection, hmark]
    rw [if_neg hcredit] at hside
    exact ⟨fun _ => hside, fun h => by simp [hmark, Mark.isCredit] at h⟩
  · rw [if_pos (hdirection.mpr hmark)] at hside
    exact ⟨fun h => by simp [hmark, Mark.isCredit] at h, fun _ => hside⟩

/-- The row of a movement is its row exactly when the mark is plain and the narrative is kept. -/
theorem Reads61.pending (h : Reads61 m t) (hcurrent : s.current = t)
    (hkept : (∀ text ∈ m.narrative, InOrder (parts (trimmed text)) (t.narrative.getD "").toList) ↔
      ∀ text ∈ m.narrative, Kept (trimmed text)) :
    s.pending.length ≤ 1 ∧ (List.Forall₂ RowOf [m] s.pending ↔ m.Readable) := by
  rw [State.pending, hcurrent, if_neg h.valueDate]
  by_cases hplain : m.Plain
  · obtain ⟨row, hrow, hdescription, hcredit, hdebit⟩ := h.pushTxn hplain
    rw [hrow, Option.toList_some]
    refine ⟨by simp, ?_⟩
    rw [List.forall₂_cons, and_iff_left List.Forall₂.nil]
    constructor
    · intro hrowOf
      refine ⟨hplain, hkept.mp fun text htext => ?_⟩
      rw [← hdescription]
      exact hrowOf.description text htext
    · intro hreadable
      refine ⟨hcredit, hdebit, fun text htext => ?_⟩
      rw [hdescription]
      exact hkept.mpr hreadable.kept text htext
  · have hnone : Mt940.pushTxn t = none := by rw [Mt940.pushTxn, h.other hplain]
    rw [hnone, Option.toList_none]
    refine ⟨by simp, ?_⟩
    constructor
    · intro hrow
      cases hrow
    · intro hreadable
      exact absurd hreadable.plain hplain

theorem trimmed_eq (cs : List Char) : trimmed cs = (cs.reverse.dropWhile isWhitespace).reverse := by
  simp [trimmed, trimEnd]

theorem trimmed_append_cons (cs ds : List Char) {c : Char} (h : isWhitespace c = false) :
    trimmed (cs ++ c :: ds) = cs ++ c :: trimmed ds := by
  simp only [trimmed_eq]
  exact dropEnd_append_cons cs ds h

theorem trimmed_append (cs : List Char) : ∃ blank, cs = trimmed cs ++ blank := by
  refine ⟨(cs.reverse.takeWhile isWhitespace).reverse, ?_⟩
  have hall := congrArg List.reverse
    (List.takeWhile_append_dropWhile (p := isWhitespace) (l := cs.reverse))
  rw [List.reverse_append, List.reverse_reverse] at hall
  rw [trimmed_eq, hall]

theorem trimmed_solid (cs : List Char) : ∀ c ∈ (trimmed cs).getLast?, isWhitespace c = false := by
  intro c hc
  rw [trimmed_eq, List.getLast?_reverse] at hc
  have hhead := List.head?_dropWhile_not isWhitespace cs.reverse
  rw [Option.mem_def.mp hc] at hhead
  simpa using hhead

theorem trim_colon (text : List Char) :
    trim (String.ofList (':' :: text)) = String.ofList (':' :: trimmed text) := by
  apply String.toList_inj.mp
  have hstart : (':' :: text).dropWhile isWhitespace = ':' :: text :=
    List.dropWhile_cons_of_neg (by decide)
  rw [trim, String.toList_ofList, String.toList_ofList, String.toList_ofList, hstart,
    ← trimmed_eq]
  exact trimmed_append_cons [] text (by decide)

theorem step_line61 (m : Movement) (s : State) : ∃ t, Reads61 m t ∧ t.narrative = none ∧
    step s (String.ofList m.line61) = some { s with out := s.out ++ s.pending, current := t } := by
  obtain ⟨rest, htrim⟩ := m.trim_line61
  refine ⟨_, m.parse61 rest, parse61_narrative _, ?_⟩
  simp only [step, htrim]
  simp [startsWith, behind]

theorem step_line86 (text : List Char) (s : State) :
    step s (String.ofList ([':', '8', '6', ':'] ++ text)) =
      (parse86 (String.ofList (trimmed text))).map fun n =>
        { s with current := { s.current with narrative := some n.text, payee := n.payee } } := by
  have htrim : trim (String.ofList ([':', '8', '6', ':'] ++ text)) =
      String.ofList ([':', '8', '6', ':'] ++ trimmed text) := by
    have htag := trimmed_append_cons ['8', '6'] text (show isWhitespace ':' = false by decide)
    have htrim := trim_colon (['8', '6'] ++ ':' :: text)
    rw [htag] at htrim
    exact htrim
  simp only [step, htrim]
  simp [startsWith, behind]

theorem step_other (o : OtherLine) (s : State) :
    ∃ s', step s (String.ofList o.text) = some s' ∧ s'.out = s.out ∧ s'.current = s.current := by
  obtain ⟨rest, htext⟩ : ∃ rest, o.text = ':' :: rest := by
    have htagged := o.tagged
    cases hcs : o.text with
    | nil => simp [hcs] at htagged
    | cons c rest =>
      rw [hcs] at htagged
      exact ⟨rest, by rw [Option.some.inj htagged]⟩
  have hnot : ∀ tag : List Char, ¬ tag <+: o.text → ¬ tag <+: ':' :: trimmed rest := by
    intro tag htag hfront
    refine htag (hfront.trans ?_)
    obtain ⟨blank, hblank⟩ := trimmed_append rest
    exact ⟨blank, by rw [htext, List.cons_append, ← hblank]⟩
  have h61 := hnot _ o.not61
  have h86 := hnot _ o.not86
  have hread : ∀ {tag : String}, startsWith tag (String.ofList (':' :: trimmed rest)) = true →
      tag.toList <+: ':' :: trimmed rest := by
    intro tag h
    rw [startsWith, String.toList_ofList] at h
    exact List.isPrefixOf_iff_prefix.mp h
  rw [htext]
  simp only [step, trim_colon]
  split_ifs with h60 h62 h61' h86' hcontinued
  · exact ⟨_, rfl, rfl, rfl⟩
  · exact ⟨_, rfl, rfl, rfl⟩
  · exact absurd (hread h61') h61
  · exact absurd (hread h86') h86
  · exact absurd (by simp [startsWith]) hcontinued.2.1
  · exact ⟨s, rfl, rfl, rfl⟩

/-- The lines of a movement: the row of the one in front of it is pushed, and its own is left. -/
theorem run_lines (m : Movement) (s : State) :
    (m.lines.map String.ofList).foldlM step s = none ∧ ¬ m.Readable ∨
      ∃ s', (m.lines.map String.ofList).foldlM step s = some s' ∧ s'.out = s.out ++ s.pending ∧
        s'.pending.length ≤ 1 ∧ (List.Forall₂ RowOf [m] s'.pending ↔ m.Readable) := by
  obtain ⟨t, ht, hnarrative, hstep⟩ := step_line61 m s
  cases htext : m.narrative with
  | none =>
    refine Or.inr ⟨{ s with out := s.out ++ s.pending, current := t }, ?_, rfl, ?_⟩
    · simp [Movement.lines, htext, hstep]
    · exact ht.pending rfl (by simp [htext])
  | some text =>
    have hkeeps := parse86_keeps (trimmed_solid text)
    have hrun : (m.lines.map String.ofList).foldlM step s =
        step { s with out := s.out ++ s.pending, current := t }
          (String.ofList ([':', '8', '6', ':'] ++ text)) := by
      simp [Movement.lines, htext, hstep]
    rw [hrun, step_line86]
    cases hparse : Mt940.parse86 (String.ofList (trimmed text)) with
    | none =>
      refine Or.inl ⟨rfl, fun hreadable => ?_⟩
      obtain ⟨n, hn, -⟩ := hkeeps.mpr (hreadable.kept text htext)
      rw [hparse] at hn
      cases hn
    | some n =>
      refine Or.inr ⟨_, rfl, rfl, ?_⟩
      have hreads : Reads61 m { t with narrative := some n.text, payee := n.payee } :=
        ⟨ht.valueDate, ht.plain, ht.other⟩
      refine hreads.pending rfl ?_
      simp only [htext, Option.mem_some_iff, forall_eq', Option.getD_some]
      rw [← hkeeps, hparse]
      simp

theorem forall₂_cons_append {m : Movement} {ms : List Movement} {front rows : List ParsedRow}
    (hfront : front.length ≤ 1) (hrows : rows.length ≤ ms.length) :
    List.Forall₂ RowOf (m :: ms) (front ++ rows) ↔
      List.Forall₂ RowOf [m] front ∧ List.Forall₂ RowOf ms rows := by
  cases front with
  | nil =>
    constructor
    · intro h
      have hlength := h.length_eq
      rw [List.nil_append, List.length_cons] at hlength
      omega
    · rintro ⟨h, -⟩
      cases h
  | cons row front =>
    obtain rfl : front = [] := by
      rw [List.length_cons] at hfront
      exact List.length_eq_zero_iff.mp (by omega)
    simp

/-- The loop over the movements: a row for each of them only if all can be read. -/
theorem run_movements (ms : List Movement) (s : State) :
    ((ms.flatMap Movement.lines).map String.ofList).foldlM step s = none ∧
        (¬ ∀ m ∈ ms, m.Readable) ∨
      ∃ s' rows, ((ms.flatMap Movement.lines).map String.ofList).foldlM step s = some s' ∧
        s'.out ++ s'.pending = s.out ++ s.pending ++ rows ∧ rows.length ≤ ms.length ∧
        (List.Forall₂ RowOf ms rows ↔ ∀ m ∈ ms, m.Readable) := by
  induction ms generalizing s with
  | nil => exact Or.inr ⟨s, [], rfl, by simp, le_refl 0, by simp⟩
  | cons m ms ih =>
    simp only [List.flatMap_cons, List.map_append, List.foldlM_append, List.forall_mem_cons]
    rcases run_lines m s with ⟨hnone, hreadable⟩ | ⟨s', hs', hout, hlength, hrows⟩
    · exact Or.inl ⟨by rw [hnone]; rfl, fun h => hreadable h.1⟩
    · rw [hs', Option.bind_eq_bind, Option.bind_some]
      rcases ih s' with ⟨hnone, hreadable⟩ | ⟨s'', rows, hs'', hout', hlength', hrows'⟩
      · exact Or.inl ⟨hnone, fun h => hreadable h.2⟩
      · refine Or.inr ⟨s'', s'.pending ++ rows, hs'', ?_, ?_, ?_⟩
        · rw [hout', hout, List.append_assoc]
        · rw [List.length_append, List.length_cons]
          omega
        · rw [forall₂_cons_append hlength hlength', hrows, hrows']

end

/-! ## Bills -/

section

open Mt940

theorem run_others (os : List OtherLine) (s : State) :
    ∃ s', ((os.map OtherLine.text).map String.ofList).foldlM step s = some s' ∧ s'.out = s.out ∧
      s'.current = s.current := by
  induction os generalizing s with
  | nil => exact ⟨s, rfl, rfl, rfl⟩
  | cons o os ih =>
    obtain ⟨s', hstep, hout, hcurrent⟩ := step_other o s
    obtain ⟨s'', hrun, hout', hcurrent'⟩ := ih s'
    refine ⟨s'', ?_, hout'.trans hout, hcurrent'.trans hcurrent⟩
    rw [List.map_cons, List.map_cons, List.foldlM_cons, hstep, Option.bind_eq_bind,
      Option.bind_some, hrun]

theorem State.pending_congr {s s' : State} (h : s'.current = s.current) :
    s'.pending = s.pending := by
  rw [State.pending, State.pending, h]

theorem OneLine.isLine {cs : List Char} (h : OneLine cs) : IsLine (String.ofList cs) := by
  constructor
  · intro hc
    exact (h '\n' (by simpa using hc)).1 rfl
  · intro hlast
    rw [String.toList_ofList] at hlast
    exact (h '\r' (List.mem_of_getLast? hlast)).2 rfl

theorem Digits.oneLine {cs : List Char} (h : Digits cs) : OneLine cs := by
  intro c hc
  constructor
  · rintro rfl
    exact absurd (h _ hc) (by decide)
  · rintro rfl
    exact absurd (h _ hc) (by decide)

theorem OneLine.append {cs ds : List Char} (h : OneLine cs) (h' : OneLine ds) :
    OneLine (cs ++ ds) :=
  List.forall_mem_append.mpr ⟨h, h'⟩

theorem Movement.tail_oneLine (m : Movement) : OneLine m.tail := by
  have hmark : OneLine m.mark.text := by cases m.mark <;> decide
  have hfunds : OneLine m.funds.toList := by
    intro c hc
    have hupper := m.funds_upper c (Option.mem_toList.mp hc)
    constructor
    · rintro rfl
      cases hupper
    · rintro rfl
      cases hupper
  have hcomma : OneLine [','] := by decide
  have hend : OneLine ['N'] := by decide
  exact hmark.append (hfunds.append (m.whole_digits.oneLine.append
    (hcomma.append (m.fraction_digits.oneLine.append hend))))

theorem Movement.line61_oneLine (m : Movement) : OneLine m.line61 := by
  have htag : OneLine [':', '6', '1', ':'] := by decide
  have hentry : OneLine (m.entryDate.getD []) := by
    cases hdate : m.entryDate with
    | none => intro c hc; cases hc
    | some cs => exact (m.entryDate_digits cs hdate).2.oneLine
  exact htag.append (m.date_digits.oneLine.append (hentry.append
    (m.tail_oneLine.append m.reference_line)))

theorem billLines_oneLine (header : List OtherLine) (movements : List Movement)
    (footer : List OtherLine) : ∀ l ∈ billLines header movements footer, OneLine l := by
  intro l hl
  rcases List.mem_append.mp hl with hl | hl
  · obtain ⟨o, -, rfl⟩ := List.mem_map.mp hl
    exact o.line
  · rcases List.mem_append.mp hl with hl | hl
    · obtain ⟨m, -, hm⟩ := List.mem_flatMap.mp hl
      rcases List.mem_cons.mp hm with rfl | hm
      · exact m.line61_oneLine
      · obtain ⟨text, htext, rfl⟩ := Option.map_eq_some_iff.mp (Option.mem_toList.mp hm)
        have htag : OneLine [':', '8', '6', ':'] := by decide
        exact htag.append (m.narrative_line text htext)
    · obtain ⟨o, -, rfl⟩ := List.mem_map.mp hl
      exact o.line

/-- A bill is parsed to one row for each movement, with its amount and its narrative, exactly when
each movement is readable. -/
theorem parse_bill (header : List OtherLine) (movements : List Movement) (footer : List OtherLine) :
    ParsesTo header movements footer ↔ ∀ m ∈ movements, m.Readable := by
  have hlines : lines (bill header movements footer) =
      (billLines header movements footer).map String.ofList := by
    refine lines_unlines fun l hl => ?_
    obtain ⟨cs, hcs, rfl⟩ := List.mem_map.mp hl
    exact (billLines_oneLine header movements footer cs hcs).isLine
  obtain ⟨s₀, hheader, hout₀, hcurrent₀⟩ := run_others header {}
  have hrun : (lines (bill header movements footer)).foldlM step {} =
      (((movements.flatMap Movement.lines).map String.ofList).foldlM step s₀).bind fun s =>
        ((footer.map OtherLine.text).map String.ofList).foldlM step s := by
    rw [hlines, billLines, List.map_append, List.map_append, List.foldlM_append, hheader,
      Option.bind_eq_bind, Option.bind_some, List.foldlM_append, Option.bind_eq_bind]
  rw [ParsesTo, Mt940.parse, hrun]
  rcases run_movements movements s₀ with ⟨hnone, hreadable⟩ | ⟨s₁, rows, hs₁, hrows, -, hiff⟩
  · rw [hnone]
    simp [hreadable]
  · obtain ⟨s₂, hfooter, hout₂, hcurrent₂⟩ := run_others footer s₁
    rw [hs₁, Option.bind_some, hfooter, Option.map_some]
    have hnil : s₀.out ++ s₀.pending = [] := by
      rw [State.pending_congr hcurrent₀, hout₀]
      rfl
    have hall : s₂.out ++ s₂.pending = rows := by
      rw [hout₂, State.pending_congr hcurrent₂, hrows, hnil, List.nil_append]
    rw [hall]
    simpa using hiff

/-- A reversed credit of 100,00. -/
def reversal : Movement where
  date := ['2', '6', '0', '8', '1', '4']
  entryDate := none
  mark := .reversedCredit
  funds := none
  whole := ['1', '0', '0']
  fraction := ['0', '0']
  reference := ['N', 'O', 'N', 'R', 'E', 'F']
  narrative := none

/-- The bill of a reversed credit has no row. -/
theorem parse_reversal : ¬ ParsesTo [] [reversal] [] := by
  rintro ⟨mt, hmt, hrows⟩
  have hparse : Mt940.parse (bill [] [reversal] []) =
      some { rows := [], openingBalance := none, closingBalance := none } := by
    decide +kernel
  rw [hparse] at hmt
  cases hmt
  cases hrows

end

end OpenAccounting.Mt940Movements
