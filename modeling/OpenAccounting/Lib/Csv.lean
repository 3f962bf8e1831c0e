import Mathlib.Data.List.Basic

/-!
# Comma-separated values

What a program relies on in a CSV library.  `Csv.Writer` is a writer for records of one length: it
remembers the length of the first record, and a later record of another length is an error after
its fields have been written and before its end has.  How a field is quoted and how records are
read is a `Csv.Format`, and `Csv.Format.Lawful` says that reading undoes writing.  `Csv.rfc4180`
is one such format.  `Csv.fields` reads a text as one record, with any separator.
-/

namespace Csv

/-- How a library writes a field and reads records.  The reader passes over comments and the
header, and fails record by record. -/
structure Format where
  quote : String → String
  read : String → List (Except String (List String))

/-! ## Writing -/

section

variable (quote : String → String)

/-- Fields that follow another one. -/
def more : List String → String
  | [] => ""
  | f :: fs => "," ++ quote f ++ more fs

/-- The fields of a record. -/
def row : List String → String
  | [] => ""
  | f :: fs => quote f ++ more quote fs

/-- The text so far, the number of fields of the first record, and how many fields have been
written since a record has ended. -/
structure Writer where
  text : String := ""
  expected : Option ℕ := none
  written : ℕ := 0
deriving DecidableEq

namespace Writer

def writeField (w : Writer) (field : String) : Writer :=
  { w with
    text := w.text ++ (if 0 < w.written then "," else "") ++ quote field
    written := w.written + 1 }

def writeTerminator (w : Writer) : Except String Unit × Writer :=
  match w.expected with
  | none => (.ok (), { text := w.text ++ "\n", expected := some w.written, written := 0 })
  | some n =>
    if n = w.written then (.ok (), { w with text := w.text ++ "\n", written := 0 })
    else (.error "found record with a different number of fields", w)

def writeRecord (w : Writer) (fields : List String) : Except String Unit × Writer :=
  writeTerminator (fields.foldl (writeField quote) w)

/-- Records whose errors are not looked at. -/
def writeAll (w : Writer) (records : List (List String)) : Writer :=
  records.foldl (fun w r => (writeRecord quote w r).2) w

end Writer

end

namespace Writer

variable {quote : String → String}

theorem writeFields_more {w : Writer} (h : 0 < w.written) (fields : List String) :
    fields.foldl (writeField quote) w =
      { w with text := w.text ++ more quote fields, written := w.written + fields.length } := by
  induction fields generalizing w with
  | nil => simp [more]
  | cons f fields ih =>
    rw [List.foldl_cons, ih (Nat.succ_pos _)]
    simp [writeField, more, h, String.append_assoc]
    omega

theorem writeFields_row {w : Writer} (h : w.written = 0) {fields : List String} (hne : fields ≠ []) :
    fields.foldl (writeField quote) w =
      { w with text := w.text ++ row quote fields, written := fields.length } := by
  obtain ⟨f, fields, rfl⟩ := List.exists_cons_of_ne_nil hne
  rw [List.foldl_cons, writeFields_more (Nat.succ_pos _)]
  simp [writeField, row, h, String.append_assoc, Nat.add_comm]

theorem more_append (a b : List String) : more quote (a ++ b) = more quote a ++ more quote b := by
  induction a with
  | nil => simp [more]
  | cons f a ih => simp [more, ih, String.append_assoc]

/-- Records that are too long never end, so all their fields run together. -/
theorem writeAll_more {w : Writer} {n : ℕ} (hn : w.expected = some n) (hw : n < w.written)
    (records : List (List String)) :
    (writeAll quote w records).text = w.text ++ more quote records.flatten := by
  induction records generalizing w with
  | nil => simp [writeAll, more]
  | cons r records ih =>
    have hrecord : (writeRecord quote w r).2 =
        { w with text := w.text ++ more quote r, written := w.written + r.length } := by
      rw [writeRecord, writeFields_more (by omega)]
      simp only [writeTerminator, hn]
      rw [if_neg (by omega)]
    rw [writeAll, List.foldl_cons, hrecord]
    have htail := ih (w := { w with text := w.text ++ more quote r
                                    written := w.written + r.length }) hn (by simp; omega)
    rw [List.flatten_cons, more_append, ← String.append_assoc]
    exact htail

theorem writeAll_long {header : List String} (hheader : header ≠ []) {records : List (List String)}
    (h : ∀ r ∈ records, header.length < r.length) :
    (writeAll quote {} (header :: records)).text =
      row quote header ++ "\n" ++ row quote records.flatten := by
  have hfirst : (writeRecord quote {} header).2 =
      { text := row quote header ++ "\n", expected := some header.length, written := 0 } := by
    rw [writeRecord, writeFields_row rfl hheader]
    simp [writeTerminator]
  rw [writeAll, List.foldl_cons, hfirst]
  cases records with
  | nil => simp [row]
  | cons r records =>
    have hr := h r List.mem_cons_self
    have hne : r ≠ [] := List.ne_nil_of_length_pos (by omega)
    have hrecord : (writeRecord quote
        { text := row quote header ++ "\n", expected := some header.length, written := 0 } r).2 =
          { text := row quote header ++ "\n" ++ row quote r
            expected := some header.length
            written := r.length } := by
      rw [writeRecord, writeFields_row rfl hne]
      simp only [writeTerminator]
      rw [if_neg (by omega)]
    rw [List.foldl_cons, hrecord]
    refine (writeAll_more rfl hr records).trans ?_
    obtain ⟨f, fs, rfl⟩ := List.exists_cons_of_ne_nil hne
    simp [row, more_append, String.append_assoc]

end Writer

/-! ## Reading -/

def commentLines : List String → String
  | [] => ""
  | c :: comments => "#" ++ c ++ "\n" ++ commentLines comments

/-- Records with an end between them. -/
def rows (quote : String → String) : List (List String) → String
  | [] => ""
  | [r] => row quote r
  | r :: records => row quote r ++ "\n" ++ rows quote records

/-- Several fields, of which the first does not start a comment. -/
def IsRecord (fields : List String) : Prop :=
  2 ≤ fields.length ∧ ∀ f ∈ fields.head?, f.toList.head? ≠ some '#'

/-- What has been written is read back.  The header is one of plain words. -/
structure Format.Lawful (f : Format) : Prop where
  read_rows : ∀ (comments header : List String) (records : List (List String)),
    (∀ c ∈ comments, '\n' ∉ c.toList ∧ '\r' ∉ c.toList) → 2 ≤ header.length →
    (∀ h ∈ header, h.toList.all Char.isAlphanum = true) → (∀ r ∈ records, IsRecord r) →
    f.read (commentLines comments ++ row f.quote header ++ "\n" ++ rows f.quote records) =
      records.map .ok

/-! ## Quotes around fields -/

/-- A character that asks for quotes. -/
def special (c : Char) : Bool := c == ',' || c == '"' || c == '\n' || c == '\r'

/-- Every quote twice. -/
def doubled (cs : List Char) : List Char :=
  cs.flatMap fun c => if c = '"' then ['"', '"'] else [c]

def quoteField (field : String) : String :=
  if field.toList.any special then String.ofList ('"' :: (doubled field.toList ++ ['"'])) else field

/-- Where the reader is: before a record, in a comment, before a later field, in a field without
quotes, in one with quotes, and after a quote in such a field. -/
inductive Mode where
  | record | comment | field | plain | quoted | closed

/-- The records in the rest of a text, with the characters of the field and the fields of the
record so far, both in reverse. -/
@[grind =] def scan : Mode → List Char → List String → List Char → List (List String)
  | .record, _, _, [] => []
  | .comment, _, _, [] => []
  | .field, _, fs, [] => [("" :: fs).reverse]
  | _, f, fs, [] => [(String.ofList f.reverse :: fs).reverse]
  | .record, _, _, c :: cs =>
    if c = '\n' ∨ c = '\r' then scan .record [] [] cs
    else if c = '#' then scan .comment [] [] cs
    else if c = '"' then scan .quoted [] [] cs
    else if c = ',' then scan .field [] [""] cs
    else scan .plain [c] [] cs
  | .comment, _, _, c :: cs => if c = '\n' then scan .record [] [] cs else scan .comment [] [] cs
  | .field, _, fs, c :: cs =>
    if c = '\n' ∨ c = '\r' then ("" :: fs).reverse :: scan .record [] [] cs
    else if c = '"' then scan .quoted [] fs cs
    else if c = ',' then scan .field [] ("" :: fs) cs
    else scan .plain [c] fs cs
  | .plain, f, fs, c :: cs =>
    if c = '\n' ∨ c = '\r' then (String.ofList f.reverse :: fs).reverse :: scan .record [] [] cs
    else if c = ',' then scan .field [] (String.ofList f.reverse :: fs) cs
    else scan .plain (c :: f) fs cs
  | .quoted, f, fs, c :: cs =>
    if c = '"' then scan .closed f fs cs else scan .quoted (c :: f) fs cs
  | .closed, f, fs, c :: cs =>
    if c = '\n' ∨ c = '\r' then (String.ofList f.reverse :: fs).reverse :: scan .record [] [] cs
    else if c = ',' then scan .field [] (String.ofList f.reverse :: fs) cs
    else if c = '"' then scan .quoted ('"' :: f) fs cs
    else scan .plain (c :: f) fs cs

/-- Quotes around the fields that need them. -/
def rfc4180 : Format where
  quote := quoteField
  read text := ((scan .record [] [] text.toList).drop 1).map .ok

/-- What follows a field. -/
def next (fs : List String) : List Char → List (List String)
  | ',' :: cs => scan .field [] fs cs
  | '\n' :: cs => fs.reverse :: scan .record [] [] cs
  | _ => [fs.reverse]

/-- The text ends, or a comma or the end of a line follows. -/
inductive Boundary : List Char → Prop where
  | nil : Boundary []
  | comma (cs : List Char) : Boundary (',' :: cs)
  | line (cs : List Char) : Boundary ('\n' :: cs)

section

variable {fs : List String} {acc cs rest : List Char}

theorem scan_closed (h : Boundary rest) :
    scan .closed acc fs rest = next (String.ofList acc.reverse :: fs) rest := by
  cases h with
  | nil => simp [scan, next]
  | comma cs => simp [scan, next]
  | line cs => simp [scan, next]

theorem scan_quoted (h : Boundary rest) :
    scan .quoted acc fs (doubled cs ++ '"' :: rest) =
      next (String.ofList (acc.reverse ++ cs) :: fs) rest := by
  induction cs generalizing acc with
  | nil => simpa [doubled, scan] using scan_closed h
  | cons c cs ih =>
    have hstep : scan .quoted acc fs (doubled (c :: cs) ++ '"' :: rest) =
        scan .quoted (c :: acc) fs (doubled cs ++ '"' :: rest) := by
      by_cases hc : c = '"'
      · subst hc
        simp [doubled, scan]
      · simp [doubled, scan, hc]
    rw [hstep, ih]
    simp

theorem scan_plain (h : Boundary rest) (hcs : ∀ c ∈ cs, special c = false) :
    scan .plain acc fs (cs ++ rest) = next (String.ofList (acc.reverse ++ cs) :: fs) rest := by
  induction cs generalizing acc with
  | nil =>
    cases h with
    | nil => simp [scan, next]
    | comma cs => simp [scan, next]
    | line cs => simp [scan, next]
  | cons c cs ih =>
    have hc := hcs c List.mem_cons_self
    simp only [special, Bool.or_eq_false_iff, beq_eq_false_iff_ne] at hc
    rw [List.cons_append, scan, if_neg (by tauto), if_neg hc.1.1.1,
      ih fun d hd => hcs d (List.mem_cons_of_mem c hd)]
    simp

theorem scan_field (h : Boundary rest) (f : String) :
    scan .field [] fs ((quoteField f).toList ++ rest) = next (f :: fs) rest := by
  rw [quoteField]
  split
  · rw [String.toList_ofList, List.cons_append, List.append_assoc, scan]
    have hread : scan .quoted [] fs (doubled f.toList ++ '"' :: rest) = _ := scan_quoted h
    simpa using hread
  · next hplain =>
      have hcs : ∀ c ∈ f.toList, special c = false := by simpa using hplain
      cases hlist : f.toList with
      | nil =>
        have hf : f = "" := String.toList_inj.mp hlist
        subst hf
        cases h with
        | nil => simp [scan, next]
        | comma cs => simp [scan, next]
        | line cs => simp [scan, next]
      | cons c cs =>
        rw [hlist] at hcs
        have hc := hcs c List.mem_cons_self
        simp only [special, Bool.or_eq_false_iff, beq_eq_false_iff_ne] at hc
        rw [List.cons_append, scan, if_neg (by tauto), if_neg (by tauto), if_neg hc.1.1.1,
          scan_plain h fun d hd => hcs d (List.mem_cons_of_mem c hd)]
        simp [← hlist]

theorem toList_more_cons (f : String) (fields : List String) :
    (more quoteField (f :: fields)).toList =
      ',' :: ((quoteField f).toList ++ (more quoteField fields).toList) := by
  simp [more]

theorem next_more (h : rest = [] ∨ ∃ cs, rest = '\n' :: cs) (fields : List String) :
    next fs ((more quoteField fields).toList ++ rest) = next (fields.reverse ++ fs) rest := by
  induction fields generalizing fs with
  | nil => simp [more]
  | cons f fields ih =>
    have hboundary : Boundary ((more quoteField fields).toList ++ rest) := by
      cases fields with
      | nil =>
        rcases h with rfl | ⟨cs, rfl⟩
        · exact .nil
        · exact .line cs
      | cons g fields =>
        rw [toList_more_cons]
        exact .comma _
    rw [toList_more_cons, List.cons_append, List.append_assoc, next, scan_field hboundary, ih]
    simp

/-- At a character that starts neither a comment nor a line the reader is before a field. -/
theorem scan_record_eq_field {c : Char} (hline : c ≠ '\n' ∧ c ≠ '\r') (hcomment : c ≠ '#') :
    scan .record [] [] (c :: cs) = scan .field [] [] (c :: cs) := by
  rw [scan, scan]
  simp [hline, hcomment]

theorem quoteField_head {f : String} (h : f.toList.head? ≠ some '#') (tail : List Char) :
    ∃ c cs, (quoteField f).toList ++ ',' :: tail = c :: cs ∧ (c ≠ '\n' ∧ c ≠ '\r') ∧ c ≠ '#' := by
  rw [quoteField]
  split
  · rw [String.toList_ofList]
    exact ⟨'"', _, rfl, by decide, by decide⟩
  · next hplain =>
      cases hlist : f.toList with
      | nil => exact ⟨',', tail, rfl, by decide, by decide⟩
      | cons c cs =>
        have hc : special c = false := by
          have hall : ∀ c ∈ f.toList, special c = false := by simpa using hplain
          exact hall c (hlist ▸ List.mem_cons_self)
        simp only [special, Bool.or_eq_false_iff, beq_eq_false_iff_ne] at hc
        exact ⟨c, _, rfl, ⟨hc.1.2, hc.2⟩, by simpa [hlist] using h⟩

theorem scan_row {fields : List String} (hfields : IsRecord fields)
    (h : rest = [] ∨ ∃ cs, rest = '\n' :: cs) :
    scan .record [] [] ((row quoteField fields).toList ++ rest) = next fields.reverse rest := by
  obtain ⟨hlen, hhead⟩ := hfields
  match fields, hlen with
  | f :: g :: fields, _ =>
    have htext : (row quoteField (f :: g :: fields)).toList ++ rest =
        (quoteField f).toList ++ ((more quoteField (g :: fields)).toList ++ rest) := by
      simp [row]
    have hcomma : Boundary ((more quoteField (g :: fields)).toList ++ rest) := by
      rw [toList_more_cons]
      exact .comma _
    obtain ⟨c, cs, hcs, hline, hcomment⟩ := quoteField_head (hhead f (by simp))
      ((quoteField g).toList ++ (more quoteField fields).toList ++ rest)
    have hstart : (quoteField f).toList ++ ((more quoteField (g :: fields)).toList ++ rest) =
        c :: cs := by
      rw [toList_more_cons, ← hcs]
      rfl
    rw [htext, hstart, scan_record_eq_field hline hcomment, ← hstart, scan_field hcomma,
      next_more h]
    simp

theorem scan_rows {records : List (List String)} (h : ∀ r ∈ records, IsRecord r) :
    scan .record [] [] (rows quoteField records).toList = records := by
  induction records with
  | nil => rfl
  | cons r records ih =>
    have hr := h r List.mem_cons_self
    cases records with
    | nil =>
      have hread : scan .record [] [] ((row quoteField r).toList ++ []) = _ :=
        scan_row hr (Or.inl rfl)
      simpa [rows, next] using hread
    | cons r' records =>
      have hread : scan .record [] [] ((row quoteField r).toList ++
          '\n' :: (rows quoteField (r' :: records)).toList) = _ :=
        scan_row hr (Or.inr ⟨_, rfl⟩)
      rw [next, ih fun q hq => h q (List.mem_cons_of_mem _ hq), List.reverse_reverse] at hread
      simpa [rows] using hread

theorem scan_comment {c : String} (h : '\n' ∉ c.toList) :
    scan .comment [] [] (c.toList ++ '\n' :: rest) = scan .record [] [] rest := by
  generalize c.toList = cs at h
  induction cs with
  | nil => simp [scan]
  | cons c cs ih =>
    rw [List.mem_cons, not_or] at h
    rw [List.cons_append, scan, if_neg (Ne.symm h.1), ih h.2]

theorem scan_comments {comments : List String} (h : ∀ c ∈ comments, '\n' ∉ c.toList) :
    scan .record [] [] ((commentLines comments).toList ++ rest) = scan .record [] [] rest := by
  induction comments with
  | nil => simp [commentLines]
  | cons c comments ih =>
    have hlines : (commentLines (c :: comments)).toList ++ rest =
        '#' :: (c.toList ++ '\n' :: ((commentLines comments).toList ++ rest)) := by
      simp [commentLines]
    rw [hlines, scan, if_neg (by decide), if_pos rfl, scan_comment (h c List.mem_cons_self),
      ih fun d hd => h d (List.mem_cons_of_mem c hd)]

end

theorem rfc4180_lawful : rfc4180.Lawful where
  read_rows comments header records hcomments hlen hheader hrecords := by
    have hfirst : IsRecord header := by
      refine ⟨hlen, fun f hf hhash => ?_⟩
      have hplain := List.all_eq_true.mp (hheader f (List.mem_of_mem_head? hf)) '#'
        (List.mem_of_mem_head? hhash)
      cases hplain
    have htext : (commentLines comments ++ row quoteField header ++ "\n" ++
        rows quoteField records).toList =
          (commentLines comments).toList ++ ((row quoteField header).toList ++
            '\n' :: (rows quoteField records).toList) := by
      simp
    show ((scan .record [] [] (commentLines comments ++ row quoteField header ++ "\n" ++
      rows quoteField records).toList).drop 1).map Except.ok = _
    rw [htext, scan_comments fun c hc => (hcomments c hc).1, scan_row hfirst (Or.inr ⟨_, rfl⟩), next,
      scan_rows hrecords]
    rfl

/-! ## One record

The fields of a text that is one record, whatever stands between them.  A line end that is not in
quotes ends a record, so that a text with one is none, and quotes have to be closed. -/

/-- Where the reader of a record is: before a field, in one without quotes, in one with quotes, and
after a quote in such a field. -/
inductive Place where
  | start | plain | quoted | closed
deriving DecidableEq

/-- The rest of the fields, with the characters of the field so far in reverse. -/
def fieldsFrom (sep : Char) : Place → List Char → List Char → Option (List String)
  | .quoted, _, [] => none
  | _, f, [] => some [String.ofList f.reverse]
  | .quoted, f, c :: cs =>
    if c = '"' then fieldsFrom sep .closed f cs else fieldsFrom sep .quoted (c :: f) cs
  | place, f, c :: cs =>
    if c = '\n' ∨ c = '\r' then none
    else if c = sep then (fieldsFrom sep .start [] cs).map (String.ofList f.reverse :: ·)
    else if c = '"' ∧ place = .start then fieldsFrom sep .quoted f cs
    else if c = '"' ∧ place = .closed then fieldsFrom sep .quoted ('"' :: f) cs
    else fieldsFrom sep .plain (c :: f) cs

def fields (sep : Char) (record : String) : Option (List String) :=
  fieldsFrom sep .start [] record.toList

/-- Every quote stands next to another one. -/
inductive Paired : List Char → Prop where
  | nil : Paired []
  | char {c : Char} {cs : List Char} : c ≠ '"' → Paired cs → Paired (c :: cs)
  | quotes {cs : List Char} : Paired cs → Paired ('"' :: '"' :: cs)

namespace Paired

variable {x y : List Char}

theorem append (hx : Paired x) (hy : Paired y) : Paired (x ++ y) := by
  induction hx with
  | nil => exact hy
  | char hc _ ih => exact .char hc ih
  | quotes _ ih => exact .quotes ih

theorem of_notMem (h : '"' ∉ x) : Paired x := by
  induction x with
  | nil => exact .nil
  | cons c x ih =>
    rw [List.mem_cons, not_or] at h
    exact .char (Ne.symm h.1) (ih h.2)

theorem doubled (cs : List Char) : Paired (doubled cs) := by
  induction cs with
  | nil => exact .nil
  | cons c cs ih =>
    by_cases hc : c = '"'
    · subst hc
      exact .quotes ih
    · have hcons : Csv.doubled (c :: cs) = c :: Csv.doubled cs := by simp [Csv.doubled, hc]
      rw [hcons]
      exact .char hc ih

end Paired

theorem mem_doubled {c : Char} {cs : List Char} : c ∈ doubled cs ↔ c ∈ cs := by
  simp only [doubled, List.mem_flatMap]
  constructor
  · rintro ⟨d, hd, hc⟩
    split at hc
    · next hquote =>
        have hsame : c = '"' := by simpa using hc
        rwa [hsame, ← hquote]
    · rwa [List.mem_singleton.mp hc]
  · intro hc
    refine ⟨c, hc, ?_⟩
    split
    · next hquote => simp [hquote]
    · exact List.mem_singleton_self c

section

variable {sep : Char} {place : Place} {f x rest : List Char} {vs : List String} {c : Char}

theorem fieldsFrom_cons (hplace : place ≠ .quoted) (cs : List Char) :
    fieldsFrom sep place f (c :: cs) =
      if c = '\n' ∨ c = '\r' then none
      else if c = sep then (fieldsFrom sep .start [] cs).map (String.ofList f.reverse :: ·)
      else if c = '"' ∧ place = .start then fieldsFrom sep .quoted f cs
      else if c = '"' ∧ place = .closed then fieldsFrom sep .quoted ('"' :: f) cs
      else fieldsFrom sep .plain (c :: f) cs := by
  rw [fieldsFrom]
  exact hplace

theorem fieldsFrom_nil (hplace : place ≠ .quoted) :
    fieldsFrom sep place f [] = some [String.ofList f.reverse] := by
  cases place with
  | start => rfl
  | plain => rfl
  | quoted => exact absurd rfl hplace
  | closed => rfl

theorem fieldsFrom_quoted (c : Char) (cs : List Char) : fieldsFrom sep .quoted f (c :: cs) =
    if c = '"' then fieldsFrom sep .closed f cs else fieldsFrom sep .quoted (c :: f) cs := by
  rw [fieldsFrom]

theorem length_pos_of_fieldsFrom (h : fieldsFrom sep place f x = some vs) : 0 < vs.length := by
  fun_induction fieldsFrom sep place f x generalizing vs with
  | case1 => cases h
  | case2 =>
    cases h
    exact Nat.one_pos
  | case3 _ _ ih => exact ih h
  | case4 _ _ _ _ ih => exact ih h
  | case5 => cases h
  | case6 =>
    obtain ⟨ws, -, rfl⟩ := Option.map_eq_some_iff.mp h
    exact Nat.succ_pos ws.length
  | case7 => grind
  | case8 => grind
  | case9 => grind

/-- The number of fields of a record. -/
def width (sep : Char) (record : List Char) : Option ℕ :=
  (fieldsFrom sep .start [] record).map List.length

theorem width_eq_some {n : ℕ} :
    width sep x = some n ↔ ∃ vs, fieldsFrom sep .start [] x = some vs ∧ vs.length = n :=
  Option.map_eq_some_iff

theorem exists_fields_iff {record : String} {n : ℕ} :
    (∃ vs, fields sep record = some vs ∧ vs.length = n) ↔ width sep record.toList = some n :=
  width_eq_some.symm

theorem width_pos {n : ℕ} (h : width sep x = some n) : 0 < n := by
  obtain ⟨vs, hvs, rfl⟩ := width_eq_some.mp h
  exact length_pos_of_fieldsFrom hvs

variable (hsep : sep ≠ '"' ∧ sep ≠ '\n' ∧ sep ≠ '\r')

include hsep

theorem fieldsFrom_sep (hplace : place ≠ .quoted) (cs : List Char) :
    fieldsFrom sep place f (sep :: cs) =
      (fieldsFrom sep .start [] cs).map (String.ofList f.reverse :: ·) := by
  rw [fieldsFrom_cons hplace, if_neg (by tauto), if_pos rfl]

theorem fieldsFrom_closed_quote (cs : List Char) :
    fieldsFrom sep .closed f ('"' :: cs) = fieldsFrom sep .quoted ('"' :: f) cs := by
  rw [fieldsFrom_cons (by decide), if_neg (by decide), if_neg hsep.1.symm, if_neg (by decide),
    if_pos ⟨rfl, rfl⟩]

theorem fieldsFrom_open (h : Paired rest) : fieldsFrom sep .quoted f rest = none := by
  induction h generalizing f with
  | nil => rfl
  | char hc _ ih => rw [fieldsFrom_quoted, if_neg hc, ih]
  | quotes _ ih => rw [fieldsFrom_quoted, if_pos rfl, fieldsFrom_closed_quote hsep, ih]

theorem fieldsFrom_append_none (h : fieldsFrom sep place f x = none) (hrest : Paired rest) :
    fieldsFrom sep place f (x ++ rest) = none := by
  induction x generalizing place f with
  | nil =>
    cases place with
    | quoted => exact fieldsFrom_open hsep hrest
    | start | plain | closed => cases h
  | cons c x ih =>
    rw [List.cons_append]
    by_cases hplace : place = .quoted
    · subst hplace
      rw [fieldsFrom_quoted] at h ⊢
      split at h
      · next hc =>
          rw [if_pos hc]
          exact ih h
      · next hc =>
          rw [if_neg hc]
          exact ih h
    · rw [fieldsFrom_cons hplace] at h ⊢
      split_ifs with hline hend hopen hquote
      · rfl
      · rw [if_neg hline, if_pos hend, Option.map_eq_none_iff] at h
        rw [ih h]
        rfl
      · rw [if_neg hline, if_neg hend, if_pos hopen] at h
        exact ih h
      · rw [if_neg hline, if_neg hend, if_neg hopen, if_pos hquote] at h
        exact ih h
      · rw [if_neg hline, if_neg hend, if_neg hopen, if_neg hquote] at h
        exact ih h

theorem fieldsFrom_append (h : fieldsFrom sep place f x = some vs) (rest : List Char) :
    fieldsFrom sep place f (x ++ sep :: rest) =
      (fieldsFrom sep .start [] rest).map (vs ++ ·) := by
  induction x generalizing place f vs with
  | nil =>
    have hplace : place ≠ .quoted := by
      rintro rfl
      cases h
    rw [fieldsFrom_nil hplace, Option.some.injEq] at h
    rw [List.nil_append, fieldsFrom_sep hsep hplace, ← h]
    rfl
  | cons c x ih =>
    rw [List.cons_append]
    by_cases hplace : place = .quoted
    · subst hplace
      rw [fieldsFrom_quoted] at h ⊢
      split at h
      · next hc =>
          rw [if_pos hc]
          exact ih h
      · next hc =>
          rw [if_neg hc]
          exact ih h
    · rw [fieldsFrom_cons hplace] at h ⊢
      split_ifs with hline hend hopen hquote
      · rw [if_pos hline] at h
        cases h
      · rw [if_neg hline, if_pos hend] at h
        obtain ⟨ws, hws, rfl⟩ := Option.map_eq_some_iff.mp h
        rw [ih hws, Option.map_map]
        rfl
      · rw [if_neg hline, if_neg hend, if_pos hopen] at h
        exact ih h
      · rw [if_neg hline, if_neg hend, if_neg hopen, if_pos hquote] at h
        exact ih h
      · rw [if_neg hline, if_neg hend, if_neg hopen, if_neg hquote] at h
        exact ih h

theorem fieldsFrom_quotes (hplace : place ≠ .quoted) (cs : List Char) : ∃ place' f',
    place' ≠ .quoted ∧ fieldsFrom sep place f ('"' :: '"' :: cs) = fieldsFrom sep place' f' cs := by
  rw [fieldsFrom_cons hplace, if_neg (by decide), if_neg hsep.1.symm]
  cases place with
  | start =>
    refine ⟨.closed, f, by decide, ?_⟩
    rw [if_pos ⟨rfl, rfl⟩, fieldsFrom_quoted, if_pos rfl]
  | plain =>
    refine ⟨.plain, '"' :: '"' :: f, by decide, ?_⟩
    rw [if_neg (by decide), if_neg (by decide), fieldsFrom_cons (by decide), if_neg (by decide),
      if_neg hsep.1.symm, if_neg (by decide), if_neg (by decide)]
  | quoted => exact absurd rfl hplace
  | closed =>
    refine ⟨.closed, '"' :: f, by decide, ?_⟩
    rw [if_neg (by decide), if_pos ⟨rfl, rfl⟩, fieldsFrom_quoted, if_pos rfl]

theorem fieldsFrom_paired (h : Paired x) (hplace : place ≠ .quoted)
    (hlines : ∀ c ∈ x, c ≠ '\n' ∧ c ≠ '\r') :
    ∃ vs, fieldsFrom sep place f x = some vs ∧ vs.length = x.count sep + 1 := by
  induction h generalizing place f with
  | nil => exact ⟨_, fieldsFrom_nil hplace, by simp⟩
  | @char c cs hc _ ih =>
    obtain ⟨hline, hlines⟩ := List.forall_mem_cons.mp hlines
    rw [fieldsFrom_cons hplace, if_neg (by tauto)]
    by_cases hend : c = sep
    · have hcell : ∃ vs, fieldsFrom sep .start [] cs = some vs ∧
          vs.length = cs.count sep + 1 := ih (by decide) hlines
      obtain ⟨vs, hvs, hlen⟩ := hcell
      refine ⟨String.ofList f.reverse :: vs, by rw [if_pos hend, hvs]; rfl, ?_⟩
      rw [List.length_cons, hlen, hend, List.count_cons_self]
    · rw [if_neg hend, if_neg (by tauto), if_neg (by tauto), List.count_cons_of_ne hend]
      exact ih (by decide) hlines
  | @quotes cs _ ih =>
    obtain ⟨place', f', hplace', hquotes⟩ := fieldsFrom_quotes hsep (f := f) hplace cs
    rw [hquotes, List.count_cons_of_ne hsep.1.symm, List.count_cons_of_ne hsep.1.symm]
    exact ih hplace' fun c hc => hlines c (List.mem_cons_of_mem _ (List.mem_cons_of_mem _ hc))

theorem fieldsFrom_paired_line (h : Paired x) (hplace : place ≠ .quoted)
    (hline : ∃ c ∈ x, c = '\n' ∨ c = '\r') : fieldsFrom sep place f x = none := by
  induction h generalizing place f with
  | nil =>
    obtain ⟨c, hc, -⟩ := hline
    cases hc
  | @char c cs hc _ ih =>
    rw [fieldsFrom_cons hplace]
    split_ifs with hend hsepc hopen hquote
    · rfl
    · rw [ih (by decide) ((List.exists_mem_cons_iff ..).mp hline |>.resolve_left hend)]
      rfl
    · exact absurd hopen.1 hc
    · exact absurd hquote.1 hc
    · exact ih (by decide) ((List.exists_mem_cons_iff ..).mp hline |>.resolve_left hend)
  | @quotes cs _ ih =>
    obtain ⟨place', f', hplace', hquotes⟩ := fieldsFrom_quotes hsep (f := f) hplace cs
    rw [hquotes]
    refine ih hplace' ?_
    obtain ⟨c, hc, hend⟩ := hline
    rcases List.mem_cons.mp hc with rfl | hc
    · exact absurd hend (by decide)
    · rcases List.mem_cons.mp hc with rfl | hc
      · exact absurd hend (by decide)
      · exact ⟨c, hc, hend⟩

theorem fieldsFrom_value (h : ∀ c ∈ x, c ≠ sep ∧ c ≠ '"' ∧ c ≠ '\n' ∧ c ≠ '\r')
    (hplace : place ≠ .quoted) :
    fieldsFrom sep place f x = some [String.ofList (f.reverse ++ x)] := by
  induction x generalizing place f with
  | nil => rw [fieldsFrom_nil hplace, List.append_nil]
  | cons c x ih =>
    obtain ⟨hc, hx⟩ := List.forall_mem_cons.mp h
    rw [fieldsFrom_cons hplace, if_neg (by tauto), if_neg hc.1, if_neg (by tauto),
      if_neg (by tauto), ih hx (by decide)]
    simp

theorem width_append {n : ℕ} (h : width sep x = some n) (rest : List Char) :
    width sep (x ++ sep :: rest) = (width sep rest).map (n + ·) := by
  obtain ⟨vs, hvs, rfl⟩ := width_eq_some.mp h
  rw [width, width, fieldsFrom_append hsep hvs, Option.map_map, Option.map_map]
  congr 1
  funext ws
  exact List.length_append

theorem width_append_none (h : width sep x = none) (hrest : Paired rest) :
    width sep (x ++ sep :: rest) = none := by
  rw [width, fieldsFrom_append_none hsep (Option.map_eq_none_iff.mp h) (.char hsep.1 hrest)]
  rfl

theorem width_value (h : ∀ c ∈ x, c ≠ sep ∧ c ≠ '"' ∧ c ≠ '\n' ∧ c ≠ '\r') :
    width sep x = some 1 := by
  rw [width, fieldsFrom_value hsep h (by decide)]
  rfl

theorem width_doubled_eq_one (cs : List Char) : width sep (doubled cs) = some 1 ↔
    ∀ c ∈ cs, c ≠ sep ∧ c ≠ '\n' ∧ c ≠ '\r' := by
  by_cases hline : ∃ c ∈ doubled cs, c = '\n' ∨ c = '\r'
  · rw [width, fieldsFrom_paired_line hsep (.doubled cs) (by decide) hline]
    refine iff_of_false (by simp) fun h => ?_
    obtain ⟨c, hc, hend⟩ := hline
    have hkept := h c (mem_doubled.mp hc)
    tauto
  · have hlines : ∀ c ∈ doubled cs, c ≠ '\n' ∧ c ≠ '\r' := fun c hc =>
      not_or.mp fun hend => hline ⟨c, hc, hend⟩
    have hcells : ∃ vs, fieldsFrom sep .start [] (doubled cs) = some vs ∧
        vs.length = (doubled cs).count sep + 1 :=
      fieldsFrom_paired hsep (.doubled cs) (by decide) hlines
    obtain ⟨vs, hvs, hlen⟩ := hcells
    rw [width, hvs, Option.map_some, hlen, Option.some.injEq, Nat.add_eq_right,
      List.count_eq_zero, mem_doubled]
    constructor
    · intro hnone c hc
      exact ⟨fun heq => hnone (heq ▸ hc), hlines c (mem_doubled.mpr hc)⟩
    · exact fun h hmem => (h sep hmem).1 rfl

end

end Csv
