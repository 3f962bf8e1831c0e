import OpenAccounting.Import.Bills

/-!
# Panics of the bill importers

The importers of bills end on every text, and the places where they panic can be read off the text:
a slice of a date or of a subfield inside of a character, a bracket at the end of an SGML file, an
XML transaction without an end tag, and a row of a payment bill that ends in front of its amount or
whose amount has too many cents.
-/

namespace OpenAccounting.BillPanics

open Import RustStr

/-! ## Dates -/

section

/-- The bytes four, six and eight of a text are boundaries of characters. -/
def Sliced (cs : List Char) : Prop := ∃ year month day rest,
  cs = year ++ (month ++ (day ++ rest)) ∧ byteLen year = 4 ∧ byteLen month = 2 ∧ byteLen day = 2

/-- A date that can be sliced: it is short, or the slices are at boundaries. -/
def Sliceable (value : String) : Prop :=
  8 ≤ byteLen (Ofx.dateCore value).toList → Sliced (Ofx.dateCore value).toList

theorem splitBytes_eq_some_iff {n : ℕ} {cs before after : List Char} :
    splitBytes n cs = some (before, after) ↔ cs = before ++ after ∧ byteLen before = n := by
  constructor
  · intro h
    exact ⟨splitBytes_eq_some h, byteLen_of_splitBytes h⟩
  · rintro ⟨rfl, h⟩
    exact splitBytes_append h after

theorem sliceDate_ne_none {cs : List Char} : Ofx.sliceDate cs ≠ none ↔ Sliced cs := by
  constructor
  · intro h
    obtain ⟨date, hdate⟩ := Option.ne_none_iff_exists'.mp h
    obtain ⟨⟨year, r⟩, hyear, hdate⟩ := Option.bind_eq_some_iff.mp hdate
    obtain ⟨⟨month, r'⟩, hmonth, hdate⟩ := Option.bind_eq_some_iff.mp hdate
    obtain ⟨⟨day, rest⟩, hday, -⟩ := Option.bind_eq_some_iff.mp hdate
    obtain ⟨hcs, hfour⟩ := splitBytes_eq_some_iff.mp hyear
    obtain ⟨rfl, htwo⟩ := splitBytes_eq_some_iff.mp hmonth
    obtain ⟨rfl, htwo'⟩ := splitBytes_eq_some_iff.mp hday
    exact ⟨year, month, day, rest, hcs, hfour, htwo, htwo'⟩
  · rintro ⟨year, month, day, rest, rfl, hfour, htwo, htwo'⟩
    rw [Ofx.sliceDate, splitBytes_append hfour]
    simp [splitBytes_append htwo, splitBytes_append htwo']

theorem normaliseDate_ne_none {value : String} :
    Ofx.normaliseDate value ≠ none ↔ Sliceable value := by
  rw [Ofx.normaliseDate, Sliceable]
  by_cases hshort : byteLen (Ofx.dateCore value).toList < 8
  · rw [if_pos hshort]
    exact iff_of_true (Option.some_ne_none _) fun h => absurd hshort (not_lt.mpr h)
  · rw [if_neg hshort, sliceDate_ne_none]
    exact ⟨fun h _ => h, fun h => h (not_lt.mp hshort)⟩

theorem set_ne_none {t : Ofx.Txn} {tag value : String} :
    t.set tag value ≠ none ↔ (toAsciiUppercase tag = "DTPOSTED" → Sliceable value) := by
  rw [Ofx.Txn.set]
  by_cases hdate : toAsciiUppercase tag = "DTPOSTED"
  · rw [if_pos hdate, Ne, Option.map_eq_none_iff, ← Ne, normaliseDate_ne_none]
    exact ⟨fun h _ => h, fun h => h hdate⟩
  · rw [if_neg hdate]
    refine iff_of_true ?_ fun h => absurd h hdate
    split_ifs <;> exact Option.some_ne_none _

end

/-! ## SGML -/

section

open Ofx

theorem ofNat_eq_iff {b d : UInt8} {c : Char} (hc : Char.ofNat d.toNat = c) :
    Char.ofNat b.toNat = c ↔ b = d := by
  rw [← hc]
  refine ⟨fun h => ?_, fun h => by rw [h]⟩
  have hcode := congrArg Char.toNat h
  rw [ByteCode.toNat_ofNat_byte b.toNat_lt, ByteCode.toNat_ofNat_byte d.toNat_lt] at hcode
  exact UInt8.toNat_inj.mp hcode

/-- The loop panics only on a text that ends in `><`, or that is `<` behind a `>`. -/
theorem normaliseFrom_eq_none {last : Bool} {bytes : List UInt8} :
    normaliseFrom last bytes = none ↔ [62, 60] <:+ bytes ∨ last = true ∧ bytes = [60] := by
  induction bytes generalizing last with
  | nil => simp [normaliseFrom]
  | cons b bs ih =>
    have hlt : Char.ofNat b.toNat = '<' ↔ b = 60 := ofNat_eq_iff (by decide)
    have hgt : Char.ofNat b.toNat = '>' ↔ b = 62 := ofNat_eq_iff (by decide)
    have hstep : normaliseFrom last (b :: bs) = none ↔
        (b = 60 ∧ last = true ∧ bs = []) ∨ normaliseFrom (decide (b = 62)) bs = none := by
      simp only [normaliseFrom, hlt, hgt, Option.bind_eq_bind]
      by_cases hopen : b = 60 ∧ last = true
      · rw [if_pos hopen]
        cases bs with
        | nil => simp [hopen]
        | cons next bs =>
          simp
          exact Option.eq_none_iff_forall_ne_some.symm
      · rw [if_neg hopen]
        have hnot : ¬ (b = 60 ∧ last = true ∧ bs = []) := fun h => hopen ⟨h.1, h.2.1⟩
        simp [hnot]
        exact Option.eq_none_iff_forall_ne_some.symm
    rw [hstep, ih, List.suffix_cons_iff]
    constructor
    · rintro (⟨hb, hlast, hbs⟩ | hsuffix | ⟨hb, hbs⟩)
      · exact Or.inr ⟨hlast, by rw [hb, hbs]⟩
      · exact Or.inl (Or.inr hsuffix)
      · exact Or.inl (Or.inl (by rw [hbs, of_decide_eq_true hb]))
    · rintro ((heq | hsuffix) | ⟨hlast, heq⟩)
      · cases heq
        exact Or.inr (Or.inr ⟨rfl, rfl⟩)
      · exact Or.inr (Or.inl hsuffix)
      · cases heq
        exact Or.inl ⟨rfl, hlast, rfl⟩

/-- The last two bytes of a text are `><`. -/
def EndsOpen (text : String) : Prop := [62, 60] <:+ ByteCode.utf8 text

theorem normaliseSgml_eq_none {text : String} : normaliseSgml text = none ↔ EndsOpen text := by
  rw [normaliseSgml, Option.map_eq_none_iff, normaliseFrom_eq_none, EndsOpen]
  simp

/-- A line that begins or ends a transaction, or the file: whether one is open behind it. -/
def marker (line : String) : Option Bool :=
  let upper := toAsciiUppercase line
  if startsWith "OFXHEADER:" upper ∨ upper = "<OFX>" then some false
  else if startsWith "<STMTTRN>" upper then some true
  else if startsWith "</STMTTRN>" upper then some false
  else none

/-- A transaction is open behind the lines. -/
def insideFrom (b : Bool) (lines : List String) : Bool := ((lines.filterMap marker).getLast?).getD b

def dateField (line : String) : Option String :=
  if marker line = none then
    (parseSgmlValue line).bind fun field =>
      if toAsciiUppercase field.1 = "DTPOSTED" then some field.2 else none
  else none

/-- Each date inside of a transaction can be sliced. -/
def DatesSliceable (b : Bool) (lines : List String) : Prop :=
  ∀ before line after, lines = before ++ line :: after → insideFrom b before = true →
    ∀ value ∈ dateField line, Sliceable value

theorem dateField_of_marker {line : String} (h : marker line ≠ none) : dateField line = none :=
  if_neg h

theorem step_ne_none {s : State} {line : String} :
    step s line ≠ none ↔ (s.inStmt = true → ∀ value ∈ dateField line, Sliceable value) := by
  have hmarked : marker line ≠ none →
      (s.inStmt = true → ∀ value ∈ dateField line, Sliceable value) := by
    intro h _ value hvalue
    rw [dateField_of_marker h] at hvalue
    cases hvalue
  simp only [step]
  split_ifs with hheader hstart hend hinside
  · exact iff_of_true (Option.some_ne_none _) (hmarked (by simp [marker, hheader]))
  · exact iff_of_true (Option.some_ne_none _) (hmarked (by simp [marker, hheader, hstart]))
  · exact iff_of_true (Option.some_ne_none _) (hmarked (by simp [marker, hheader, hstart, hend]))
  · have hnone : marker line = none := by simp [marker, hheader, hstart, hend]
    rw [dateField, if_pos hnone]
    cases hvalue : parseSgmlValue line with
    | none => simp
    | some field =>
      simp only [Ne, Option.map_eq_none_iff, Option.bind_some, hinside, forall_const]
      rw [← Ne, set_ne_none]
      by_cases hdate : toAsciiUppercase field.1 = "DTPOSTED"
      · simp [hdate]
      · simp [hdate]
  · exact iff_of_true (Option.some_ne_none _) fun h => absurd h hinside

theorem step_inStmt {s s' : State} {line : String} (h : step s line = some s') :
    s'.inStmt = (marker line).getD s.inStmt := by
  simp only [step] at h
  split_ifs at h with hheader hstart hend hinside
  · cases h
    simp [marker, hheader]
  · cases h
    simp [marker, hheader, hstart]
  · cases h
    simp [marker, hheader, hstart, hend]
  · have hnone : marker line = none := by simp [marker, hheader, hstart, hend]
    rw [hnone, Option.getD_none]
    split at h
    · obtain ⟨t, -, rfl⟩ := Option.map_eq_some_iff.mp h
      rfl
    · cases h
      rfl
  · cases h
    simp [marker, hheader, hstart, hend]

theorem insideFrom_cons (b : Bool) (line : String) (lines : List String) :
    insideFrom b (line :: lines) = insideFrom ((marker line).getD b) lines := by
  rw [insideFrom, insideFrom, List.filterMap_cons]
  cases marker line with
  | none => rfl
  | some m => rw [List.getLast?_cons, Option.getD_some, Option.getD_some]

theorem datesSliceable_cons {b : Bool} {line : String} {lines : List String} :
    DatesSliceable b (line :: lines) ↔
      (b = true → ∀ value ∈ dateField line, Sliceable value) ∧
        DatesSliceable ((marker line).getD b) lines := by
  constructor
  · intro h
    refine ⟨fun hb => h [] line lines rfl hb, fun before next after heq hinside => ?_⟩
    refine h (line :: before) next after (by rw [heq, List.cons_append]) ?_
    rw [insideFrom_cons]
    exact hinside
  · rintro ⟨hfirst, hrest⟩ before next after heq hinside
    cases before with
    | nil =>
      obtain ⟨rfl, -⟩ := List.cons.inj heq
      exact hfirst hinside
    | cons l before =>
      obtain ⟨rfl, htail⟩ := List.cons.inj heq
      rw [insideFrom_cons] at hinside
      exact hrest before next after htail hinside

/-- The lines are read to their end when each date inside of a transaction can be sliced. -/
theorem foldlM_step_ne_none {s : State} {lines : List String} :
    lines.foldlM step s ≠ none ↔ DatesSliceable s.inStmt lines := by
  induction lines generalizing s with
  | nil =>
    refine iff_of_true (Option.some_ne_none s) fun before line after heq => ?_
    simp at heq
  | cons line lines ih =>
    rw [datesSliceable_cons, ← step_ne_none, List.foldlM_cons]
    cases hstep : step s line with
    | none => simp
    | some s' =>
      rw [Option.bind_eq_bind, Option.bind_some, ih, step_inStmt hstep]
      simp

/-- What `parse_sgml` asks of a text. -/
structure SgmlSafe (text : String) : Prop where
  closed : ¬ EndsOpen text
  dates : ∀ normalised ∈ normaliseSgml text, DatesSliceable false (logicalLines normalised)

theorem parseSgml_ne_none {text : String} : parseSgml text ≠ none ↔ SgmlSafe text := by
  rw [parseSgml]
  cases hnormal : normaliseSgml text with
  | none =>
    refine iff_of_false (fun h => h rfl) fun h => h.closed ?_
    exact normaliseSgml_eq_none.mp hnormal
  | some normalised =>
    have hclosed : ¬ EndsOpen text := by
      rw [← normaliseSgml_eq_none, hnormal]
      exact Option.some_ne_none _
    have hfold : (logicalLines normalised).foldlM step {} ≠ none ↔
        DatesSliceable false (logicalLines normalised) := foldlM_step_ne_none
    rw [Option.bind_eq_bind, Option.bind_some]
    constructor
    · intro h
      refine ⟨hclosed, fun n hn => ?_⟩
      obtain rfl : normalised = n := Option.some.inj (hnormal.symm.trans hn)
      refine hfold.mp fun hnone => h ?_
      rw [hnone]
      rfl
    · intro h
      obtain ⟨s, hs⟩ := Option.ne_none_iff_exists'.mp (hfold.mpr (h.dates normalised hnormal))
      rw [hs]
      exact Option.some_ne_none _

end

/-! ## XML -/

section

open Ofx

/-- The dates among the elements of a transaction can be sliced. -/
def RegionSafe (region : List Char) : Prop :=
  ∀ e ∈ extractElements region, toAsciiUppercase e.1 = "DTPOSTED" → Sliceable e.2

/-- Each transaction of a text has an end tag, and dates that can be sliced. -/
inductive RegionsSafe : List Char → Prop where
  | done {body : List Char} (h : cutBefore (atTag "<STMTTRN>") body = none) : RegionsSafe body
  | region {body before found region rest : List Char}
      (hstart : cutBefore (atTag "<STMTTRN>") body = some (before, found))
      (hend : cutRegion (found.drop 9) = some (region, rest)) (hregion : RegionSafe region)
      (h : RegionsSafe rest) : RegionsSafe body

theorem parseRegion_ne_none {region : List Char} :
    parseRegion region ≠ none ↔ RegionSafe region := by
  have hfold : ∀ (es : List (String × String)) (t : Txn),
      es.foldlM (fun t e => Txn.set t e.1 e.2) t ≠ none ↔
        ∀ e ∈ es, toAsciiUppercase e.1 = "DTPOSTED" → Sliceable e.2 := by
    intro es
    induction es with
    | nil => intro t; simp
    | cons e es ih =>
      intro t
      rw [List.foldlM_cons, List.forall_mem_cons, ← set_ne_none (t := t)]
      cases hset : t.set e.1 e.2 with
      | none => simp
      | some t' =>
        rw [Option.bind_eq_bind, Option.bind_some, ih]
        simp
  rw [parseRegion, Ne, Option.map_eq_none_iff, ← Ne, hfold, RegionSafe]

/-- The loop over the transactions panics unless their regions are safe. -/
theorem parseXmlFrom_ne_none {body : List Char} : parseXmlFrom body ≠ none ↔ RegionsSafe body := by
  induction hn : body.length using Nat.strong_induction_on generalizing body with
  | _ n ih =>
    subst hn
    cases hstart : cutBefore (atTag "<STMTTRN>") body with
    | none =>
      rw [parseXmlFrom_done hstart]
      exact iff_of_true (Option.some_ne_none _) (.done hstart)
    | some r =>
      obtain ⟨before, found⟩ := r
      cases hend : cutRegion (found.drop 9) with
      | none =>
        rw [parseXmlFrom_open hstart hend]
        refine iff_of_false (fun h => h rfl) fun h => ?_
        cases h with
        | done h => rw [hstart] at h; cases h
        | region h hregion =>
          rw [hstart] at h
          cases h
          rw [hend] at hregion
          cases hregion
      | some r =>
        obtain ⟨region, rest⟩ := r
        have hsafe : RegionsSafe body ↔ RegionSafe region ∧ RegionsSafe rest := by
          constructor
          · intro h
            cases h with
            | done h => rw [hstart] at h; cases h
            | region h hcut hregion hrest =>
              rw [hstart] at h
              cases h
              rw [hend] at hcut
              cases hcut
              exact ⟨hregion, hrest⟩
          · rintro ⟨hregion, hrest⟩
            exact .region hstart hend hregion hrest
        rw [parseXmlFrom_region hstart hend, hsafe, ← parseRegion_ne_none,
          ← ih rest.length (behind_shorter hstart hend) rfl]
        cases parseRegion region with
        | none => simp
        | some row => simp

/-- What `parse_xml` asks of a text. -/
def XmlSafe (text : String) : Prop := RegionsSafe (xmlBody text)

theorem parseXml_ne_none {text : String} : parseXml text ≠ none ↔ XmlSafe text :=
  parseXmlFrom_ne_none

end

/-! ## MT940 -/

section

/-- Each subfield of a text has a code that can be sliced. -/
inductive Cuttable : List Char → Prop where
  | plain {text : List Char} (h : '?' ∉ text) : Cuttable text
  | short {before tail : List Char} (hbefore : '?' ∉ before) (htail : byteLen tail < 2) :
      Cuttable (before ++ '?' :: tail)
  | sub {before code segment rest : List Char} (hbefore : '?' ∉ before) (hcode : byteLen code = 2)
      (hsegment : '?' ∉ segment) (hrest : ∀ c ∈ rest.head?, c = '?') (h : Cuttable rest) :
      Cuttable (before ++ '?' :: (code ++ (segment ++ rest)))

/-- A narrative is split without a panic exactly if it can be cut. -/
theorem splitSubfields_ne_none {text : List Char} :
    Mt940.splitSubfields text ≠ none ↔ Cuttable text := by
  constructor
  · intro h
    induction hn : text.length using Nat.strong_induction_on generalizing text with
    | _ n ih =>
      subst hn
      cases hcut : cutAt '?' text with
      | none => exact .plain (cutAt_eq_none.mp hcut)
      | some r =>
        obtain ⟨before, tail⟩ := r
        obtain ⟨rfl, hbefore⟩ := cutAt_eq_some.mp hcut
        by_cases hshort : byteLen tail < 2
        · exact .short hbefore hshort
        · cases hsub : Mt940.takeSubfield tail with
          | none => exact absurd (Mt940.splitSubfields_panic hbefore hshort hsub) h
          | some r =>
            obtain ⟨⟨code, after⟩, hsplit, -⟩ := Option.map_eq_some_iff.mp hsub
            have hcode := byteLen_of_splitBytes hsplit
            obtain rfl := splitBytes_eq_some hsplit
            obtain ⟨segment, rest, rfl, hsegment, hrest⟩ := Mt940.exists_segment after
            refine .sub hbefore hcode hsegment hrest (ih rest.length ?_ ?_ rfl)
            · simp only [List.length_append, List.length_cons]
              omega
            · rw [Mt940.splitSubfields_code hbefore hcode hsegment hrest] at h
              exact fun hnone => h (by rw [hnone]; rfl)
  · intro h
    induction h with
    | plain h => simp [Mt940.splitSubfields_plain h]
    | short hbefore htail => simp [Mt940.splitSubfields_short hbefore htail]
    | sub hbefore hcode hsegment hrest _ ih =>
      rw [Mt940.splitSubfields_code hbefore hcode hsegment hrest]
      obtain ⟨subs, hsubs⟩ := Option.ne_none_iff_exists'.mp ih
      rw [hsubs]
      exact Option.some_ne_none _

/-- What the parser of MT940 asks of a text: the subfields of each `:86:` line can be sliced. -/
def Mt940Safe (text : String) : Prop :=
  ∀ raw ∈ lines text, startsWith ":86:" (trim raw) = true →
    Cuttable ((trim raw).toList.drop 4)

theorem step_mt940_ne_none {s : Mt940.State} {raw : String} :
    Mt940.step s raw ≠ none ↔
      (startsWith ":86:" (trim raw) = true → Cuttable ((trim raw).toList.drop 4)) := by
  simp only [Mt940.step]
  split_ifs with h60 h62 h61 h86
  · have hother : ¬ startsWith ":86:" (trim raw) = true :=
      h60.elim (not_startsWith_both (by decide)) (not_startsWith_both (by decide))
    exact iff_of_true (Option.some_ne_none _) fun h => absurd h hother
  · have hother : ¬ startsWith ":86:" (trim raw) = true :=
      h62.elim (not_startsWith_both (by decide)) (not_startsWith_both (by decide))
    exact iff_of_true (Option.some_ne_none _) fun h => absurd h hother
  · exact iff_of_true (Option.some_ne_none _)
      fun h => absurd h (not_startsWith_both (by decide) h61)
  · have hbehind : (Mt940.behind ":86:" (trim raw)).toList = (trim raw).toList.drop 4 := by
      rw [Mt940.behind, String.toList_ofList]
      rfl
    rw [Mt940.parse86, hbehind, Ne, Option.map_eq_none_iff, Option.map_eq_none_iff, ← Ne,
      splitSubfields_ne_none]
    exact ⟨fun h _ => h, fun h => h h86⟩
  · exact iff_of_true (Option.some_ne_none _) fun h => absurd h h86
  · exact iff_of_true (Option.some_ne_none _) fun h => absurd h h86

theorem parse_mt940_ne_none {text : String} : Mt940.parse text ≠ none ↔ Mt940Safe text := by
  have hfold : ∀ (ls : List String) (s : Mt940.State), ls.foldlM Mt940.step s ≠ none ↔
      ∀ raw ∈ ls, startsWith ":86:" (trim raw) = true → Cuttable ((trim raw).toList.drop 4) := by
    intro ls
    induction ls with
    | nil => intro s; simp
    | cons raw ls ih =>
      intro s
      rw [List.foldlM_cons, List.forall_mem_cons, ← step_mt940_ne_none (s := s)]
      cases hstep : Mt940.step s raw with
      | none => simp
      | some s' =>
        rw [Option.bind_eq_bind, Option.bind_some, ih]
        simp
  rw [Mt940.parse, Ne, Option.map_eq_none_iff, ← Ne, hfold, Mt940Safe]

end

/-! ## Payment bills -/

section

open PaymentBills Commit

variable {lib : PaymentBills.Libraries}

/-- An amount that is not a decimal. -/
def Unreadable (lib : PaymentBills.Libraries) (raw : String) : Prop :=
  trim raw ≠ "" ∧ lib.parseDecimal (unsigned raw) = none

/-- A text whose cents overflow. -/
def CentsOverflow (lib : PaymentBills.Libraries) (s : String) : Prop :=
  trim s ≠ "" ∧ ∃ d, lib.parseDecimal (trim s) = some d ∧ lib.decimal.mul d 100 = none

/-- A positive amount whose cents overflow, as it is written with two digits. -/
def TooLarge (lib : PaymentBills.Libraries) (raw : String) : Prop :=
  trim raw ≠ "" ∧ ∃ d, lib.parseDecimal (unsigned raw) = some d ∧ 0 < d ∧
    CentsOverflow lib (lib.formatTwo d)

theorem parseAmount_cases (lib : PaymentBills.Libraries) (raw : String) :
    (Unreadable lib raw ∧ ∃ e, parseAmount lib raw = .error (.error e)) ∨
      ¬ Unreadable lib raw ∧ ∃ text, parseAmount lib raw = .ok text ∧
        (CentsOverflow lib text ↔ TooLarge lib raw) := by
  rw [parseAmount, Unreadable]
  by_cases hblank : trim raw = ""
  · refine Or.inr ⟨fun h => h.1 hblank, "", if_pos hblank, ?_⟩
    exact iff_of_false (fun h => h.1 rfl) fun h => h.1 hblank
  · rw [if_neg hblank]
    cases hparse : lib.parseDecimal (unsigned raw) with
    | none => exact Or.inl ⟨⟨hblank, rfl⟩, _, rfl⟩
    | some d =>
      refine Or.inr ⟨fun h => absurd h.2 (Option.some_ne_none d), _, rfl, ?_⟩
      by_cases hd : d ≤ 0
      · rw [if_pos hd]
        refine iff_of_false (fun h => h.1 rfl) ?_
        rintro ⟨-, d', hd', hpos, -⟩
        obtain rfl : d = d' := Option.some.inj (hparse.symm.trans hd')
        exact absurd hd (not_le.mpr hpos)
      · rw [if_neg hd]
        constructor
        · intro h
          exact ⟨hblank, d, hparse, not_le.mp hd, h⟩
        · rintro ⟨-, d', hd', -, h⟩
          obtain rfl : d = d' := Option.some.inj (hparse.symm.trans hd')
          exact h

theorem moneyCents_cases (lib : PaymentBills.Libraries) (s : String) :
    (CentsOverflow lib s ∧ moneyCents lib s = .error .panic) ∨
      ¬ CentsOverflow lib s ∧ ∃ cents, moneyCents lib s = .ok cents := by
  rw [moneyCents, CentsOverflow]
  by_cases hblank : trim s = ""
  · exact Or.inr ⟨fun h => h.1 hblank, none, if_pos hblank⟩
  · rw [if_neg hblank]
    cases hparse : lib.parseDecimal (trim s) with
    | none =>
      refine Or.inr ⟨?_, none, rfl⟩
      rintro ⟨-, d, hd, -⟩
      cases hd
    | some d =>
      cases hmul : lib.decimal.mul d 100 with
      | none => exact Or.inl ⟨⟨hblank, d, rfl, hmul⟩, by simp [okOr, hmul, Except.map]⟩
      | some x =>
        refine Or.inr ⟨?_, toI64 x, by simp [okOr, hmul, Except.map]⟩
        rintro ⟨-, d', hd', hnone⟩
        cases hd'
        rw [hmul] at hnone
        cases hnone

theorem amountCents_cases (lib : PaymentBills.Libraries) {debit credit text : String}
    (h : debit = text ∧ credit = "" ∨ debit = "" ∧ credit = text) :
    (CentsOverflow lib text ∧ amountCents lib debit credit = .error .panic) ∨
      ¬ CentsOverflow lib text ∧ ∃ cents, amountCents lib debit credit = .ok cents := by
  have hempty : moneyCents lib "" = .ok none := rfl
  rcases moneyCents_cases lib text with ⟨hlarge, hcents⟩ | ⟨hsmall, cents, hcents⟩
  · refine Or.inl ⟨hlarge, ?_⟩
    rcases h with ⟨rfl, rfl⟩ | ⟨rfl, rfl⟩
    · rw [amountCents, hcents]
      rfl
    · rw [amountCents, hempty, ok_bind, hcents]
      rfl
  · refine Or.inr ⟨hsmall, ?_⟩
    rcases h with ⟨rfl, rfl⟩ | ⟨rfl, rfl⟩
    · rw [amountCents, hcents, ok_bind]
      cases cents with
      | none => exact ⟨0, by rw [hempty]; rfl⟩
      | some n => exact ⟨n, rfl⟩
    · rw [amountCents, hempty, ok_bind, hcents, ok_bind]
      exact ⟨cents.getD 0, rfl⟩

/-- How the amount of a row is read: whether the row asks for it, in which cell, and whether its
cents are counted. -/
structure Reading where
  asks : List String → Prop
  column : ℕ
  counts : List String → Prop

/-- The row ends the import with an error. -/
def Reading.Fails (r : Reading) (lib : PaymentBills.Libraries) (cells : List String) : Prop :=
  r.asks cells ∧ ∃ raw ∈ cells[r.column]?, Unreadable lib raw

/-- The row has no amount though it asks for one, or its cents overflow. -/
def Reading.Crashes (r : Reading) (lib : PaymentBills.Libraries) (cells : List String) : Prop :=
  r.asks cells ∧ (cells.length ≤ r.column ∨
    r.counts cells ∧ ∃ raw ∈ cells[r.column]?, TooLarge lib raw)

/-- What a parser of payment bills asks of a text: no row behind the header crashes, unless an
earlier one ends the import with an error. -/
def BillSafe (lib : PaymentBills.Libraries) (header : String × String) (r : Reading)
    (text : String) : Prop :=
  ∀ records, lib.records text = .ok records →
    ∀ rows ∈ rowsBehind header (records.map fun record => record.map trim),
      ∀ before cells after, rows = before ++ cells :: after →
        (∀ row ∈ before, ¬ r.Fails lib row) → ¬ r.Crashes lib cells

/-- A row function that reads its amount as described. -/
structure Reading.Describes (r : Reading) (lib : PaymentBills.Libraries)
    (row : List String → Except Failure (Option ParsedRow)) : Prop where
  panics : ∀ cells, row cells = .error .panic ↔ r.Crashes lib cells
  ends : ∀ cells, (∃ out, row cells = .ok out) ↔ ¬ r.Crashes lib cells ∧ ¬ r.Fails lib cells

theorem exists_first_crash {r : Reading} {before after : List (List String)} {cells : List String}
    (hbefore : ∀ row ∈ before, ¬ r.Fails lib row) (hcrash : r.Crashes lib cells) :
    ∃ front row rest, before ++ cells :: after = front ++ row :: rest ∧
      (∀ x ∈ front, ¬ r.Crashes lib x ∧ ¬ r.Fails lib x) ∧ r.Crashes lib row := by
  induction before with
  | nil => exact ⟨[], cells, after, rfl, by simp, hcrash⟩
  | cons x before ih =>
    by_cases hx : r.Crashes lib x
    · exact ⟨[], x, before ++ cells :: after, rfl, by simp, hx⟩
    · obtain ⟨hfails, hrest⟩ := List.forall_mem_cons.mp hbefore
      obtain ⟨front, row, rest, heq, hfront, hrow⟩ := ih hrest
      refine ⟨x :: front, row, rest, by rw [List.cons_append, heq, List.cons_append], ?_, hrow⟩
      exact List.forall_mem_cons.mpr ⟨⟨hx, hfails⟩, hfront⟩

theorem bind_ok_eq_error {α β : Type} {x : Except Failure α} {f : α → β} {e : Failure} :
    (x >>= fun a => .ok (f a)) = .error e ↔ x = .error e := by
  cases x with
  | ok a => exact iff_of_false (fun h => nomatch h) fun h => nomatch h
  | error e' => exact ⟨fun h => by cases h; rfl, fun h => by cases h; rfl⟩

/-- A parser whose rows are described panics unless the bill is safe. -/
theorem parseRows_ne_panic {header : String × String} {r : Reading}
    {row : List String → Except Failure (Option ParsedRow)} (h : r.Describes lib row)
    {text : String} :
    parseRows lib header row text ≠ .error .panic ↔ BillSafe lib header r text := by
  rw [parseRows, BillSafe]
  cases hrecords : lib.records text with
  | error e =>
    refine iff_of_true (fun heq => ?_) fun records hok => nomatch hok
    cases heq
  | ok records =>
    have hok : (mapError (fun e => Failure.error (ParseError.csv e)) (.ok records) :
        Except Failure _) = .ok records := rfl
    rw [hok, ok_bind]
    cases hrows : rowsBehind header (records.map fun record => record.map trim) with
    | none =>
      refine iff_of_true (fun heq => ?_) ?_
      · simp only [hrows, okOr] at heq
        cases heq
      · rintro records' ⟨⟩ rows hmem
        rw [hrows] at hmem
        cases hmem
    | some rows =>
      have hmap : rows.mapM row ≠ .error .panic ↔ ∀ before cells after,
          rows = before ++ cells :: after → (∀ x ∈ before, ¬ r.Fails lib x) →
            ¬ r.Crashes lib cells := by
        rw [Ne, mapM_eq_error]
        constructor
        · rintro hnone before cells after rfl hbefore hcrash
          obtain ⟨front, x, rest, heq, hfront, hx⟩ := exists_first_crash hbefore hcrash
          exact hnone ⟨front, x, rest, heq, fun y hy => (h.ends y).mpr (hfront y hy),
            (h.panics x).mpr hx⟩
        · rintro hall ⟨front, x, rest, heq, hfront, hx⟩
          exact hall front x rest heq (fun y hy => ((h.ends y).mp (hfront y hy)).2)
            ((h.panics x).mp hx)
      simp only [hrows, Option.mem_some_iff, Except.ok.injEq, forall_eq']
      exact (not_congr bind_ok_eq_error).trans hmap

def readAmount (lib : PaymentBills.Libraries) (cells : List String) (i : ℕ) :
    Except Failure String :=
  cellAt cells i >>= parseAmount lib

theorem readAmount_cases (lib : PaymentBills.Libraries) (cells : List String) (i : ℕ) :
    (cells.length ≤ i ∧ readAmount lib cells i = .error .panic) ∨
      ∃ raw, cells[i]? = some raw ∧
        ((Unreadable lib raw ∧ ∃ e, readAmount lib cells i = .error (.error e)) ∨
          ¬ Unreadable lib raw ∧ ∃ text, readAmount lib cells i = .ok text ∧
            (CentsOverflow lib text ↔ TooLarge lib raw)) := by
  cases hcell : cells[i]? with
  | none =>
    refine Or.inl ⟨List.getElem?_eq_none_iff.mp hcell, ?_⟩
    rw [readAmount, cellAt, hcell]
    rfl
  | some raw =>
    have hcellAt : cellAt cells i = .ok raw := by
      rw [cellAt, hcell, okOr]
    have hread : readAmount lib cells i = parseAmount lib raw := by
      rw [readAmount, hcellAt, ok_bind]
    rw [hread]
    exact Or.inr ⟨raw, rfl, parseAmount_cases lib raw⟩

theorem not_short_of_cell {cells : List String} {i : ℕ} {raw : String} (h : cells[i]? = some raw) :
    ¬ cells.length ≤ i := by
  intro hshort
  rw [List.getElem?_eq_none_iff.mpr hshort] at h
  cases h

/-- A row function that reads its amount first, and then counts its cents. -/
theorem Reading.describes_of {r : Reading} {row : List String → Except Failure (Option ParsedRow)}
    (hskips : ∀ cells, ¬ r.asks cells → ∃ out, row cells = .ok out)
    (herror : ∀ cells e, r.asks cells → readAmount lib cells r.column = .error e →
      row cells = .error e)
    (hcounts : ∀ cells text, r.asks cells → readAmount lib cells r.column = .ok text →
      r.counts cells → (CentsOverflow lib text ∧ row cells = .error .panic) ∨
        ¬ CentsOverflow lib text ∧ ∃ out, row cells = .ok out)
    (hdrops : ∀ cells text, r.asks cells → readAmount lib cells r.column = .ok text →
      ¬ r.counts cells → ∃ out, row cells = .ok out) : r.Describes lib row := by
  have hall : ∀ cells, (r.Crashes lib cells ∧ row cells = .error .panic) ∨
      (¬ r.Crashes lib cells ∧ r.Fails lib cells ∧ ∃ e, row cells = .error (.error e)) ∨
      ¬ r.Crashes lib cells ∧ ¬ r.Fails lib cells ∧ ∃ out, row cells = .ok out := by
    intro cells
    by_cases hasks : r.asks cells
    · rcases readAmount_cases lib cells r.column with
        ⟨hshort, hread⟩ | ⟨raw, hcell, ⟨hbad, e, hread⟩ | ⟨hgood, text, hread, hlarge⟩⟩
      · exact Or.inl ⟨⟨hasks, Or.inl hshort⟩, herror cells _ hasks hread⟩
      · refine Or.inr (Or.inl ⟨?_, ⟨hasks, raw, hcell, hbad⟩, e, herror cells _ hasks hread⟩)
        rintro ⟨-, hshort | ⟨-, raw', hcell', -, d, hd, -⟩⟩
        · exact not_short_of_cell hcell hshort
        · obtain rfl : raw = raw' := Option.some.inj (hcell.symm.trans hcell')
          rw [hbad.2] at hd
          cases hd
      · have hfails : ¬ r.Fails lib cells := by
          rintro ⟨-, raw', hcell', hbad⟩
          obtain rfl : raw = raw' := Option.some.inj (hcell.symm.trans hcell')
          exact hgood hbad
        have hcrash : r.Crashes lib cells ↔ r.counts cells ∧ CentsOverflow lib text := by
          constructor
          · rintro ⟨-, hshort | ⟨hcount, raw', hcell', hraw⟩⟩
            · exact absurd hshort (not_short_of_cell hcell)
            · obtain rfl : raw = raw' := Option.some.inj (hcell.symm.trans hcell')
              exact ⟨hcount, hlarge.mpr hraw⟩
          · rintro ⟨hcount, hover⟩
            exact ⟨hasks, Or.inr ⟨hcount, raw, hcell, hlarge.mp hover⟩⟩
        rw [hcrash]
        by_cases hcount : r.counts cells
        · rcases hcounts cells text hasks hread hcount with ⟨hover, hrow⟩ | ⟨hover, hrow⟩
          · exact Or.inl ⟨⟨hcount, hover⟩, hrow⟩
          · exact Or.inr (Or.inr ⟨fun h => hover h.2, hfails, hrow⟩)
        · exact Or.inr (Or.inr ⟨fun h => hcount h.1, hfails, hdrops cells text hasks hread hcount⟩)
    · exact Or.inr (Or.inr ⟨fun h => hasks h.1, fun h => hasks h.1, hskips cells hasks⟩)
  constructor
  · intro cells
    rcases hall cells with ⟨hcrash, hrow⟩ | ⟨hcrash, -, e, hrow⟩ | ⟨hcrash, -, out, hrow⟩
    · exact iff_of_true hrow hcrash
    · exact iff_of_false (by simp [hrow]) hcrash
    · exact iff_of_false (by simp [hrow]) hcrash
  · intro cells
    rcases hall cells with ⟨hcrash, hrow⟩ | ⟨hcrash, hfails, e, hrow⟩ | ⟨hcrash, hfails, out, hrow⟩
    · exact iff_of_false (by simp [hrow]) fun h => h.1 hcrash
    · exact iff_of_false (by simp [hrow]) fun h => h.2 hfails
    · exact iff_of_true ⟨out, hrow⟩ ⟨hcrash, hfails⟩

/-- How the rows of WeChat are read. -/
def wechatReading (options : ParseOptions) : Reading where
  asks cells := Wechat.Kept options cells ∧ cell cells 4 ∈ ["收入", "支出"]
  column := 5
  counts _ := True

def alipayReading (options : ParseOptions) : Reading where
  asks cells := AlipayWeb.Kept options cells ∧
    (cell cells 5 ∈ ["收入", "支出"] ∨
      cell cells 5 ∈ ["其他", "不计收支"] ∧ options.includeOther = true)
  column := 6
  counts cells := cell cells 5 ∈ ["收入", "支出"] ∨ contains "退款" (cell cells 11) = true ∨
    contains "余额宝-单次转入" (cell cells 11) = true

theorem wechatReading_describes (options : ParseOptions) :
    (wechatReading options).Describes lib (Wechat.row lib options) := by
  -- The credit of a row whose direction is that of an income, and the debit of the other rows.
  have hrow : ∀ cells, (wechatReading options).asks cells → ∃ sides : String → String × String,
      (∀ text, (sides text).1 = text ∧ (sides text).2 = "" ∨
        (sides text).1 = "" ∧ (sides text).2 = text) ∧
      Wechat.sides lib cells = readAmount lib cells 5 >>= fun text => .ok (some (sides text)) := by
    rintro cells ⟨-, hdirection⟩
    by_cases hin : cell cells 4 = "收入"
    · refine ⟨fun text => ("", text), fun text => Or.inr ⟨rfl, rfl⟩, ?_⟩
      rw [Wechat.sides, if_pos hin, readAmount, bind_assoc]
    · have hout : cell cells 4 = "支出" := by simpa [hin] using hdirection
      refine ⟨fun text => (text, ""), fun text => Or.inl ⟨rfl, rfl⟩, ?_⟩
      rw [Wechat.sides, if_neg hin, if_pos hout, readAmount, bind_assoc]
  refine Reading.describes_of ?_ ?_ ?_ ?_
  · intro cells hasks
    by_cases hkept : Wechat.Kept options cells
    · have hother : ¬ cell cells 4 = "收入" ∧ ¬ cell cells 4 = "支出" := by
        simpa [wechatReading, hkept] using hasks
      refine ⟨none, ?_⟩
      rw [Wechat.row, if_pos hkept, Wechat.sides, if_neg hother.1, if_neg hother.2]
      rfl
    · exact ⟨none, by rw [Wechat.row, if_neg hkept]⟩
  · intro cells e hasks hread
    obtain ⟨sides, -, hsides⟩ := hrow cells hasks
    have hread' : readAmount lib cells 5 = .error e := hread
    rw [Wechat.row, if_pos hasks.1, hsides, hread']
    rfl
  · intro cells text hasks hread _
    obtain ⟨sides, hside, hsides⟩ := hrow cells hasks
    have hread' : readAmount lib cells 5 = .ok text := hread
    rw [Wechat.row, if_pos hasks.1, hsides, hread', ok_bind, ok_bind]
    rcases amountCents_cases lib (hside text) with ⟨hover, hcents⟩ | ⟨hover, cents, hcents⟩
    · exact Or.inl ⟨hover, by simp only [hcents]; rfl⟩
    · exact Or.inr ⟨hover, _, by simp only [hcents]; rfl⟩
  · intro cells text _ _ hcount
    exact absurd trivial hcount

theorem alipayReading_describes (options : ParseOptions) :
    (alipayReading options).Describes lib (AlipayWeb.row lib options) := by
  -- The sides of a row with a direction, and those of a row that has a note instead.
  have hrow : ∀ cells, (alipayReading options).asks cells →
      ∃ sides : String → Option (String × String),
        (∀ text, (alipayReading options).counts cells → ∃ debit credit,
          sides text = some (debit, credit) ∧
            (debit = text ∧ credit = "" ∨ debit = "" ∧ credit = text)) ∧
        (∀ text, ¬ (alipayReading options).counts cells → sides text = none) ∧
        AlipayWeb.sides lib options cells =
          readAmount lib cells 6 >>= fun text => .ok (sides text) := by
    rintro cells ⟨-, hdirection⟩
    by_cases hin : cell cells 5 = "收入"
    · refine ⟨fun text => some ("", text), fun text _ => ⟨_, _, rfl, Or.inr ⟨rfl, rfl⟩⟩,
        fun text hnot => absurd (Or.inl (by simp [hin])) hnot, ?_⟩
      simp only [AlipayWeb.sides, if_pos hin, readAmount, bind_assoc]
    · by_cases hout : cell cells 5 = "支出"
      · refine ⟨fun text => some (text, ""), fun text _ => ⟨_, _, rfl, Or.inl ⟨rfl, rfl⟩⟩,
          fun text hnot => absurd (Or.inl (by simp [hout])) hnot, ?_⟩
        simp only [AlipayWeb.sides, if_neg hin, if_pos hout, readAmount, bind_assoc]
      · have hother : (cell cells 5 = "其他" ∨ cell cells 5 = "不计收支") ∧
            options.includeOther = true := by simpa [hin, hout] using hdirection
        refine ⟨fun text => if contains "退款" (cell cells 11) then some ("", text)
          else if contains "余额宝-单次转入" (cell cells 11) then some (text, "") else none, ?_, ?_, ?_⟩
        · intro text hcount
          by_cases hrefund : contains "退款" (cell cells 11) = true
          · exact ⟨"", text, if_pos hrefund, Or.inr ⟨rfl, rfl⟩⟩
          · have htransfer : contains "余额宝-单次转入" (cell cells 11) = true := by
              simpa [alipayReading, hin, hout, hrefund] using hcount
            exact ⟨text, "", (if_neg hrefund).trans (if_pos htransfer), Or.inl ⟨rfl, rfl⟩⟩
        · intro text hnot
          have hneither : ¬ contains "退款" (cell cells 11) = true ∧
              ¬ contains "余额宝-单次转入" (cell cells 11) = true := by
            simpa [alipayReading, hin, hout] using hnot
          exact (if_neg hneither.1).trans (if_neg hneither.2)
        · simp only [AlipayWeb.sides, if_neg hin, if_neg hout, if_pos hother, readAmount,
            bind_assoc]
  refine Reading.describes_of ?_ ?_ ?_ ?_
  · intro cells hasks
    by_cases hkept : AlipayWeb.Kept options cells
    · refine ⟨none, ?_⟩
      have hother : (¬ cell cells 5 = "收入" ∧ ¬ cell cells 5 = "支出") ∧
          ¬ ((cell cells 5 = "其他" ∨ cell cells 5 = "不计收支") ∧ options.includeOther = true) := by
        have hnot : ¬ (cell cells 5 ∈ ["收入", "支出"] ∨
            cell cells 5 ∈ ["其他", "不计收支"] ∧ options.includeOther = true) :=
          fun h => hasks ⟨hkept, h⟩
        simp only [List.mem_cons, List.not_mem_nil, or_false, not_or] at hnot
        exact hnot
      rw [AlipayWeb.row, if_pos hkept]
      simp only [AlipayWeb.sides, if_neg hother.1.1, if_neg hother.1.2, if_neg hother.2]
      rfl
    · exact ⟨none, by rw [AlipayWeb.row, if_neg hkept]⟩
  · intro cells e hasks hread
    obtain ⟨sides, -, -, hsides⟩ := hrow cells hasks
    have hread' : readAmount lib cells 6 = .error e := hread
    rw [AlipayWeb.row, if_pos hasks.1, hsides, hread']
    rfl
  · intro cells text hasks hread hcount
    obtain ⟨sides, hside, -, hsides⟩ := hrow cells hasks
    obtain ⟨debit, credit, heq, hone⟩ := hside text hcount
    have hread' : readAmount lib cells 6 = .ok text := hread
    rw [AlipayWeb.row, if_pos hasks.1, hsides, hread', ok_bind, ok_bind, heq]
    rcases amountCents_cases lib hone with ⟨hover, hcents⟩ | ⟨hover, cents, hcents⟩
    · exact Or.inl ⟨hover, by simp only [hcents]; rfl⟩
    · exact Or.inr ⟨hover, _, by simp only [hcents]; rfl⟩
  · intro cells text hasks hread hcount
    obtain ⟨sides, -, hnone, hsides⟩ := hrow cells hasks
    have hread' : readAmount lib cells 6 = .ok text := hread
    refine ⟨none, ?_⟩
    rw [AlipayWeb.row, if_pos hasks.1, hsides, hread', ok_bind, ok_bind, hnone text hcount]

end

/-! ## Importers -/

section

inductive Importer where
  | sgml
  | xml
  | mt940
  | wechat (options : PaymentBills.ParseOptions)
  | alipayWeb (options : PaymentBills.ParseOptions)

def Importer.Panics (lib : PaymentBills.Libraries) : Importer → String → Prop
  | .sgml, text => Ofx.parseSgml text = none
  | .xml, text => Ofx.parseXml text = none
  | .mt940, text => Mt940.parse text = none
  | .wechat options, text => PaymentBills.Wechat.parseStr lib options text = .error .panic
  | .alipayWeb options, text => PaymentBills.AlipayWeb.parseStr lib options text = .error .panic

/-- What the importer asks of a text. -/
def Importer.Safe (lib : PaymentBills.Libraries) : Importer → String → Prop
  | .sgml, text => SgmlSafe text
  | .xml, text => XmlSafe text
  | .mt940, text => Mt940Safe text
  | .wechat options, text =>
    BillSafe lib PaymentBills.Wechat.header (wechatReading options) text
  | .alipayWeb options, text =>
    BillSafe lib PaymentBills.AlipayWeb.header (alipayReading options) text

/-- An importer returns rows or an error exactly at the texts that it can slice. -/
theorem not_panics_iff (lib : PaymentBills.Libraries) (importer : Importer) (text : String) :
    ¬ importer.Panics lib text ↔ importer.Safe lib text := by
  cases importer with
  | sgml => exact parseSgml_ne_none
  | xml => exact parseXml_ne_none
  | mt940 => exact parse_mt940_ne_none
  | wechat options => exact parseRows_ne_panic (wechatReading_describes options)
  | alipayWeb options => exact parseRows_ne_panic (alipayReading_describes options)

/-- Libraries that find no records. -/
def emptyLibraries : PaymentBills.Libraries where
  records _ := .ok []
  parseDecimal _ := none
  formatTwo _ := ""
  decimal := Decimal.checkedNearest
  fingerprint _ _ _ := 0

/-- Two brackets at the end of an SGML file, and an XML transaction without an end tag. -/
theorem importers_panic :
    Importer.sgml.Panics emptyLibraries "><" ∧ Importer.xml.Panics emptyLibraries "<STMTTRN>" := by
  constructor
  · have hnormal : Ofx.normaliseSgml "><" = none := by decide
    show Ofx.parseSgml "><" = none
    rw [Ofx.parseSgml, hnormal]
    rfl
  · have hbody : cutBefore (Ofx.atTag "<STMTTRN>") (Ofx.xmlBody "<STMTTRN>") =
        some ([], "<STMTTRN>".toList) := by decide
    exact Ofx.parseXmlFrom_open hbody (by decide)

end

end OpenAccounting.BillPanics
