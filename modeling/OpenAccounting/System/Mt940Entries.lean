import Mathlib.Data.List.Chain
import Mathlib.Data.List.Forall2
import OpenAccounting.System.StatementImport
import OpenAccounting.System.StatementPanics

/-!
# Entries of an MT940 statement

An entry has a `:61:` line, supplementary lines, and a `:86:` line that goes on in further lines.
The supplementary lines come before the entry is put to the lines that are returned, so that their
text is added to the name of the entry before it.
-/

namespace OpenAccounting.Import.Statement.Mt940

open Calendar Commit RustStr
open StatementPanics (Crashes86 exists_parse86 fails_parse86 not_fails_mt940)

/-! ## Entries -/

/-- A `:61:` line that can be read, and what belongs to it. -/
structure Entry (lib : Libraries) where
  booking : String
  booked : NaiveDate × ℚ
  supplementary : List String := []
  /-- The `:86:` line and the lines in which it goes on. -/
  info : Option (String × List String) := none
  plain : ∀ l ∈ booking :: (supplementary ++ info.elim [] fun i => i.1 :: i.2), '\n' ∉ l.toList
  isBooking : startsWith ":61:" booking = true
  reads : parse61 lib (trimEnd booking) = .ok booked
  isSupplementary : ∀ l ∈ supplementary, startsWith ":" l = false
  isInfo : ∀ i ∈ info, startsWith ":86:" i.1 = true ∧ ∀ l ∈ i.2, startsWith ":" l = false

/-- Lines in front of the entries. -/
structure Header where
  lines : List String
  plain : ∀ l ∈ lines, '\n' ∉ l.toList
  noBooking : ∀ l ∈ lines, startsWith ":61:" l = false

variable {lib : Libraries}

namespace Entry

def lines (e : Entry lib) : List String :=
  e.booking :: (e.supplementary ++ e.info.elim [] fun i => i.1 :: i.2)

/-- What the `:86:` line is read as. -/
def read (e : Entry lib) : Except Failure (Option String) :=
  e.info.elim (.ok none) fun i => parse86 (trimEnd i.1)

/-- What the `:86:` line says, if it can be read. -/
def text (e : Entry lib) : Option String := (e.read.toOption).getD none

/-- The line of the entry, from nothing but the entry and the reference. -/
def row (ref : Option String) (e : Entry lib) : StatementLine where
  date := e.booked.1
  amount := e.booked.2
  payee := e.text.getD unnamed
  memo := e.text
  externalId := ref

/-- A segment of a `:86:` line, if it is a name field. -/
def nameField (segment : String) : Option String :=
  let seg := (trim segment).toList
  if 3 ≤ byteLen seg ∧ String.ofList (seg.take 2) ∈ ["20", "25", "32", "33"] then
    some (trim (String.ofList (seg.drop 2)))
  else none

def nameFields (line : String) : List String := (split '?' line).filterMap nameField

/-- The entry has no `:86:` line, or the one name field of it is what stands for no name. -/
def Unnamed (e : Entry lib) : Prop := ∀ i ∈ e.info, nameFields (trimEnd i.1) = [unnamed]

end Entry

/-- The text of a statement. -/
def render (header : Header) (es : List (Entry lib)) : String :=
  unlines (header.lines ++ es.flatMap Entry.lines)

/-- Each entry gives the line that it gives alone. -/
def Independent (header : Header) (es : List (Entry lib)) : Prop :=
  ∃ ls, parse lib (render header es) = .ok ls ∧
    List.Forall₂ (fun e l => parse lib (render header [e]) = .ok [l]) es ls

/-! ## Lines that are returned -/

/-- The lines that would be returned if the text ended here. -/
def State.done (s : State) : List StatementLine := (s.flush unnamed none).out

/-- The last line is changed. -/
def onLast (f : StatementLine → StatementLine) (ls : List StatementLine) : List StatementLine :=
  ls.dropLast ++ ls.getLast?.toList.map f

theorem onLast_concat (f : StatementLine → StatementLine) (ls : List StatementLine)
    (l : StatementLine) : onLast f (ls ++ [l]) = ls ++ [f l] := by
  simp [onLast]

theorem onLast_onLast (f g : StatementLine → StatementLine) (ls : List StatementLine) :
    onLast g (onLast f ls) = onLast (g ∘ f) ls := by
  rcases List.eq_nil_or_concat ls with rfl | ⟨front, l, rfl⟩
  · rfl
  · rw [List.concat_eq_append, onLast_concat, onLast_concat, onLast_concat]
    rfl

theorem onLast_id (ls : List StatementLine) : onLast id ls = ls := by
  rcases List.eq_nil_or_concat ls with rfl | ⟨front, l, rfl⟩
  · rfl
  · rw [List.concat_eq_append, onLast_concat]
    rfl

/-- The name goes on with lines that are not blank. -/
def extendBy (raws : List String) (l : StatementLine) : StatementLine :=
  raws.foldl (fun l raw =>
    if trim (trimEnd raw) = "" then l else appendPayee (trim (trimEnd raw)) l) l

theorem extendBy_comp (raw : String) (raws : List String) :
    extendBy raws ∘ extendBy [raw] = extendBy (raw :: raws) := by
  funext l
  rw [Function.comp_apply, extendBy, extendBy, extendBy, List.foldl_cons, List.foldl_cons,
    List.foldl_nil]

/-! ## Steps -/

section

variable {s : State} {raw : String}

theorem step_withoutCr (s : State) (raw : String) :
    step lib s (withoutCr raw) = step lib s raw := by
  rw [step, step, trimEnd_withoutCr]

theorem startsWith_of_trimEnd {tag : String} (h : startsWith tag (trimEnd raw) = true) :
    startsWith tag raw = true := by
  obtain ⟨blank, -, hraw⟩ := exists_trimEnd_append raw
  rw [startsWith, List.isPrefixOf_iff_prefix] at h ⊢
  rw [hraw]
  exact h.trans (List.prefix_append _ blank)

theorem startsWith_trimEnd {tag : String} (htag : EndsSolid tag) (h : startsWith tag raw = true) :
    startsWith tag (trimEnd raw) = true := by
  rw [startsWith, List.isPrefixOf_iff_prefix] at h ⊢
  obtain ⟨rest, hrest⟩ := h
  have hraw : raw = tag ++ String.ofList rest := by
    rw [← String.toList_inj, String.toList_append, String.toList_ofList, hrest]
  rw [hraw, htag.trimEnd_append, String.toList_append]
  exact List.prefix_append _ _

theorem not_startsWith_tag {tag : String} (htag : ":".toList <+: tag.toList)
    (h : startsWith ":" raw = false) : ¬ startsWith tag (trimEnd raw) = true := by
  intro htrim
  have hraw := startsWith_of_trimEnd htrim
  rw [startsWith, List.isPrefixOf_iff_prefix] at hraw
  rw [← Bool.not_eq_true, startsWith, List.isPrefixOf_iff_prefix] at h
  exact h (htag.trans hraw)

theorem step_booking {booked : NaiveDate × ℚ} (hbooking : startsWith ":61:" raw = true)
    (hreads : parse61 lib (trimEnd raw) = .ok booked) :
    step lib s raw = .ok { s.flush unnamed none with pending := some booked } := by
  have h61 := startsWith_trimEnd ⟨':', rfl, by decide⟩ hbooking
  have h20 : ¬ startsWith ":20:" (trimEnd raw) = true := not_startsWith_both (by decide) h61
  rw [step, if_neg h20, if_pos h61, hreads, ok_bind]

theorem step_supplementary (hpending : s.pending ≠ none) (h : startsWith ":" raw = false) :
    step lib s raw = .ok { s with out := onLast (extendBy [raw]) s.out } := by
  have hcolon := not_startsWith_tag (List.prefix_refl _) h
  rw [step, if_neg (not_startsWith_tag (by decide) h), if_neg (not_startsWith_tag (by decide) h),
    if_neg (not_startsWith_tag (by decide) h)]
  by_cases hblank : trim (trimEnd raw) = ""
  · have hnot : ¬ (s.pending ≠ none ∧ trim (trimEnd raw) ≠ "" ∧
        ¬ startsWith ":" (trimEnd raw) = true) := fun hall => hall.2.1 hblank
    have hid : extendBy [raw] = id := by
      funext l
      rw [extendBy, List.foldl_cons, List.foldl_nil, if_pos hblank, id]
    rw [if_neg hnot, hid, onLast_id]
  · rw [if_pos ⟨hpending, hblank, hcolon⟩]
    have happend : extendBy [raw] = appendPayee (trim (trimEnd raw)) := by
      funext l
      rw [extendBy, List.foldl_cons, List.foldl_nil, if_neg hblank]
    rw [happend, onLast]

theorem step_continuation (hpending : s.pending = none) (h : startsWith ":" raw = false) :
    step lib s raw = .ok s := by
  rw [step, if_neg (not_startsWith_tag (by decide) h), if_neg (not_startsWith_tag (by decide) h),
    if_neg (not_startsWith_tag (by decide) h), if_neg fun hall => hall.1 hpending]

theorem step_info (hpending : s.pending ≠ none) (h : startsWith ":86:" raw = true) :
    step lib s raw =
      (parse86 (trimEnd raw)).map fun info => s.flush (info.getD unnamed) info := by
  have h86 := startsWith_trimEnd ⟨':', rfl, by decide⟩ h
  have h20 : ¬ startsWith ":20:" (trimEnd raw) = true := not_startsWith_both (by decide) h86
  have h61 : ¬ startsWith ":61:" (trimEnd raw) = true := not_startsWith_both (by decide) h86
  rw [step, if_neg h20, if_neg h61, if_pos h86, if_neg hpending]
  cases parse86 (trimEnd raw) <;> rfl

end

/-! ## One entry -/

theorem foldlM_supplementary {raws : List String} (h : ∀ l ∈ raws, startsWith ":" l = false)
    {s : State} (hpending : s.pending ≠ none) :
    raws.foldlM (step lib) s = .ok { s with out := onLast (extendBy raws) s.out } := by
  induction raws generalizing s with
  | nil =>
    have hid : extendBy [] = id := rfl
    rw [hid, onLast_id]
    rfl
  | cons raw raws ih =>
    obtain ⟨hraw, hraws⟩ := List.forall_mem_cons.mp h
    rw [List.foldlM_cons, step_supplementary hpending hraw, ok_bind]
    refine (ih hraws (s := { s with out := onLast (extendBy [raw]) s.out }) hpending).trans ?_
    rw [onLast_onLast, extendBy_comp]

theorem foldlM_continuation {raws : List String} (h : ∀ l ∈ raws, startsWith ":" l = false)
    {s : State} (hpending : s.pending = none) : raws.foldlM (step lib) s = .ok s := by
  induction raws with
  | nil => rfl
  | cons raw raws ih =>
    obtain ⟨hraw, hraws⟩ := List.forall_mem_cons.mp h
    rw [List.foldlM_cons, step_continuation hpending hraw, ok_bind, ih hraws]

/-- The state behind the supplementary lines of an entry. -/
def Entry.opened (e : Entry lib) (s : State) : State where
  out := onLast (extendBy e.supplementary) s.done
  currentRef := s.currentRef
  pending := some e.booked

theorem foldlM_opened (e : Entry lib) (s : State) :
    (e.booking :: e.supplementary).foldlM (step lib) s = .ok (e.opened s) := by
  rw [List.foldlM_cons, step_booking e.isBooking e.reads, ok_bind,
    foldlM_supplementary e.isSupplementary (Option.some_ne_none _)]
  rfl

theorem foldlM_entry {e : Entry lib} {info : Option String} (hread : e.read = .ok info)
    (s : State) :
    ∃ t, e.lines.foldlM (step lib) s = .ok t ∧ t.currentRef = s.currentRef ∧
      t.done = onLast (extendBy e.supplementary) s.done ++ [e.row s.currentRef] := by
  have htext : e.text = info := by rw [Entry.text, hread]; rfl
  rw [Entry.lines, ← List.cons_append, List.foldlM_append, foldlM_opened, ok_bind, Entry.row, htext]
  cases hinfo : e.info with
  | none =>
    rw [Entry.read, hinfo] at hread
    cases hread
    exact ⟨e.opened s, rfl, rfl, rfl⟩
  | some i =>
    rw [Entry.read, hinfo] at hread
    obtain ⟨h86, hmore⟩ := e.isInfo i hinfo
    have hparse : parse86 (trimEnd i.1) = .ok info := hread
    have hstep : step lib (e.opened s) i.1 =
        .ok ((e.opened s).flush (info.getD unnamed) info) := by
      rw [step_info (Option.some_ne_none _) h86, hparse]
      rfl
    rw [Option.elim_some, List.foldlM_cons, hstep, ok_bind, foldlM_continuation hmore rfl]
    exact ⟨_, rfl, rfl, List.append_nil _⟩

theorem foldlM_entry_error {e : Entry lib} {x : Failure} (hread : e.read = .error x) (s : State) :
    e.lines.foldlM (step lib) s = .error x := by
  rw [Entry.lines, ← List.cons_append, List.foldlM_append, foldlM_opened, ok_bind]
  cases hinfo : e.info with
  | none =>
    rw [Entry.read, hinfo] at hread
    cases hread
  | some i =>
    rw [Entry.read, hinfo] at hread
    have hparse : parse86 (trimEnd i.1) = .error x := hread
    rw [Option.elim_some, List.foldlM_cons, step_info (Option.some_ne_none _) (e.isInfo i hinfo).1,
      hparse]
    rfl

/-! ## All entries -/

/-- The lines of entries behind a line. -/
def chained (ref : Option String) (l : StatementLine) : List (Entry lib) → List StatementLine
  | [] => [l]
  | e :: es => extendBy e.supplementary l :: chained ref (e.row ref) es

theorem foldlM_chained {es : List (Entry lib)} (hread : ∀ e ∈ es, ∃ info, e.read = .ok info)
    {s : State} {front : List StatementLine} {l : StatementLine} (hs : s.done = front ++ [l]) :
    ∃ t, (es.flatMap Entry.lines).foldlM (step lib) s = .ok t ∧
      t.done = front ++ chained s.currentRef l es := by
  induction es generalizing s front l with
  | nil => exact ⟨s, rfl, hs⟩
  | cons e es ih =>
    obtain ⟨⟨info, hinfo⟩, hrest⟩ := List.forall_mem_cons.mp hread
    obtain ⟨t, hrun, href, hdone⟩ := foldlM_entry hinfo s
    rw [hs, onLast_concat] at hdone
    obtain ⟨u, hrest, hu⟩ := ih hrest hdone
    refine ⟨u, ?_, ?_⟩
    · rw [List.flatMap_cons, List.foldlM_append, hrun, ok_bind, hrest]
    · rw [hu, href, chained, List.append_assoc]
      rfl

theorem foldlM_header (header : Header) :
    ∃ ref, header.lines.foldlM (step lib) {} = .ok { currentRef := ref } := by
  have hrun : ∀ (ls : List String) ref, (∀ l ∈ ls, startsWith ":61:" l = false) →
      ∃ ref', ls.foldlM (step lib) { currentRef := ref } = .ok { currentRef := ref' } := by
    intro ls
    induction ls with
    | nil => exact fun ref _ => ⟨ref, rfl⟩
    | cons l ls ih =>
      intro ref hls
      obtain ⟨hl, hls⟩ := List.forall_mem_cons.mp hls
      have h61 : ¬ startsWith ":61:" (trimEnd l) = true := fun h =>
        absurd (startsWith_of_trimEnd h) (by rw [hl]; simp)
      have hstep : ∃ ref', step lib { currentRef := ref } l = .ok { currentRef := ref' } := by
        rw [step, if_neg h61]
        split
        · exact ⟨_, rfl⟩
        · split
          · exact ⟨ref, rfl⟩
          · exact ⟨ref, if_neg fun h => h.1 rfl⟩
      obtain ⟨ref', hstep⟩ := hstep
      rw [List.foldlM_cons, hstep, ok_bind]
      exact ih ref' hls
  exact hrun header.lines none header.noBooking

theorem parse_render (lib : Libraries) (header : Header) :
    ∃ ref, ∀ es : List (Entry lib), parse lib (render header es) =
      ((es.flatMap Entry.lines).foldlM (step lib) { currentRef := ref } >>= fun s =>
        ensure (s.done ≠ []) (.message "no :61: statement lines found") >>= fun _ =>
          .ok s.done) := by
  obtain ⟨ref, hheader⟩ : ∃ ref, header.lines.foldlM (step lib) {} = .ok { currentRef := ref } :=
    foldlM_header header
  refine ⟨ref, fun es => ?_⟩
  have hplain : ∀ l ∈ header.lines ++ es.flatMap Entry.lines, '\n' ∉ l.toList := by
    intro l hl
    rcases List.mem_append.mp hl with hl | hl
    · exact header.plain l hl
    · obtain ⟨e, -, hl⟩ := List.mem_flatMap.mp hl
      exact e.plain l hl
  rw [parse, render, lines_unlines_withoutCr hplain, List.foldlM_map]
  simp only [step_withoutCr]
  rw [List.foldlM_append, hheader, ok_bind]
  rfl

theorem parse_entries (lib : Libraries) (header : Header) :
    ∃ ref, parse lib (render header ([] : List (Entry lib))) =
        .error (.message "no :61: statement lines found") ∧
      (∀ (e : Entry lib) es, (∀ e' ∈ e :: es, ∃ info, e'.read = .ok info) →
        parse lib (render header (e :: es)) = .ok (chained ref (e.row ref) es)) ∧
      ∀ (e : Entry lib) x, e.read = .error x → parse lib (render header [e]) = .error x := by
  obtain ⟨ref, hparse⟩ := parse_render lib header
  refine ⟨ref, ?_, fun e es hread => ?_, fun e x hread => ?_⟩
  · rw [hparse]
    rfl
  · obtain ⟨⟨info, hinfo⟩, hrest⟩ := List.forall_mem_cons.mp hread
    obtain ⟨t, hrun, href, hdone⟩ := foldlM_entry hinfo { currentRef := ref }
    obtain ⟨u, hrest, hu⟩ := foldlM_chained hrest hdone
    have hall : u.done = chained ref (e.row ref) es := by
      rw [hu, href]
      rfl
    have hne : chained ref (e.row ref) es ≠ [] := by cases es <;> simp [chained]
    rw [hparse, List.flatMap_cons, List.foldlM_append, hrun, ok_bind, hrest, ok_bind, hall, ensure,
      if_pos hne]
    rfl
  · rw [hparse, List.flatMap_cons, List.flatMap_nil, List.append_nil, foldlM_entry_error hread]
    rfl

/-! ## Names that go on -/

theorem append_ne_unnamed (name text : String) : name ++ " " ++ text ≠ unnamed := by
  intro h
  have hblank : ' ' ∈ unnamed.toList := by
    rw [← h]
    simp
  exact absurd hblank (by decide)

/-- A name goes on with every line that is not blank, unless it stands for no name. -/
theorem extendBy_eq_self_iff (raws : List String) (l : StatementLine) :
    extendBy raws l = l ↔ l.payee = unnamed ∨ ∀ raw ∈ raws, trim (trimEnd raw) = "" := by
  constructor
  · intro h
    by_contra hnot
    rw [not_or] at hnot
    have hgrows : ∀ (raws : List String) (l : StatementLine), l.payee ≠ unnamed →
        l.payee.length ≤ (extendBy raws l).payee.length ∧
          ((∃ raw ∈ raws, trim (trimEnd raw) ≠ "") →
            l.payee.length < (extendBy raws l).payee.length) := by
      intro raws
      induction raws with
      | nil => exact fun l _ => ⟨Nat.le_refl _, by simp⟩
      | cons raw raws ih =>
        intro l hl
        by_cases hblank : trim (trimEnd raw) = ""
        · have hsame : extendBy (raw :: raws) l = extendBy raws l := by
            rw [extendBy, List.foldl_cons, if_pos hblank, ← extendBy]
          rw [hsame]
          refine ⟨(ih l hl).1, fun ⟨raw', hmem, hraw'⟩ => (ih l hl).2 ⟨raw', ?_, hraw'⟩⟩
          rcases List.mem_cons.mp hmem with rfl | hmem
          · exact absurd hblank hraw'
          · exact hmem
        · have hnext : extendBy (raw :: raws) l = extendBy raws
              { l with payee := l.payee ++ " " ++ trim (trimEnd raw) } := by
            rw [extendBy, List.foldl_cons, if_neg hblank, appendPayee, if_neg hl, ← extendBy]
          have hlonger := (ih { l with payee := l.payee ++ " " ++ trim (trimEnd raw) }
            (append_ne_unnamed _ _)).1
          rw [hnext]
          simp only [String.length_append] at hlonger
          have hone : " ".length = 1 := rfl
          exact ⟨by omega, fun _ => by omega⟩
    have hraw : ∃ raw ∈ raws, trim (trimEnd raw) ≠ "" := by simpa using hnot.2
    have hlt := (hgrows raws l hnot.1).2 hraw
    rw [h] at hlt
    exact Nat.lt_irrefl _ hlt
  · intro h
    induction raws with
    | nil => rfl
    | cons raw raws ih =>
      have hstep : (if trim (trimEnd raw) = "" then l
          else appendPayee (trim (trimEnd raw)) l) = l := by
        rcases h with hname | hblank
        · rw [appendPayee, if_pos hname, ite_self]
        · exact if_pos (hblank raw List.mem_cons_self)
      rw [extendBy, List.foldl_cons, hstep, ← extendBy]
      exact ih (h.imp_right fun hblank raw hraw => hblank raw (List.mem_cons_of_mem _ hraw))

/-- The lines of the entries are those that they have alone if no line changes its name. -/
theorem chained_eq_map_iff (ref : Option String) (e : Entry lib) (es : List (Entry lib)) :
    chained ref (e.row ref) es = (e :: es).map (Entry.row ref) ↔
      (e :: es).IsChain fun e e' => extendBy e'.supplementary (e.row ref) = e.row ref := by
  induction es generalizing e with
  | nil => simp [chained]
  | cons e' es ih =>
    rw [chained, List.map_cons, List.cons.injEq, ih, List.isChain_cons_cons]

theorem trim_trimEnd_eq_empty {raw : String} :
    trim (trimEnd raw) = "" ↔ ∀ c ∈ raw.toList, isWhitespace c = true := by
  constructor
  · intro h c hc
    by_contra hsolid
    rw [Bool.not_eq_true] at hsolid
    obtain ⟨blank, hblank, hraw⟩ := exists_trimEnd_append raw
    rw [hraw] at hc
    rcases List.mem_append.mp hc with hc | hc
    · exact trim_ne_empty hc hsolid h
    · rw [hblank c hc] at hsolid
      cases hsolid
  · intro h
    have hdrop : raw.toList.reverse.dropWhile isWhitespace = [] :=
      List.dropWhile_eq_nil_iff.mpr fun c hc => h c (List.mem_reverse.mp hc)
    rw [trimEnd, hdrop]
    rfl

/-! ## Name fields -/

theorem intercalate_eq_iff {parts : List String} {name : String} (hname : ' ' ∉ name.toList)
    (hne : parts ≠ []) : " ".intercalate parts = name ↔ parts = [name] := by
  obtain ⟨part, parts, rfl⟩ := List.exists_cons_of_ne_nil hne
  rw [← String.toList_inj, String.toList_intercalate]
  cases parts with
  | nil => simp [String.toList_inj]
  | cons part' parts =>
    rw [List.map_cons, List.map_cons, List.intercalate_cons_cons]
    refine iff_of_false (fun h => hname ?_) (by simp)
    rw [← h]
    simp

theorem code_length {code : List Char} (h : String.ofList code ∈ ["20", "25", "32", "33"]) :
    code.length = 2 ∧ byteLen code = 2 := by
  have hall : ∀ s ∈ ["20", "25", "32", "33"], s.toList.length = 2 ∧ byteLen s.toList = 2 := by
    decide
  simpa using hall _ h

/-- The name is what the name fields have, in order. -/
theorem nameParts_eq_ok {segments parts : List String} (h : nameParts segments = .ok parts) :
    parts = segments.filterMap Entry.nameField := by
  induction segments generalizing parts with
  | nil =>
    cases h
    rfl
  | cons segment segments ih =>
    rw [nameParts] at h
    rw [List.filterMap_cons]
    split at h
    · next hshort =>
        have hnone : Entry.nameField segment = none := by
          rw [Entry.nameField, if_neg]
          exact fun hall => absurd hall.1 (Nat.not_le.mpr hshort)
        rw [hnone]
        exact ih h
    · next hlong =>
        obtain ⟨⟨code, rest⟩, htake, h⟩ := bind_eq_ok.mp h
        obtain ⟨more, hmore, h⟩ := bind_eq_ok.mp h
        obtain ⟨cs, hcut, hcode⟩ := StatementPanics.take2_eq_ok.mp htake
        dsimp only at hcut hcode
        subst hcode
        have hseg := splitBytes_eq_some hcut
        have hfield : Entry.nameField segment =
            if String.ofList cs ∈ ["20", "25", "32", "33"] then some (trim (String.ofList rest))
            else none := by
          rw [Entry.nameField]
          by_cases hmem : String.ofList cs ∈ ["20", "25", "32", "33"]
          · have hlength := (code_length hmem).1
            rw [hseg, List.take_left' hlength, List.drop_left' hlength, ← hseg, if_pos hmem,
              if_pos ⟨Nat.not_lt.mp hlong, hmem⟩]
          · rw [if_neg hmem, if_neg]
            rintro ⟨-, htwo⟩
            have hcut' := splitBytes_append (code_length htwo).2 ((trim segment).toList.drop 2)
            rw [List.take_append_drop, hcut] at hcut'
            obtain ⟨hcs, -⟩ := Prod.mk.inj (Option.some.inj hcut')
            exact hmem (hcs ▸ htwo)
        rw [hfield, ← ih hmore, ← Except.ok.inj h]
        by_cases hmem : String.ofList cs ∈ ["20", "25", "32", "33"]
        · rw [if_pos hmem, if_pos hmem]
        · rw [if_neg hmem, if_neg hmem]

theorem lines_singleton {s : String} (hne : s ≠ "") (h : '\n' ∉ s.toList) : lines s = [s] := by
  have hrun : ∀ (cs acc : List Char), '\n' ∉ cs → acc.reverse ++ cs ≠ [] →
      linesFrom acc cs = [acc.reverse ++ cs] := by
    intro cs
    induction cs with
    | nil =>
      intro acc _ hacc
      rw [List.append_nil] at hacc ⊢
      exact if_neg fun h => hacc (by rw [h]; rfl)
    | cons c cs ih =>
      intro acc hcs hacc
      rw [List.mem_cons, not_or] at hcs
      rw [linesFrom, ih (c :: acc) hcs.2]
      · simp
      · simp
      · exact fun heq => hcs.1 heq.symm
  rw [lines, hrun s.toList [] h fun hnil => hne (String.toList_inj.mp hnil)]
  simp

/-- A line that starts with its tag is read as a name, tag and all, if it has no name fields. -/
theorem flat_ne_unnamed {line : String} (h86 : startsWith ":86:" (trimEnd line) = true)
    (hplain : '\n' ∉ line.toList) :
    startsWith ":86:" (" ".intercalate
      (((lines (trimEnd line)).map trim).filter fun l => l ≠ "")) = true := by
  have htag := List.isPrefixOf_iff_prefix.mp h86
  obtain ⟨rest, hrest⟩ := htag
  have hsolid : StartsSolid (trimEnd line) := by
    refine ⟨':', ?_, by decide⟩
    rw [← hrest]
    rfl
  have hne : trimEnd line ≠ "" := by
    intro h
    rw [h] at hrest
    cases hrest
  have hline : '\n' ∉ (trimEnd line).toList := by
    obtain ⟨blank, -, happend⟩ := exists_trimEnd_append line
    rw [happend] at hplain
    exact fun h => hplain (List.mem_append_left _ h)
  have htwice := startsWith_trimEnd ⟨':', rfl, by decide⟩ h86
  have hfilled : trimEnd (trimEnd line) ≠ "" := by
    intro h
    rw [h] at htwice
    exact absurd htwice (by decide)
  rw [lines_singleton hne hline, List.map_singleton, hsolid.trim,
    List.filter_cons_of_pos (by simpa using hfilled), List.filter_nil]
  exact htwice

/-- The name of an entry stands for no name if and only if the `:86:` line has it so. -/
theorem row_payee_eq_unnamed {e : Entry lib} {info : Option String} (hread : e.read = .ok info)
    (ref : Option String) : (e.row ref).payee = unnamed ↔ e.Unnamed := by
  have htext : e.text = info := by rw [Entry.text, hread]; rfl
  rw [Entry.row, htext, Entry.Unnamed]
  cases hinfo : e.info with
  | none =>
    rw [Entry.read, hinfo] at hread
    cases hread
    simp
  | some i =>
    rw [Entry.read, hinfo] at hread
    obtain ⟨h86, -⟩ := e.isInfo i hinfo
    have hparse : parse86 (trimEnd i.1) = .ok info := hread
    obtain ⟨parts, hparts, hparse⟩ := bind_eq_ok.mp hparse
    have hfields : Entry.nameFields (trimEnd i.1) = parts := (nameParts_eq_ok hparts).symm
    simp only [Option.mem_some_iff, forall_eq', hfields]
    have hblank : ' ' ∉ unnamed.toList := by decide
    split at hparse
    · next hnil =>
        have hplain : '\n' ∉ i.1.toList := e.plain i.1 (by rw [hinfo]; simp)
        have hflat := flat_ne_unnamed (startsWith_trimEnd ⟨':', rfl, by decide⟩ h86) hplain
        generalize " ".intercalate (((lines (trimEnd i.1)).map trim).filter fun l => l ≠ "") = flat
          at hflat hparse
        refine iff_of_false (fun h => ?_) (by rw [hnil]; simp)
        have hinfo : (if flat = "" then none else some flat) = info := Except.ok.inj hparse
        by_cases hempty : flat = ""
        · rw [hempty] at hflat
          exact absurd hflat (by decide)
        · rw [if_neg hempty] at hinfo
          rw [← hinfo, Option.getD_some] at h
          rw [h] at hflat
          exact absurd hflat (by decide)
    · next hne =>
        cases hparse
        exact intercalate_eq_iff hblank hne

/-! ## Independence -/

/-- Each entry gives what it gives alone if and only if there is an entry, each `:86:` line can be read,
and supplementary lines that are not blank only follow on entries without a name. -/
theorem independent_iff (header : Header) (es : List (Entry lib)) :
    Independent header es ↔ es ≠ [] ∧
      (∀ e ∈ es, ∀ i ∈ e.info, ¬ Crashes86 (trimEnd i.1)) ∧
      es.IsChain fun e e' => e.Unnamed ∨
        ∀ l ∈ e'.supplementary, ∀ c ∈ l.toList, isWhitespace c = true := by
  obtain ⟨ref, hnil, hcons, herror⟩ := parse_entries lib header
  have hreadable : ∀ e : Entry lib, (∃ info, e.read = .ok info) ↔
      ∀ i ∈ e.info, ¬ Crashes86 (trimEnd i.1) := by
    intro e
    cases hinfo : e.info with
    | none => simp [Entry.read, hinfo]
    | some i =>
      simp only [Entry.read, hinfo, Option.elim_some, Option.mem_some_iff, forall_eq']
      constructor
      · rintro ⟨info, hparse⟩ hcrash
        obtain ⟨x, hx, -⟩ := fails_parse86.mpr hcrash
        rw [hparse] at hx
        cases hx
      · exact exists_parse86
  have halone : ∀ (e : Entry lib) l, parse lib (render header [e]) = .ok [l] ↔
      (∃ info, e.read = .ok info) ∧ l = e.row ref := by
    intro e l
    cases hread : e.read with
    | error x => simp [herror e x hread]
    | ok info =>
      rw [hcons e [] (by simp [hread]), chained]
      simp [eq_comm]
  have hchain : ∀ e (es : List (Entry lib)), (∀ e' ∈ e :: es, ∃ info, e'.read = .ok info) →
      (chained ref (e.row ref) es = (e :: es).map (Entry.row ref) ↔
        (e :: es).IsChain fun e e' => e.Unnamed ∨
          ∀ l ∈ e'.supplementary, ∀ c ∈ l.toList, isWhitespace c = true) := by
    intro e es hread
    rw [chained_eq_map_iff]
    refine List.IsChain.iff_of_mem_imp fun a b ha _ => ?_
    obtain ⟨info, hinfo⟩ := hread a ha
    rw [extendBy_eq_self_iff, row_payee_eq_unnamed hinfo]
    simp only [trim_trimEnd_eq_empty]
  constructor
  · rintro ⟨ls, hparse, hforall⟩
    obtain ⟨hread, hrows⟩ := (List.forall₂_and_left es ls).mp
      (hforall.imp fun e l => (halone e l).mp)
    have hls : ls = es.map (Entry.row ref) := by
      rw [← List.forall₂_eq_eq_eq, List.forall₂_map_right_iff]
      exact hrows.flip
    cases es with
    | nil =>
      rw [hnil] at hparse
      cases hparse
    | cons e es =>
      rw [hcons e es hread, hls, Except.ok.injEq] at hparse
      exact ⟨List.cons_ne_nil e es, fun e' he' => (hreadable e').mp (hread e' he'),
        (hchain e es hread).mp hparse⟩
  · rintro ⟨hne, hread, hall⟩
    obtain ⟨e, es, rfl⟩ := List.exists_cons_of_ne_nil hne
    have hread' : ∀ e' ∈ e :: es, ∃ info, e'.read = .ok info :=
      fun e' he' => (hreadable e').mpr (hread e' he')
    refine ⟨(e :: es).map (Entry.row ref), ?_, ?_⟩
    · rw [hcons e es hread', (hchain e es hread').mpr hall]
    · rw [List.forall₂_map_right_iff, List.forall₂_same]
      exact fun e' he' => (halone e' _).mpr ⟨hread' e' he', rfl⟩

namespace Sample

open StatementUpload.Sample (asciiLibraries)

def header : Header where
  lines := [":20:REF01", ":25:DEUTDEFF/123456"]
  plain := by decide
  noBooking := by decide

theorem year_range : minYear ≤ 2026 ∧ 2026 ≤ maxYear := by decide

theorem august_range : 1 ≤ 8 ∧ 8 ≤ 12 := by decide

theorem acme_day : 1 ≤ 21 ∧ 21 ≤ daysInMonth 2026 8 := by decide

def acme : Entry asciiLibraries where
  booking := ":61:2608210821C100,50"
  booked := (⟨2026, 8, 21, year_range, august_range, acme_day⟩, 201 / 2)
  info := some (":86:?20ACME GMBH?32INVOICE 42", ["?21SUITE 4"])
  plain := by decide
  isBooking := by decide
  reads := by decide +kernel
  isSupplementary := by decide
  isInfo := by decide

/-- A payment with a supplementary line. -/
def kiosk : Entry asciiLibraries where
  booking := ":61:260822D-42,50"
  booked := (⟨2026, 8, 22, year_range, august_range, by decide⟩, -85 / 2)
  supplementary := ["CARD 1234"]
  info := some (":86:?20KIOSK", [])
  plain := by decide
  isBooking := by decide
  reads := by decide +kernel
  isSupplementary := by decide
  isInfo := by decide

/-- The supplementary line of the payment is added to the name of the receipt. -/
theorem not_independent_acme_kiosk : ¬ Independent header [acme, kiosk] := by
  obtain ⟨ref, -, hcons, -⟩ := parse_entries asciiLibraries header
  have hacme : acme.read = .ok (some "ACME GMBH INVOICE 42") := by decide +kernel
  have hkiosk : kiosk.read = .ok (some "KIOSK") := by decide +kernel
  rintro ⟨ls, hparse, hforall⟩
  rw [hcons acme [kiosk] (by simp [hacme, hkiosk]), chained, chained, Except.ok.injEq] at hparse
  subst hparse
  cases hforall with
  | cons halone _ =>
    rw [hcons acme [] (by simp [hacme]), chained, Except.ok.injEq, List.singleton_inj] at halone
    rcases (extendBy_eq_self_iff _ _).mp halone.symm with hname | hblank
    · have hunnamed : "ACME GMBH INVOICE 42" = unnamed := by
        rw [Entry.row, Entry.text, hacme] at hname
        exact hname
      exact absurd hunnamed (by decide)
    · exact absurd (hblank "CARD 1234" (by decide)) (by decide)

end Sample

end OpenAccounting.Import.Statement.Mt940
