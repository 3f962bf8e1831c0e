import OpenAccounting.System.StatementImport

/-!
# Records of a QIF statement

The fields of a record are collected in local variables until `^` ends it.  At the end of a record
all of them are as they were at its start, so that each record is read as if it were alone.
-/

namespace OpenAccounting.Import.Statement.Qif

open Commit RustStr

/-! ## Records -/

/-- A line of a record, with what is behind its letter. -/
inductive Field where
  | date (value : String)
  | amount (value : String)
  | payee (value : String)
  | memo (value : String)

namespace Field

def letter : Field → Char
  | date _ => 'D'
  | amount _ => 'T'
  | payee _ => 'P'
  | memo _ => 'M'

def value : Field → String
  | date v | amount v | payee v | memo v => v

def line (f : Field) : String := String.ofList (f.letter :: f.value.toList)

/-- The date or the amount can be read.  White space at the end of a line is not looked at. -/
def Readable (lib : Libraries) (hint : DateOrder) : Field → Prop
  | date v => ∃ d, parseDate lib (trimEnd v) hint = .ok d
  | amount v => ∃ a, lib.parseDecimal
      (String.ofList ((trimEnd v).toList.filter fun c => c != ',' && isAsciiGraphic c)) = some a
  | payee _ => True
  | memo _ => True

end Field

/-- Fields in any order, of which one is a date and one an amount. -/
structure Record (lib : Libraries) (hint : DateOrder) where
  fields : List Field
  plain : ∀ f ∈ fields, '\n' ∉ f.value.toList
  readable : ∀ f ∈ fields, f.Readable lib hint
  dated : ∃ v, Field.date v ∈ fields
  priced : ∃ v, Field.amount v ∈ fields

variable {lib : Libraries} {hint : DateOrder}

def Record.lines (r : Record lib hint) : List String := r.fields.map Field.line ++ ["^"]

/-- The text of records. -/
def render (rs : List (Record lib hint)) : String :=
  unlines ("!Type:Bank" :: rs.flatMap Record.lines)

/-! ## One field -/

theorem trimEnd_line (f : Field) :
    trimEnd f.line = String.ofList (f.letter :: (trimEnd f.value).toList) := by
  have hsolid : EndsSolid (String.ofList [f.letter]) := by
    refine ⟨f.letter, by simp, ?_⟩
    cases f <;> rfl
  have hline : f.line = String.ofList [f.letter] ++ f.value := by
    rw [← String.toList_inj]
    simp [Field.line]
  rw [hline, hsolid.trimEnd_append, ← String.toList_inj]
  simp

theorem step_withoutCr (s : State) (l : String) :
    step lib hint s (withoutCr l) = step lib hint s l := by
  rw [step, step, trimEnd_withoutCr]

/-- A field leaves the statement lines as they are, and it is read without a look at them. -/
theorem step_field {f : Field} (hf : f.Readable lib hint) {s : State}
    (hs : s.inBankSection = true) :
    ∃ s' : State, (∀ out, step lib hint { s with out := out } f.line = .ok { s' with out := out }) ∧
      s'.inBankSection = true ∧
      (s.date ≠ none ∨ (∃ v, f = .date v) → s'.date ≠ none) ∧
      (s.amount ≠ none ∨ (∃ v, f = .amount v) → s'.amount ≠ none) := by
  cases f with
  | date v =>
    obtain ⟨d, hd⟩ := hf
    refine ⟨{ s with date := some d }, fun out => ?_, hs, by simp, by simp⟩
    rw [step, trimEnd_line]
    simp [RustStr.startsWith, Field.letter, Field.value, hs, hd, ok_bind]
  | amount v =>
    obtain ⟨a, ha⟩ := hf
    refine ⟨{ s with amount := some a }, fun out => ?_, hs, by simp, by simp⟩
    rw [step, trimEnd_line]
    simp [RustStr.startsWith, Field.letter, Field.value, hs, ha, okOr, ok_bind]
  | payee v =>
    refine ⟨{ s with payee := trim (trimEnd v) }, fun out => ?_, hs, by simp, by simp⟩
    rw [step, trimEnd_line]
    simp [RustStr.startsWith, Field.letter, Field.value, hs]
  | memo v =>
    refine ⟨{ s with memo := some (trim (trimEnd v)) }, fun out => ?_, hs, by simp, by simp⟩
    rw [step, trimEnd_line]
    simp [RustStr.startsWith, Field.letter, Field.value, hs]

theorem foldlM_fields {fields : List Field} (hfields : ∀ f ∈ fields, f.Readable lib hint) {s : State}
    (hs : s.inBankSection = true) :
    ∃ s' : State, (∀ out, (fields.map Field.line).foldlM (step lib hint) { s with out := out } =
        .ok { s' with out := out }) ∧
      s'.inBankSection = true ∧
      (s.date ≠ none ∨ (∃ v, Field.date v ∈ fields) → s'.date ≠ none) ∧
      (s.amount ≠ none ∨ (∃ v, Field.amount v ∈ fields) → s'.amount ≠ none) := by
  induction fields generalizing s with
  | nil => exact ⟨s, fun _ => rfl, hs, by simp, by simp⟩
  | cons f fields ih =>
    obtain ⟨hf, hrest⟩ := List.forall_mem_cons.mp hfields
    obtain ⟨t, hstep, ht, hdate, hamount⟩ := step_field hf hs
    obtain ⟨s', hrun, hs', hdate', hamount'⟩ := ih hrest ht
    refine ⟨s', fun out => ?_, hs', fun h => hdate' ?_, fun h => hamount' ?_⟩
    · rw [List.map_cons, List.foldlM_cons, hstep, ok_bind]
      exact hrun out
    · rcases h with h | ⟨v, hv⟩
      · exact .inl (hdate (.inl h))
      · rcases List.mem_cons.mp hv with hv | hv
        · exact .inl (hdate (.inr ⟨v, hv.symm⟩))
        · exact .inr ⟨v, hv⟩
    · rcases h with h | ⟨v, hv⟩
      · exact .inl (hamount (.inl h))
      · rcases List.mem_cons.mp hv with hv | hv
        · exact .inl (hamount (.inr ⟨v, hv.symm⟩))
        · exact .inr ⟨v, hv⟩

/-! ## Records one after the other -/

/-- The local variables at the start of a record. -/
def atStart (out : List StatementLine) : State := { out := out, inBankSection := true }

/-- A record adds a line, whatever lines there are, and leaves nothing else behind. -/
theorem foldlM_record (r : Record lib hint) :
    ∃ l, ∀ out, r.lines.foldlM (step lib hint) (atStart out) = .ok (atStart (out ++ [l])) := by
  obtain ⟨s, hrun, hs, hdate, hamount⟩ := foldlM_fields (s := atStart []) r.readable rfl
  obtain ⟨d, hd⟩ := Option.ne_none_iff_exists'.mp (hdate (.inr r.dated))
  obtain ⟨a, ha⟩ := Option.ne_none_iff_exists'.mp (hamount (.inr r.priced))
  refine ⟨{ date := d, amount := a, payee := if s.payee = "" then unnamed else s.payee
            memo := s.memo }, fun out => ?_⟩
  have hfields : (r.fields.map Field.line).foldlM (step lib hint) (atStart out) =
      .ok { s with out := out } := hrun out
  rw [Record.lines, foldlM_concat hfields]
  have htrim : trimEnd "^" = "^" := by decide
  have hcaret : "^".toList = ['^'] := rfl
  have hend : step lib hint { s with out := out } "^" = endRecord { s with out := out } := by
    rw [step, htrim]
    simp [RustStr.startsWith, hcaret, hs]
  rw [hend, endRecord]
  simp only [hd, ha, hs]
  rfl

theorem parse_render (rs : List (Record lib hint)) :
    parse lib (render rs) hint =
      ((rs.flatMap Record.lines).foldlM (step lib hint) (atStart []) >>= fun s =>
        ensure (s.out ≠ []) (.message "no QIF transactions found") >>= fun _ => .ok s.out) := by
  have hplain : ∀ l ∈ "!Type:Bank" :: rs.flatMap Record.lines, '\n' ∉ l.toList := by
    intro l hl
    rcases List.mem_cons.mp hl with rfl | hl
    · decide
    · obtain ⟨r, -, hl⟩ := List.mem_flatMap.mp hl
      rcases List.mem_append.mp hl with hl | hl
      · obtain ⟨f, hf, rfl⟩ := List.mem_map.mp hl
        have hletter : f.letter ≠ '\n' := by cases f <;> simp [Field.letter]
        rw [Field.line, String.toList_ofList, List.mem_cons, not_or]
        exact ⟨hletter.symm, r.plain f hf⟩
      · rw [List.mem_singleton.mp hl]
        decide
  have hheader : step lib hint {} "!Type:Bank" = .ok (atStart []) := by
    have hbang : RustStr.startsWith "!" (trimEnd "!Type:Bank") = true := by decide
    rw [step, if_pos hbang]
    rfl
  rw [parse, render, lines_unlines_withoutCr hplain, List.foldlM_map]
  simp only [step_withoutCr]
  rw [List.foldlM_cons, hheader, ok_bind]

/-- Each record is read as one line, whatever records there are around it. -/
theorem exists_line (lib : Libraries) (hint : DateOrder) :
    ∃ line : Record lib hint → StatementLine, ∀ rs, rs ≠ [] →
      parse lib (render rs) hint = .ok (rs.map line) := by
  choose line hline using fun r : Record lib hint => foldlM_record r
  have hrun : ∀ (rs : List (Record lib hint)) out,
      (rs.flatMap Record.lines).foldlM (step lib hint) (atStart out) =
        .ok (atStart (out ++ rs.map line)) := by
    intro rs
    induction rs with
    | nil =>
      intro out
      rw [List.map_nil, List.append_nil]
      rfl
    | cons r rs ih =>
      intro out
      rw [List.flatMap_cons, List.foldlM_append, hline, ok_bind, ih, List.map_cons,
        List.append_assoc]
      rfl
  refine ⟨line, fun rs hne => ?_⟩
  have hmap : rs.map line ≠ [] := fun h => hne (List.map_eq_nil_iff.mp h)
  rw [parse_render, hrun, ok_bind, List.nil_append, ensure]
  exact (congrArg (· >>= _) (if_pos hmap)).trans rfl

/-- A list of records is read as the concatenation of what its records are read as alone. -/
theorem parse_concat (lib : Libraries) (hint : DateOrder) {rs : List (Record lib hint)}
    (hne : rs ≠ []) :
    ∃ alone, rs.mapM (fun r => parse lib (render [r]) hint) = .ok alone ∧
      parse lib (render rs) hint = .ok alone.flatten := by
  obtain ⟨line, hline⟩ := exists_line lib hint
  have halone : ∀ r : Record lib hint, parse lib (render [r]) hint = .ok [line r] :=
    fun r => hline [r] (List.cons_ne_nil r [])
  refine ⟨rs.map fun r => [line r], ?_, ?_⟩
  · simp only [halone]
    exact List.mapM_pure
  · rw [hline rs hne, ← List.flatMap_def, ← List.map_eq_flatMap]

namespace Sample

open StatementUpload.Sample (asciiLibraries)

def supplies : Record asciiLibraries .eu where
  fields := [.date "2026-07-01", .amount "-42.50", .payee "ACME GmbH", .memo "Office supplies"]
  plain := by decide
  readable := by
    simp only [List.forall_mem_cons, List.not_mem_nil, false_implies, implies_true, and_true,
      Field.Readable]
    exact ⟨⟨_, rfl⟩, ⟨_, rfl⟩⟩
  dated := ⟨"2026-07-01", by simp⟩
  priced := ⟨"-42.50", by simp⟩

/-- A withdrawal without payee and memo. -/
def withdrawal : Record asciiLibraries .eu where
  fields := [.amount "-20.00", .date "2026-07-02"]
  plain := by decide
  readable := by
    simp only [List.forall_mem_cons, List.not_mem_nil, false_implies, implies_true, and_true,
      Field.Readable]
    exact ⟨⟨_, rfl⟩, ⟨_, rfl⟩⟩
  dated := ⟨"2026-07-02", by simp⟩
  priced := ⟨"-20.00", by simp⟩

/-- The withdrawal gets neither the payee nor the memo of the payment before it. -/
theorem parse_concat_supplies :
    ∃ alone, [supplies, withdrawal].mapM (fun r => parse asciiLibraries (render [r]) .eu) =
        .ok alone ∧
      parse asciiLibraries (render [supplies, withdrawal]) .eu = .ok alone.flatten ∧
      alone.flatten.map (fun l => (l.payee, l.memo)) =
        [("ACME GmbH", some "Office supplies"), (unnamed, none)] := by
  obtain ⟨alone, halone, hparse⟩ :=
    parse_concat asciiLibraries .eu (List.cons_ne_nil supplies [withdrawal])
  have hfields : ([supplies, withdrawal].mapM fun r => parse asciiLibraries (render [r]) .eu).map
      (fun alone => alone.flatten.map fun l => (l.payee, l.memo)) =
        .ok [("ACME GmbH", some "Office supplies"), (unnamed, none)] := by
    decide +kernel
  rw [halone] at hfields
  exact ⟨alone, halone, hparse, Except.ok.inj hfields⟩

/-- A text without records is refused. -/
theorem not_parse_concat_nil :
    ¬ ∃ alone, ([] : List (Record asciiLibraries .eu)).mapM
          (fun r => parse asciiLibraries (render [r]) .eu) = .ok alone ∧
        parse asciiLibraries (render ([] : List (Record asciiLibraries .eu))) .eu =
          .ok alone.flatten := by
  rintro ⟨alone, -, hparse⟩
  rw [parse_render] at hparse
  cases hparse

end Sample

end OpenAccounting.Import.Statement.Qif
