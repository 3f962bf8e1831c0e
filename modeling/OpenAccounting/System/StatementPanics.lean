import OpenAccounting.Import.Statement

/-!
# Statement files that crash their parser

The parsers of `import/statement` answer with lines or with a message, except where they slice a
text inside of a character.  OFX cuts a transaction without an end tag behind 4000 bytes, and MT940
slices the fields of its `:61:` and `:86:` lines.  QIF and CAMT do not slice at fixed offsets.
-/

namespace OpenAccounting.StatementPanics

open Commit Import Import.Statement RustStr

/-! ## QIF and CAMT -/

section

variable (lib : Statement.Libraries)

theorem not_fails_parseDate (raw : String) (hint : Qif.DateOrder) :
    ¬ Fails (fun e => e = Failure.panic) (Qif.parseDate lib raw hint) := by
  rw [Qif.parseDate]
  split
  · exact fails_ok
  · refine not_fails_bind (by simp) fun parts _ => not_fails_bind (by simp) fun _ _ =>
      not_fails_bind (not_fails_mapM (by simp)) fun nums _ => ?_
    dsimp only
    split
    · simp
    · exact not_fails_bind (by simp) (by simp)

theorem not_fails_qif_step (hint : Qif.DateOrder) (s : Qif.State) (rawLine : String) :
    ¬ Fails (fun e => e = Failure.panic) (Qif.step lib hint s rawLine) := by
  rw [Qif.step]
  dsimp only
  split_ifs
  · exact fails_ok
  · split
    · exact not_fails_bind (not_fails_parseDate lib _ _) (by simp)
    · exact not_fails_bind (by simp) (by simp)
    · exact fails_ok
    · exact fails_ok
    · rw [Qif.endRecord]
      split
      · exact fails_ok
      · simp
    · exact fails_ok
  · exact fails_ok

theorem not_fails_qif (text : String) (hint : Qif.DateOrder) :
    ¬ Fails (fun e => e = Failure.panic) (Qif.parse lib text hint) :=
  not_fails_bind (not_fails_foldlM (not_fails_qif_step lib hint)) fun s _ =>
    not_fails_bind (by simp) (by simp)

theorem not_fails_camt_block (block : String) :
    ¬ Fails (fun e => e = Failure.panic) (Camt.parseBlock lib block) := by
  rw [Camt.parseBlock]
  refine not_fails_bind (by simp) fun _ _ => not_fails_bind (by simp) fun _ _ =>
    not_fails_bind (by simp) fun _ _ => not_fails_bind (by simp) fun _ _ =>
    not_fails_bind (by simp) (by simp)

theorem not_fails_camt (text : String) :
    ¬ Fails (fun e => e = Failure.panic) (Camt.parse lib text) :=
  not_fails_bind (not_fails_mapM fun block _ => not_fails_camt_block lib block) fun _ _ =>
    not_fails_bind (by simp) (by simp)

end

/-! ## OFX -/

section

open Statement.Ofx

/-- A transaction without an end tag has 4000 bytes at most, or its first 4000 bytes end at the end
of a character. -/
inductive Cuttable : List Char → Prop where
  | done {cs : List Char} (hstart : cutBefore (startsWithTag "<STMTTRN>") cs = none) : Cuttable cs
  | closed {cs before found block rest : List Char}
      (hstart : cutBefore (startsWithTag "<STMTTRN>") cs = some (before, found))
      (hend : cutBefore (startsWithTag "</STMTTRN>") (found.drop 9) = some (block, rest))
      (hrest : Cuttable rest) : Cuttable cs
  | short {cs before found : List Char}
      (hstart : cutBefore (startsWithTag "<STMTTRN>") cs = some (before, found))
      (hopen : cutBefore (startsWithTag "</STMTTRN>") (found.drop 9) = none)
      (hlength : byteLen (found.drop 9) ≤ 4000) : Cuttable cs
  | long {cs before found block rest : List Char}
      (hstart : cutBefore (startsWithTag "<STMTTRN>") cs = some (before, found))
      (hopen : cutBefore (startsWithTag "</STMTTRN>") (found.drop 9) = none)
      (hlength : 4000 < byteLen (found.drop 9))
      (hcut : splitBytes 4000 (found.drop 9) = some (block, rest))
      (hrest : Cuttable rest) : Cuttable cs

variable {cs : List Char}

theorem nextBlock_of_start {before found : List Char}
    (hstart : cutBefore (startsWithTag "<STMTTRN>") cs = some (before, found)) :
    nextBlock cs = some (cutBlock (found.drop 9)) := by
  rw [nextBlock, hstart]
  rfl

theorem cutBlock_closed {block rest : List Char}
    (h : cutBefore (startsWithTag "</STMTTRN>") cs = some (block, rest)) :
    cutBlock cs = some (block, rest) := by
  rw [cutBlock, h]

theorem cutBlock_open (h : cutBefore (startsWithTag "</STMTTRN>") cs = none) :
    cutBlock cs = if byteLen cs ≤ 4000 then some (cs, []) else splitBytes 4000 cs := by
  rw [cutBlock, h]

theorem cuttable_nil : Cuttable [] := .done (by decide)

/-- The first block of a text that can be cut is there, and so are those behind it. -/
theorem Cuttable.next (h : Cuttable cs) :
    nextBlock cs = none ∨ ∃ block rest, nextBlock cs = some (some (block, rest)) ∧
      Cuttable rest := by
  cases h with
  | done hstart => exact Or.inl (by rw [nextBlock, hstart]; rfl)
  | closed hstart hend hrest =>
    exact Or.inr ⟨_, _, by rw [nextBlock_of_start hstart, cutBlock_closed hend], hrest⟩
  | @short _ before found hstart hopen hlength =>
    refine Or.inr ⟨found.drop 9, [], ?_, cuttable_nil⟩
    rw [nextBlock_of_start hstart, cutBlock_open hopen, if_pos hlength]
  | @long _ _ _ block _ hstart hopen hlength hcut hrest =>
    refine Or.inr ⟨block, _, ?_, hrest⟩
    rw [nextBlock_of_start hstart, cutBlock_open hopen, if_neg (by omega), hcut]

theorem cuttable_of_none (h : nextBlock cs = none) : Cuttable cs :=
  .done (Option.map_eq_none_iff.mp h)

theorem cuttable_of_some {block rest : List Char} (h : nextBlock cs = some (some (block, rest)))
    (hrest : Cuttable rest) : Cuttable cs := by
  obtain ⟨⟨before, found⟩, hstart, hblock⟩ := Option.map_eq_some_iff.mp h
  dsimp only at hblock
  cases hend : cutBefore (startsWithTag "</STMTTRN>") (found.drop 9) with
  | some r =>
    rw [cutBlock_closed hend] at hblock
    cases hblock
    exact .closed hstart hend hrest
  | none =>
    rw [cutBlock_open hend] at hblock
    split_ifs at hblock with hlength
    · exact .short hstart hend hlength
    · exact .long hstart hend (by omega) hblock hrest

theorem not_fails_stmttrnBlocks :
    ¬ Fails (fun e => e = Failure.panic) (stmttrnBlocks cs) ↔ Cuttable cs := by
  induction hn : cs.length using Nat.strong_induction_on generalizing cs with
  | _ n ih =>
    match hnext : nextBlock cs with
    | none =>
      rw [stmttrnBlocks_none hnext]
      exact iff_of_true fails_ok (cuttable_of_none hnext)
    | some none =>
      rw [stmttrnBlocks_panic hnext]
      refine iff_of_false (by simp) fun h => ?_
      rcases h.next with hnone | ⟨block, rest, hsome, -⟩
      · rw [hnext] at hnone
        cases hnone
      · rw [hnext] at hsome
        cases hsome
    | some (some (block, rest)) =>
      have hshort := nextBlock_shorter hnext
      rw [stmttrnBlocks_some hnext, fails_map, ih rest.length (hn ▸ hshort) rfl]
      refine ⟨cuttable_of_some hnext, fun h => ?_⟩
      rcases h.next with hnone | ⟨block', rest', hsome, hrest⟩
      · rw [hnext] at hnone
        cases hnone
      · rw [hnext] at hsome
        cases hsome
        exact hrest

theorem not_fails_ofx_block (lib : Statement.Libraries) (block : String) :
    ¬ Fails (fun e => e = Failure.panic) (parseBlock lib block) := by
  rw [parseBlock]
  refine not_fails_bind (by simp) fun _ _ => not_fails_bind (by simp) fun _ _ =>
    not_fails_bind (by simp) fun _ _ => not_fails_bind (by simp) (by simp)

theorem not_fails_ofx (lib : Statement.Libraries) (text : String) :
    ¬ Fails (fun e => e = Failure.panic) (Ofx.parse lib text) ↔ Cuttable text.toList := by
  rw [← not_fails_stmttrnBlocks, Ofx.parse, fails_bind, not_or]
  refine and_iff_left ?_
  rintro ⟨blocks, -, h⟩
  exact not_fails_bind (not_fails_mapM fun block _ => not_fails_ofx_block lib block)
    (fun _ _ => not_fails_bind (by simp) (by simp)) h

end

/-! ## MT940 -/

section

open Statement.Mt940 Calendar

/-- A `:61:` line has a date, with the text behind it. -/
inductive Dated (line : String) : List Char → Prop where
  | intro {yy mm dd body tail rest : List Char} {year : ℤ} {month day : ℕ}
      (hlength : 10 ≤ byteLen (trimTag '6' '1' line.toList))
      (hyy : splitBytes 2 (trimTag '6' '1' line.toList) = some (yy, body))
      (hyear : parseInt (String.ofList yy) = some year)
      (hmm : splitBytes 2 body = some (mm, tail))
      (hmonth : parseU32 (String.ofList mm) = some month)
      (hdd : splitBytes 2 tail = some (dd, rest))
      (hday : parseU32 (String.ofList dd) = some day)
      (hvalid : NaiveDate.fromYmdOpt (2000 + year) month day ≠ none) : Dated line rest

/-- A `:61:` line of ten bytes or more that is sliced inside of a character: in its year, its month,
its day, or right behind the start of its funds code. -/
inductive Crashes61 (line : String) : Prop where
  | year (hlength : 10 ≤ byteLen (trimTag '6' '1' line.toList))
      (hyy : splitBytes 2 (trimTag '6' '1' line.toList) = none)
  | month {yy body : List Char} (hlength : 10 ≤ byteLen (trimTag '6' '1' line.toList))
      (hyy : splitBytes 2 (trimTag '6' '1' line.toList) = some (yy, body))
      (hyear : parseInt (String.ofList yy) ≠ none) (hmm : splitBytes 2 body = none)
  | day {yy mm body tail : List Char} (hlength : 10 ≤ byteLen (trimTag '6' '1' line.toList))
      (hyy : splitBytes 2 (trimTag '6' '1' line.toList) = some (yy, body))
      (hyear : parseInt (String.ofList yy) ≠ none) (hmm : splitBytes 2 body = some (mm, tail))
      (hmonth : parseU32 (String.ofList mm) ≠ none) (hdd : splitBytes 2 tail = none)
  | funds {rest : List Char} {c : Char} (hdate : Dated line rest)
      (hfunds : (skipEntryDate rest).head? = some c)
      (hcut : splitBytes 1 (skipEntryDate rest) = none)

/-- The digits of the amount behind the funds code. -/
def amountDigits (cs : List Char) : List Char :=
  (cs.dropWhile fun c => c = '-').takeWhile fun c => c.isDigit || c = ','

/-- A `:61:` line has a date, a funds code and an amount. -/
inductive Reads61 (lib : Statement.Libraries) (line : String) : Prop where
  | intro {rest code digits : List Char} {c : Char} (hdate : Dated line rest)
      (hfunds : (skipEntryDate rest).head? = some c)
      (hcut : splitBytes 1 (skipEntryDate rest) = some (code, digits))
      (hdigits : amountDigits digits ≠ [])
      (hamount : lib.parseDecimal
        (String.ofList ((amountDigits digits).map fun c => if c = ',' then '.' else c)) ≠ none)
      (hsign : c = 'C' ∨ c = 'c' ∨ c = 'D' ∨ c = 'd')

/-- A `:86:` line has a segment of three bytes or more whose code ends inside of a character. -/
def Crashes86 (line : String) : Prop :=
  ∃ segment ∈ split '?' line, 3 ≤ byteLen (trim segment).toList ∧
    splitBytes 2 (trim segment).toList = none

theorem fails_take2 {cs : List Char} :
    Fails (fun e => e = Failure.panic) (take2 cs) ↔ splitBytes 2 cs = none := by
  simp [take2]

theorem take2_eq_ok {cs : List Char} {r : String × List Char} :
    take2 cs = .ok r ↔ ∃ code, splitBytes 2 cs = some (code, r.2) ∧ r.1 = String.ofList code := by
  rw [take2]
  cases splitBytes 2 cs with
  | none => simp [okOr, Except.map]
  | some s => simp [okOr, Except.map, Prod.ext_iff, and_comm, eq_comm]

variable {lib : Statement.Libraries} {line : String}

theorem fails_parse61 : Fails (fun e => e = Failure.panic) (parse61 lib line) ↔ Crashes61 line := by
  have hsigned : ∀ (c : Char) (date : NaiveDate) (value : ℚ), ¬ Fails (fun e => e = Failure.panic)
      (if c = 'C' ∨ c = 'c' then .ok (date, value)
        else if c = 'D' ∨ c = 'd' then .ok (date, -value)
        else .error (.message s!"unknown funds code '{c}'") : Except Failure (NaiveDate × ℚ)) := by
    intro c date value
    split_ifs <;> simp
  simp only [parse61, fails_bind, fails_ensure, fails_okOr, fails_take2, ensure_eq_ok, okOr_eq_ok,
    take2_eq_ok, hsigned, reduceCtorEq, and_false, false_or, or_false, and_true, exists_false,
    exists_const]
  constructor
  · rintro ⟨hlength, hyy | ⟨⟨_, body⟩, ⟨yy, hyy, rfl⟩, year, hyear, hmonth⟩⟩
    · exact .year hlength hyy
    rcases hmonth with hmm | ⟨⟨_, tail⟩, ⟨mm, hmm, rfl⟩, month, hmonth, hday⟩
    · exact .month hlength hyy (by rw [hyear]; simp) hmm
    rcases hday with hdd | ⟨⟨_, rest⟩, ⟨dd, hdd, rfl⟩, day, hday, date, hvalid, c, hc, hcut⟩
    · exact .day hlength hyy (by rw [hyear]; simp) hmm (by rw [hmonth]; simp) hdd
    · exact .funds (.intro hlength hyy hyear hmm hmonth hdd hday (by rw [hvalid]; simp)) hc hcut
  · rintro (⟨hlength, hyy⟩ | ⟨hlength, hyy, hyear, hmm⟩ | ⟨hlength, hyy, hyear, hmm, hmonth, hdd⟩ |
      ⟨⟨hlength, hyy, hyear, hmm, hmonth, hdd, hday, hvalid⟩, hc, hcut⟩)
    · exact ⟨hlength, Or.inl hyy⟩
    · obtain ⟨year, hyear⟩ := Option.ne_none_iff_exists'.mp hyear
      exact ⟨hlength, Or.inr ⟨(_, _), ⟨_, hyy, rfl⟩, year, hyear, Or.inl hmm⟩⟩
    · obtain ⟨year, hyear⟩ := Option.ne_none_iff_exists'.mp hyear
      obtain ⟨month, hmonth⟩ := Option.ne_none_iff_exists'.mp hmonth
      exact ⟨hlength, Or.inr ⟨(_, _), ⟨_, hyy, rfl⟩, year, hyear,
        Or.inr ⟨(_, _), ⟨_, hmm, rfl⟩, month, hmonth, Or.inl hdd⟩⟩⟩
    · obtain ⟨date, hvalid⟩ := Option.ne_none_iff_exists'.mp hvalid
      exact ⟨hlength, Or.inr ⟨(_, _), ⟨_, hyy, rfl⟩, _, hyear,
        Or.inr ⟨(_, _), ⟨_, hmm, rfl⟩, _, hmonth,
          Or.inr ⟨(_, _), ⟨_, hdd, rfl⟩, _, hday, date, hvalid, _, hc, hcut⟩⟩⟩⟩

/-- The entry of a `:61:` line is read if and only if its parts can be. -/
theorem parse61_eq_ok : (∃ entry, parse61 lib line = .ok entry) ↔ Reads61 lib line := by
  have hsigned : ∀ (c : Char) (date : NaiveDate) (value : ℚ),
      (∃ entry, (if c = 'C' ∨ c = 'c' then .ok (date, value)
        else if c = 'D' ∨ c = 'd' then .ok (date, -value)
        else .error (.message s!"unknown funds code '{c}'") : Except Failure (NaiveDate × ℚ)) =
          .ok entry) ↔ c = 'C' ∨ c = 'c' ∨ c = 'D' ∨ c = 'd' := by
    intro c date value
    split_ifs with hcredit hdebit
    · exact iff_of_true ⟨_, rfl⟩ (by tauto)
    · exact iff_of_true ⟨_, rfl⟩ (by tauto)
    · exact iff_of_false (by simp) (by tauto)
  constructor
  · rintro ⟨entry, h⟩
    simp only [parse61, bind_eq_ok, ensure_eq_ok, okOr_eq_ok, take2_eq_ok, exists_const] at h
    obtain ⟨hlength, ⟨_, body⟩, ⟨yy, hyy, rfl⟩, year, hyear, ⟨_, tail⟩, ⟨mm, hmm, rfl⟩, month,
      hmonth, ⟨_, rest⟩, ⟨dd, hdd, rfl⟩, day, hday, date, hvalid, c, hc, ⟨code, digits⟩, hcut,
      hdigits, value, hvalue, hsign⟩ := h
    have hdate : Dated line rest :=
      .intro hlength hyy hyear hmm hmonth hdd hday (by rw [hvalid]; simp)
    exact .intro hdate hc hcut hdigits (by rw [amountDigits, hvalue]; simp)
      ((hsigned c date value).mp ⟨entry, hsign⟩)
  · rintro ⟨⟨hlength, hyy, hyear, hmm, hmonth, hdd, hday, hvalid⟩, hc, hcut, hdigits, hamount,
      hsign⟩
    obtain ⟨date, hvalid⟩ := Option.ne_none_iff_exists'.mp hvalid
    obtain ⟨value, hvalue⟩ := Option.ne_none_iff_exists'.mp hamount
    obtain ⟨entry, hentry⟩ := (hsigned _ date value).mpr hsign
    refine ⟨entry, ?_⟩
    simp only [parse61, bind_eq_ok, ensure_eq_ok, okOr_eq_ok, take2_eq_ok, exists_const]
    exact ⟨hlength, (_, _), ⟨_, hyy, rfl⟩, _, hyear, (_, _), ⟨_, hmm, rfl⟩, _, hmonth, (_, _),
      ⟨_, hdd, rfl⟩, _, hday, date, hvalid, _, hc, (_, _), hcut, hdigits, value, hvalue, hentry⟩

theorem fails_nameParts {segments : List String} :
    Fails (fun e => e = Failure.panic) (nameParts segments) ↔ ∃ segment ∈ segments,
      3 ≤ byteLen (trim segment).toList ∧ splitBytes 2 (trim segment).toList = none := by
  induction segments with
  | nil => simp [nameParts]
  | cons segment segments ih =>
    simp only [nameParts, List.mem_cons, exists_eq_or_imp]
    split_ifs with hshort
    · have hshort' : ¬ 3 ≤ byteLen (trim segment).toList := by omega
      simp only [ih, hshort', false_and, false_or]
    · have hlong : 3 ≤ byteLen (trim segment).toList := by omega
      simp only [fails_bind, fails_take2, fails_ok, and_false, exists_false, or_false, ih, hlong,
        true_and]
      cases hcut : splitBytes 2 (trim segment).toList with
      | none => simp
      | some r =>
        have htake : take2 (trim segment).toList = .ok (String.ofList r.1, r.2) :=
          take2_eq_ok.mpr ⟨r.1, hcut, rfl⟩
        simp [htake]

theorem fails_parse86 : Fails (fun e => e = Failure.panic) (parse86 line) ↔ Crashes86 line := by
  rw [parse86, fails_bind, fails_nameParts]
  refine or_iff_left ?_
  rintro ⟨parts, -, h⟩
  split_ifs at h <;> simp at h

theorem nameParts_error {segments : List String} {e : Failure}
    (h : nameParts segments = .error e) : e = .panic := by
  induction segments with
  | nil => cases h
  | cons segment segments ih =>
    simp only [nameParts] at h
    split_ifs at h
    · exact ih h
    · cases hcut : splitBytes 2 (trim segment).toList with
      | none =>
        rw [take2, hcut] at h
        cases h
        rfl
      | some r =>
        rw [take2, hcut] at h
        cases hparts : nameParts segments with
        | error e' =>
          rw [hparts] at h
          cases h
          exact ih hparts
        | ok parts =>
          rw [hparts] at h
          cases h

theorem exists_parse86 (h : ¬ Crashes86 line) : ∃ info, parse86 line = .ok info := by
  rw [← fails_parse86, fails_iff_of_forall, not_not] at h
  · exact h
  · intro e he
    rw [parse86] at he
    cases hparts : nameParts (split '?' line) with
    | error e' =>
      rw [hparts] at he
      cases he
      exact nameParts_error hparts
    | ok parts =>
      rw [hparts, ok_bind] at he
      split_ifs at he

/-- Whether an entry is pending behind a line, if the line decides it. -/
def mark (raw : String) : Option Bool :=
  if startsWith ":61:" (trimEnd raw) then some true
  else if startsWith ":86:" (trimEnd raw) then some false
  else none

/-- An entry is pending behind the lines. -/
def pendingFrom (b : Bool) (lines : List String) : Bool :=
  lines.foldl (fun b raw => (mark raw).getD b) b

/-- The line is sliced inside of a character.  A `:86:` line is read only if an entry is pending. -/
def Crashes (pending : Bool) (raw : String) : Prop :=
  startsWith ":61:" (trimEnd raw) = true ∧ Crashes61 (trimEnd raw) ∨
    pending = true ∧ startsWith ":86:" (trimEnd raw) = true ∧ Crashes86 (trimEnd raw)

/-- The line is read, if it is a `:61:` line. -/
def Reads (lib : Statement.Libraries) (raw : String) : Prop :=
  startsWith ":61:" (trimEnd raw) = true → Reads61 lib (trimEnd raw)

/-- A step panics if and only if its line crashes. -/
theorem fails_step {s : State} {raw : String} :
    Fails (fun e => e = Failure.panic) (step lib s raw) ↔ Crashes s.pending.isSome raw := by
  simp only [step, Crashes]
  split_ifs with hreference hentry hinfo hnone hnext
  · have h61 : ¬ startsWith ":61:" (trimEnd raw) = true :=
      not_startsWith_both (by decide) hreference
    have h86 : ¬ startsWith ":86:" (trimEnd raw) = true :=
      not_startsWith_both (by decide) hreference
    simp [h61, h86]
  · have h86 : ¬ startsWith ":86:" (trimEnd raw) = true :=
      not_startsWith_both (by decide) hentry
    simp [fails_bind, fails_parse61, hentry, h86]
  · simp [hentry, hnone]
  · simp [fails_bind, fails_parse86, hentry, hinfo, Option.isSome_iff_ne_none, hnone]
  · simp [hentry, hinfo]
  · simp [hentry, hinfo]

theorem step_eq_ok {s : State} {raw : String} (h : ¬ Crashes s.pending.isSome raw) :
    (∃ t, step lib s raw = .ok t) ↔ Reads lib raw := by
  simp only [step, Reads]
  split_ifs with hreference hentry hinfo hnone hnext
  · have h61 : ¬ startsWith ":61:" (trimEnd raw) = true :=
      not_startsWith_both (by decide) hreference
    exact iff_of_true ⟨_, rfl⟩ fun h => absurd h h61
  · simp only [bind_eq_ok, Except.ok.injEq, hentry, forall_const, ← parse61_eq_ok]
    exact ⟨fun ⟨_, entry, h, _⟩ => ⟨entry, h⟩, fun ⟨entry, h⟩ => ⟨_, entry, h, rfl⟩⟩
  · exact iff_of_true ⟨_, rfl⟩ fun h => absurd h hentry
  · have hpending : s.pending.isSome = true := Option.isSome_iff_ne_none.mpr hnone
    obtain ⟨info, hparse⟩ := exists_parse86 fun hcrash => h (Or.inr ⟨hpending, hinfo, hcrash⟩)
    exact iff_of_true ⟨_, by rw [hparse, ok_bind]⟩ fun h => absurd h hentry
  · exact iff_of_true ⟨_, rfl⟩ fun h => absurd h hentry
  · exact iff_of_true ⟨_, rfl⟩ fun h => absurd h hentry

theorem step_pending {s t : State} {raw : String} (h : step lib s raw = .ok t) :
    t.pending.isSome = (mark raw).getD s.pending.isSome := by
  simp only [step] at h
  simp only [mark]
  split_ifs at h with hreference hentry hinfo hnone hnext
  · have h61 : ¬ startsWith ":61:" (trimEnd raw) = true :=
      not_startsWith_both (by decide) hreference
    have h86 : ¬ startsWith ":86:" (trimEnd raw) = true :=
      not_startsWith_both (by decide) hreference
    cases h
    simp [h61, h86]
  · obtain ⟨entry, -, h⟩ := bind_eq_ok.mp h
    cases h
    simp [hentry]
  · cases h
    simp [hentry, hinfo, hnone]
  · obtain ⟨info, -, h⟩ := bind_eq_ok.mp h
    cases h
    simp [hentry, hinfo, State.flush]
  · cases h
    simp [hentry, hinfo]
  · cases h
    simp [hentry, hinfo]

/-- What the parser of MT940 asks of a text: behind `:61:` lines that are read, no line crashes. -/
def Mt940Readable (lib : Statement.Libraries) (text : String) : Prop :=
  ∀ before line after, lines text = before ++ line :: after → (∀ raw ∈ before, Reads lib raw) →
    ¬ Crashes (pendingFrom false before) line

theorem not_fails_mt940 {text : String} :
    ¬ Fails (fun e => e = Failure.panic) (Statement.Mt940.parse lib text) ↔
      Mt940Readable lib text := by
  have hfold : Fails (fun e => e = Failure.panic) ((lines text).foldlM (step lib) {}) ↔
      ∃ before raw after, lines text = before ++ raw :: after ∧ (∀ r ∈ before, Reads lib r) ∧
        Crashes (pendingFrom false before) raw :=
    fails_foldlM_iff (fun s : State => s.pending.isSome) (fun b raw => (mark raw).getD b) Crashes
      (fun s raw => fails_step) (fun s raw => step_eq_ok) fun s raw t => step_pending
  have hparse : Fails (fun e => e = Failure.panic) (Statement.Mt940.parse lib text) ↔
      Fails (fun e => e = Failure.panic) ((lines text).foldlM (step lib) {}) := by
    rw [Statement.Mt940.parse, fails_bind]
    refine or_iff_left ?_
    rintro ⟨s, -, h⟩
    exact not_fails_bind (by simp) (by simp) h
  rw [hparse, hfold, Mt940Readable]
  constructor
  · intro h before raw after heq hreads hcrash
    exact h ⟨before, raw, after, heq, hreads, hcrash⟩
  · rintro h ⟨before, raw, after, heq, hreads, hcrash⟩
    exact h before raw after heq hreads hcrash

end

/-! ## Formats -/

/-- What the parser of a format asks of a text. -/
def Readable (lib : Statement.Libraries) : Format → String → Prop
  | .ofx, text => Cuttable text.toList
  | .qbo, text => Cuttable text.toList
  | .qif, _ => True
  | .camt, _ => True
  | .mt940, text => Mt940Readable lib text

/-- A statement is parsed into lines or a message exactly when it can be sliced. -/
theorem parse_ne_panic_iff (lib : Statement.Libraries) (format : Format) (text : String)
    (qifDateOrder : Qif.DateOrder) :
    Statement.parse lib format text qifDateOrder ≠ .error .panic ↔ Readable lib format text := by
  rw [Ne, ← fails_eq_iff]
  cases format with
  | ofx => exact not_fails_ofx lib text
  | qbo =>
    have hqbo : ∀ e, Failure.qbo e = .panic ↔ e = .panic := by
      intro e
      cases e <;> simp [Failure.qbo]
    rw [Statement.parse, fails_mapError]
    simp only [hqbo]
    exact not_fails_ofx lib text
  | qif => exact iff_of_true (not_fails_qif lib text qifDateOrder) trivial
  | camt => exact iff_of_true (not_fails_camt lib text) trivial
  | mt940 => exact not_fails_mt940

/-- Libraries that read nothing. -/
def emptyLibraries : Statement.Libraries where
  parseDate _ := none
  parseDecimal _ := none
  isAlphanumeric _ := false
  toLowercase c := [c]
  lower s := s
  infer _ := none
  csvRecords _ := .ok []

/-- The year of the entry ends inside of a character. -/
theorem parse_split_year :
    Statement.parse emptyLibraries .mt940 ":61:2é01010101D5,00" .us = .error .panic := by
  rfl

end OpenAccounting.StatementPanics
