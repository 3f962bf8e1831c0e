import OpenAccounting.System.StatementImport

/-!
# Payees that are normalized twice

Both importers compare payees in a normal form.  The one of `dedup.rs` removes its literals one after
the other, so that the removal of one can bring another together whose turn has passed.  The one of
`statement/mod.rs` looks at the class of a character before it lowers it, and what a letter is
lowered to need not be one.

`idempotent_iff` says of which payees the normal form is its own.
-/

namespace OpenAccounting.PayeeNames

open Import Statement Dedup Removal RustStr

/-- The literals, character by character. -/
def patterns : List (List Char) := literals.map String.toList

theorem patterns_eq : patterns =
    [['微', '信'], ['支', '付', '宝'], ['('], [')'], ['有', '限', '公', '司']] := by
  simp [patterns, literals]

theorem separate_patterns : Separate patterns := by
  rw [patterns_eq]
  exact {}

theorem solid_patterns : ∀ p ∈ patterns, ∀ c ∈ p, isWhitespace c = false := by
  rw [patterns_eq]
  decide

/-- What Unicode says of lower case. -/
structure Lawful (lib : Statement.Libraries) : Prop where
  lower_lower : ∀ c, ∀ d ∈ lib.toLowercase c, lib.toLowercase d = [d]
  filled : ∀ c, lib.toLowercase c ≠ []
  sigma : lib.toLowercase 'Σ' = ['σ']
  final_sigma : lib.toLowercase 'ς' = ['ς']
  blank : lib.toLowercase ' ' = [' ']
  not_letter_blank : lib.isAlphanumeric ' ' = false
  caseless : ∀ p ∈ patterns, ∀ d ∈ p, ∀ c, d ∈ lib.toLowercase c ↔ c = d
  solid : ∀ c, lib.isAlphanumeric c = true → ∀ d ∈ lib.toLowercase c, isWhitespace d = false

/-! ## Lower case -/

section

variable {lib : Statement.Libraries} (casing : Casing)

/-- The lower case of a character, which of a sigma depends on what is around it. -/
def lowercaseAt (lib : Statement.Libraries) (casing : Casing) (front : List Char) (c : Char)
    (back : List Char) : List Char :=
  if c = 'Σ' then [casing.mapUppercaseSigma front back] else lib.toLowercase c

theorem lowercaseFrom_cons (front : List Char) (c : Char) (cs : List Char) :
    lowercaseFrom lib casing front (c :: cs) =
      lowercaseAt lib casing front c cs ++ lowercaseFrom lib casing (c :: front) cs := rfl

/-- The character is its own lower case. -/
def Lowered (lib : Statement.Libraries) (c : Char) : Prop := c ≠ 'Σ' ∧ lib.toLowercase c = [c]

theorem lowercaseFrom_eq_self {cs : List Char} (hcs : ∀ c ∈ cs, Lowered lib c)
    (front : List Char) : lowercaseFrom lib casing front cs = cs := by
  induction cs generalizing front with
  | nil => rfl
  | cons c cs ih =>
    obtain ⟨⟨hsigma, hlower⟩, hcs⟩ := List.forall_mem_cons.mp hcs
    rw [lowercaseFrom_cons, ih hcs, lowercaseAt, if_neg hsigma, hlower, List.singleton_append]

namespace Lawful

variable (h : Lawful lib)

include h

theorem lowered {c d : Char} (hd : d ∈ lib.toLowercase c) : Lowered lib d := by
  have hlower := h.lower_lower c d hd
  refine ⟨?_, hlower⟩
  rintro rfl
  rw [h.sigma] at hlower
  exact absurd hlower (by decide)

theorem lowered_mapUppercaseSigma (front back : List Char) :
    Lowered lib (casing.mapUppercaseSigma front back) := by
  rw [Casing.mapUppercaseSigma]
  split
  · exact h.lowered (h.final_sigma ▸ List.mem_singleton_self 'ς')
  · exact h.lowered (h.sigma ▸ List.mem_singleton_self 'σ')

theorem lowered_of_mem_lowercaseAt {front back : List Char} {c d : Char}
    (hd : d ∈ lowercaseAt lib casing front c back) : Lowered lib d := by
  rw [lowercaseAt] at hd
  split at hd
  · rw [List.mem_singleton.mp hd]
    exact h.lowered_mapUppercaseSigma casing front back
  · exact h.lowered hd

theorem lowercaseAt_ne_nil (front : List Char) (c : Char) (back : List Char) :
    lowercaseAt lib casing front c back ≠ [] := by
  rw [lowercaseAt]
  split
  · exact List.cons_ne_nil _ _
  · exact h.filled c

theorem lowered_of_mem {cs front : List Char} {d : Char}
    (hd : d ∈ lowercaseFrom lib casing front cs) : Lowered lib d := by
  induction cs generalizing front with
  | nil => cases hd
  | cons c cs ih =>
    rw [lowercaseFrom_cons, List.mem_append] at hd
    exact hd.elim (h.lowered_of_mem_lowercaseAt casing) ih

section

variable {p : List Char} (hp : p ∈ patterns)

include hp

theorem lowercaseAt_literal {d : Char} (hd : d ∈ p) (front back : List Char) :
    lowercaseAt lib casing front d back = [d] := by
  obtain ⟨hsigma, hlower⟩ := h.lowered ((h.caseless p hp d hd d).mpr rfl)
  rw [lowercaseAt, if_neg hsigma, hlower]

theorem not_mem_lowercaseAt {c d : Char} (hd : d ∈ p) (hne : c ≠ d) (front back : List Char) :
    d ∉ lowercaseAt lib casing front c back := by
  intro hmem
  rw [lowercaseAt] at hmem
  split at hmem
  · have hsigma : ∀ e ∈ ['σ', 'ς'], ∀ q ∈ patterns, e ∉ q := by
      rw [patterns_eq]
      decide
    rw [List.mem_singleton, Casing.mapUppercaseSigma] at hmem
    split at hmem
    · exact hsigma 'ς' (by simp) p hp (hmem ▸ hd)
    · exact hsigma 'σ' (by simp) p hp (hmem ▸ hd)
  · exact hne ((h.caseless p hp d hd c).mp hmem)

theorem count_lowercaseFrom {d : Char} (hd : d ∈ p) (cs front : List Char) :
    (lowercaseFrom lib casing front cs).count d = cs.count d := by
  induction cs generalizing front with
  | nil => rfl
  | cons c cs ih =>
    rw [lowercaseFrom_cons, List.count_append, ih]
    by_cases hc : c = d
    · rw [hc, h.lowercaseAt_literal casing hp hd, List.count_cons_self, List.count_cons_self,
        List.count_nil, Nat.zero_add, Nat.add_comm]
    · rw [List.count_eq_zero.mpr (h.not_mem_lowercaseAt casing hp hd hc _ _),
        List.count_cons_of_ne hc, Nat.zero_add]

theorem prefix_lowercaseFrom {q cs front : List Char} (hq : ∀ d ∈ q, d ∈ p) :
    q <+: lowercaseFrom lib casing front cs ↔ q <+: cs := by
  induction q generalizing cs front with
  | nil => simp
  | cons d q ih =>
    obtain ⟨hd, hq⟩ := List.forall_mem_cons.mp hq
    cases cs with
    | nil => rfl
    | cons c cs =>
      rw [lowercaseFrom_cons]
      by_cases hc : c = d
      · rw [hc, h.lowercaseAt_literal casing hp hd, List.singleton_append,
          List.cons_prefix_cons, List.cons_prefix_cons, ih hq]
      · have hfilled := h.lowercaseAt_ne_nil casing front c cs
        obtain ⟨e, es, hes⟩ := List.exists_cons_of_ne_nil hfilled
        have hne : d ≠ e := by
          rintro rfl
          exact h.not_mem_lowercaseAt casing hp hd hc front cs (hes ▸ List.mem_cons_self)
        rw [hes, List.cons_append, List.cons_prefix_cons, List.cons_prefix_cons]
        exact iff_of_false (fun hprefix => hne hprefix.1) fun hprefix => hc hprefix.1.symm

theorem infix_lowercaseFrom (cs front : List Char) :
    p <:+: lowercaseFrom lib casing front cs ↔ p <:+: cs := by
  have hne := separate_patterns.filled p hp
  induction cs generalizing front with
  | nil => rfl
  | cons c cs ih =>
    have hrest : p <:+: lowercaseFrom lib casing (c :: front) cs ↔ p <:+: cs := ih (c :: front)
    have hfirst : p <+: lowercaseFrom lib casing front (c :: cs) ↔ p <+: c :: cs :=
      h.prefix_lowercaseFrom casing hp fun d hd => hd
    rw [List.infix_cons_iff, ← hfirst, ← hrest, lowercaseFrom_cons]
    by_cases hc : c ∈ p
    · rw [h.lowercaseAt_literal casing hp hc]
      exact List.infix_cons_iff
    · have hforeign : ∀ e ∈ lowercaseAt lib casing front c cs, e ∉ p := by
        rintro e he hmem
        refine h.not_mem_lowercaseAt casing hp hmem ?_ front cs he
        rintro rfl
        exact hc hmem
      have hprefix : ¬ p <+: lowercaseAt lib casing front c cs ++
          lowercaseFrom lib casing (c :: front) cs := by
        intro hprefix
        obtain ⟨d, q, rfl⟩ := List.exists_cons_of_ne_nil hne
        obtain ⟨e, es, hes⟩ := List.exists_cons_of_ne_nil (h.lowercaseAt_ne_nil casing front c cs)
        rw [hes] at hprefix hforeign
        have hsame := (List.cons_prefix_cons.mp hprefix).1
        exact hforeign e List.mem_cons_self (hsame ▸ List.mem_cons_self)
      rw [or_iff_right hprefix]
      exact infix_foreign_append hne hforeign

end

end Lawful

/-! ## The normal form of `dedup.rs` -/

/-- What is done after the removals. -/
def finish (lib : Statement.Libraries) (casing : Casing) (out : List Char) : String :=
  collapse (Dedup.toLowercase lib casing (String.ofList out))

theorem normalizePayee_eq (s : String) : Dedup.normalizePayee lib casing s =
    finish lib casing (removeAll patterns (trim s).toList) := rfl

namespace Lawful

variable (h : Lawful lib)

include h

section

variable {p : List Char} (hp : p ∈ patterns) (out : List Char)

include hp

theorem infix_finish : p <:+: (finish lib casing out).toList ↔ p <:+: out := by
  rw [finish, infix_collapse _ (separate_patterns.filled p hp) (solid_patterns p hp),
    Dedup.toLowercase, String.toList_ofList, String.toList_ofList, h.infix_lowercaseFrom casing hp]

theorem count_finish {d : Char} (hd : d ∈ p) :
    (finish lib casing out).toList.count d = out.count d := by
  rw [finish, count_collapse _ (solid_patterns p hp d hd), Dedup.toLowercase, String.toList_ofList,
    String.toList_ofList, h.count_lowercaseFrom casing hp hd]

end

theorem finish_finish (out : List Char) :
    finish lib casing (finish lib casing out).toList = finish lib casing out := by
  have hlowered : ∀ c ∈ (finish lib casing out).toList, Lowered lib c := by
    intro c hc
    rcases mem_collapse _ hc with rfl | hc
    · exact h.lowered (h.blank ▸ List.mem_singleton_self ' ')
    · rw [Dedup.toLowercase, String.toList_ofList] at hc
      exact h.lowered_of_mem casing hc
  have hlower : Dedup.toLowercase lib casing (finish lib casing out) = finish lib casing out := by
    rw [Dedup.toLowercase, lowercaseFrom_eq_self casing hlowered, String.ofList_toList]
  rw [finish, String.ofList_toList, hlower]
  exact collapse_collapse _

/-- The normal form is its own if none of the literals has come together in it. -/
theorem normalizePayee_idempotent_iff_infix (s : String) :
    Dedup.normalizePayee lib casing (Dedup.normalizePayee lib casing s) =
        Dedup.normalizePayee lib casing s ↔
      ¬ ∃ p ∈ patterns, p <:+: removeAll patterns (trim s).toList := by
  rw [normalizePayee_eq casing s]
  generalize removeAll patterns (trim s).toList = out
  have htrim : trim (finish lib casing out) = finish lib casing out := trim_collapse _
  rw [normalizePayee_eq, htrim]
  constructor
  · rintro hself ⟨p, hp, hout⟩
    obtain ⟨before, after, hsplit⟩ := List.append_of_mem hp
    obtain ⟨d, hd⟩ := List.exists_mem_of_ne_nil p (separate_patterns.filled p hp)
    have hlt := (hsplit ▸ separate_patterns).count_removeAll_lt hd
      ((h.infix_finish casing hp out).mpr hout)
    rw [← hsplit, ← h.count_finish casing hp _ hd, hself] at hlt
    exact lt_irrefl _ hlt
  · intro hnone
    have hkept : removeAll patterns (finish lib casing out).toList =
        (finish lib casing out).toList :=
      removeAll_eq_self fun p hp hinfix =>
        hnone ⟨p, hp, (h.infix_finish casing hp out).mp hinfix⟩
    rw [hkept, h.finish_finish]

end Lawful

end

/-! ## The normal form of `statement/mod.rs` -/

section

variable {lib : Statement.Libraries}

/-- Letters that are their own lower case, with single blanks between them.  If there is a blank in
front, none follows. -/
inductive Tidy (lib : Statement.Libraries) : Bool → List Char → Prop where
  | nil (lastSpace : Bool) : Tidy lib lastSpace []
  | letter (lastSpace : Bool) {c : Char} {cs : List Char} : lib.isAlphanumeric c = true →
      lib.toLowercase c = [c] → Tidy lib false cs → Tidy lib lastSpace (c :: cs)
  | space {cs : List Char} : Tidy lib true cs → Tidy lib false (' ' :: cs)

namespace Tidy

variable {lastSpace : Bool} {cs : List Char}

theorem normalizeFrom (hblank : lib.isAlphanumeric ' ' = false) (h : Tidy lib lastSpace cs) :
    Statement.normalizeFrom lib lastSpace cs = cs := by
  induction h with
  | nil => rfl
  | letter lastSpace hletter hlower h ih =>
    rw [Statement.normalizeFrom, if_pos hletter, hlower, ih, List.singleton_append]
  | space h ih =>
    rw [Statement.normalizeFrom, if_neg (by simp [hblank]), if_neg (by simp), ih]

theorem of_append {back : List Char} (h : Tidy lib lastSpace (cs ++ back)) :
    Tidy lib lastSpace cs := by
  induction cs generalizing lastSpace with
  | nil => exact .nil lastSpace
  | cons c cs ih =>
    cases h with
    | letter _ hletter hlower h => exact .letter lastSpace hletter hlower (ih h)
    | space h => exact .space (ih h)

theorem letters {ds : List Char} (hne : ds ≠ [])
    (hds : ∀ d ∈ ds, lib.isAlphanumeric d = true ∧ lib.toLowercase d = [d])
    (h : Tidy lib false cs) : Tidy lib lastSpace (ds ++ cs) := by
  induction ds generalizing lastSpace with
  | nil => exact absurd rfl hne
  | cons d ds ih =>
    obtain ⟨⟨hletter, hlower⟩, hds⟩ := List.forall_mem_cons.mp hds
    refine .letter lastSpace hletter hlower ?_
    by_cases hnil : ds = []
    · rw [hnil]
      exact h
    · exact ih hnil hds

end Tidy

/-- What the letters among these characters are lowered to are letters. -/
def LowersToLetters (lib : Statement.Libraries) (cs : List Char) : Prop :=
  ∀ c ∈ cs, lib.isAlphanumeric c = true → ∀ d ∈ lib.toLowercase c, lib.isAlphanumeric d = true

theorem mem_normalizeFrom {lastSpace : Bool} {cs : List Char} {d : Char}
    (hd : d ∈ normalizeFrom lib lastSpace cs) :
    d = ' ' ∨ ∃ c ∈ cs, lib.isAlphanumeric c = true ∧ d ∈ lib.toLowercase c := by
  induction cs generalizing lastSpace with
  | nil => cases hd
  | cons c cs ih =>
    have hrest : ∀ lastSpace, d ∈ normalizeFrom lib lastSpace cs →
        d = ' ' ∨ ∃ e ∈ c :: cs, lib.isAlphanumeric e = true ∧ d ∈ lib.toLowercase e := by
      intro lastSpace hd
      refine (ih hd).imp_right ?_
      rintro ⟨e, he, hletter⟩
      exact ⟨e, List.mem_cons_of_mem c he, hletter⟩
    rw [normalizeFrom] at hd
    split at hd
    · next hletter =>
        rcases List.mem_append.mp hd with hd | hd
        · exact .inr ⟨c, List.mem_cons_self, hletter, hd⟩
        · exact hrest false hd
    · split at hd
      · exact hrest true hd
      · rcases List.mem_cons.mp hd with hd | hd
        · exact .inl hd
        · exact hrest true hd

theorem mem_normalizeFrom_of_letter {lastSpace : Bool} {cs : List Char} {c d : Char} (hc : c ∈ cs)
    (hletter : lib.isAlphanumeric c = true) (hd : d ∈ lib.toLowercase c) :
    d ∈ normalizeFrom lib lastSpace cs := by
  induction cs generalizing lastSpace with
  | nil => cases hc
  | cons e cs ih =>
    rw [normalizeFrom]
    rcases List.mem_cons.mp hc with rfl | hc
    · rw [if_pos hletter]
      exact List.mem_append_left _ hd
    · split
      · exact List.mem_append_right _ (ih hc)
      · split
        · exact ih hc
        · exact List.mem_cons_of_mem ' ' (ih hc)

theorem mem_of_normalizePayee {s : String} {d : Char}
    (hd : d ∈ (Statement.normalizePayee lib s).toList) :
    d = ' ' ∨ ∃ c ∈ s.toList, lib.isAlphanumeric c = true ∧ d ∈ lib.toLowercase c := by
  obtain ⟨blank, -, heq⟩ := exists_trimEnd_append (String.ofList (normalizeFrom lib true s.toList))
  rw [String.toList_ofList] at heq
  have hchar : d ∈ normalizeFrom lib true s.toList := by
    rw [heq]
    exact List.mem_append_left blank hd
  exact mem_normalizeFrom hchar

namespace Lawful

variable (h : Lawful lib)

include h

theorem tidy_normalizeFrom {lastSpace : Bool} {cs : List Char} (hcs : LowersToLetters lib cs) :
    Tidy lib lastSpace (normalizeFrom lib lastSpace cs) := by
  induction cs generalizing lastSpace with
  | nil => exact .nil lastSpace
  | cons c cs ih =>
    obtain ⟨hc, hcs⟩ := List.forall_mem_cons.mp hcs
    rw [normalizeFrom]
    split
    · next hletter =>
        refine .letters (h.filled c) (fun d hd => ⟨hc hletter d hd, h.lower_lower c d hd⟩) ?_
        exact ih hcs
    · cases lastSpace with
      | true => exact ih hcs
      | false => exact .space (ih hcs)

theorem mem_normalizePayee {s : String} {c d : Char} (hc : c ∈ s.toList)
    (hletter : lib.isAlphanumeric c = true) (hd : d ∈ lib.toLowercase c) :
    d ∈ (Statement.normalizePayee lib s).toList := by
  obtain ⟨blank, hblank, heq⟩ :=
    exists_trimEnd_append (String.ofList (normalizeFrom lib true s.toList))
  have hmem : d ∈ normalizeFrom lib true s.toList := mem_normalizeFrom_of_letter hc hletter hd
  rw [String.toList_ofList] at heq
  rw [heq, List.mem_append] at hmem
  refine hmem.resolve_right fun hd' => ?_
  have hsolid := h.solid c hletter d hd
  rw [hblank d hd'] at hsolid
  cases hsolid

/-- The normal form is idempotent on a text exactly if its letters are lowered to letters. -/
theorem normalizePayee_idempotent_iff_letters (s : String) :
    Statement.normalizePayee lib (Statement.normalizePayee lib s) =
      Statement.normalizePayee lib s ↔ LowersToLetters lib s.toList := by
  constructor
  · intro hself c hc hletter d hd
    have hmem := h.mem_normalizePayee hc hletter hd
    have hne : d ≠ ' ' := by
      rintro rfl
      exact absurd (h.solid c hletter ' ' hd) (by decide)
    rw [← hself] at hmem
    obtain ⟨e, he, heletter, hde⟩ := (mem_of_normalizePayee hmem).resolve_left hne
    -- The letter that is lowered to it in the second pass is a blank or itself.
    rcases mem_of_normalizePayee he with rfl | ⟨f, -, -, hef⟩
    · rw [h.not_letter_blank] at heletter
      cases heletter
    · rw [h.lower_lower f e hef, List.mem_singleton] at hde
      exact hde ▸ heletter
  · intro hletters
    obtain ⟨blank, -, heq⟩ := exists_trimEnd_append (String.ofList (normalizeFrom lib true s.toList))
    rw [String.toList_ofList] at heq
    have htidy : Tidy lib true (normalizeFrom lib true s.toList) := h.tidy_normalizeFrom hletters
    rw [heq] at htidy
    have hself : normalizeFrom lib true (Statement.normalizePayee lib s).toList =
        (Statement.normalizePayee lib s).toList := htidy.of_append.normalizeFrom h.not_letter_blank
    rw [Statement.normalizePayee, hself, String.ofList_toList]
    exact trimEnd_trimEnd _

end Lawful

end

/-! ## Both -/

/-- No literal comes together when its turn has passed: if all removals erase what is between its
characters, then those in front of its own do. -/
def InTurn (cs : List Char) : Prop :=
  ∀ before p after, patterns = before ++ p :: after → ∀ a x b, cs = a ++ (x ++ b) →
    Spread (fun g => removeAll patterns g = []) p x → Spread (fun g => removeAll before g = []) p x

theorem inTurn_iff (cs : List Char) :
    InTurn cs ↔ ¬ ∃ p ∈ patterns, p <:+: removeAll patterns cs := by
  rw [exists_infix_removeAll_iff separate_patterns]
  constructor
  · rintro hturn ⟨before, p, after, hsplit, a, x, b, hcs, hx, hlate⟩
    exact hlate (hturn before p after hsplit a x b hcs hx)
  · intro hnone before p after hsplit a x b hcs hx
    by_contra hlate
    exact hnone ⟨before, p, after, hsplit, a, x, b, hcs, hx, hlate⟩

/-- Both normal forms of a payee are their own exactly if the literals in it are removed in their
turn and its letters are lowered to letters. -/
theorem idempotent_iff {lib : Statement.Libraries} (h : Lawful lib) (casing : Casing) (s : String) :
    (Dedup.normalizePayee lib casing (Dedup.normalizePayee lib casing s) =
        Dedup.normalizePayee lib casing s ∧
      Statement.normalizePayee lib (Statement.normalizePayee lib s) =
        Statement.normalizePayee lib s) ↔
      InTurn (trim s).toList ∧ LowersToLetters lib s.toList := by
  rw [h.normalizePayee_idempotent_iff_infix, h.normalizePayee_idempotent_iff_letters, inTurn_iff]

namespace Sample

open StatementUpload.Sample (asciiLibraries)

/-- Some characters that are not ASCII, of which one has a lower case of two. -/
def libraries : Statement.Libraries where
  __ := asciiLibraries
  isAlphanumeric c := c.isAlphanum || c == '微' || c == '信' || c == 'İ'
  toLowercase c := if c = 'Σ' then ['σ'] else if c = 'İ' then ['i', '\u0307'] else [c.toLower]

def casing : Casing where
  isCased := Char.isAlpha
  isCaseIgnorable c := c == '.'

theorem mem_toLowercase {c d : Char} (hd : d ∈ libraries.toLowercase c) :
    c = 'Σ' ∧ d = 'σ' ∨ c = 'İ' ∧ (d = 'i' ∨ d = '\u0307') ∨ c ≠ 'Σ' ∧ c ≠ 'İ' ∧ d = c.toLower := by
  simp only [libraries] at hd
  split at hd
  · next hc => exact .inl ⟨hc, List.mem_singleton.mp hd⟩
  · next hsigma =>
      split at hd
      · next hc => exact .inr (.inl ⟨hc, by simpa using hd⟩)
      · next hdot => exact .inr (.inr ⟨hsigma, hdot, List.mem_singleton.mp hd⟩)

theorem toLowercase_toLower {c : Char} (hsigma : c ≠ 'Σ') (hdot : c ≠ 'İ') :
    libraries.toLowercase c.toLower = [c.toLower] := by
  have hsigma : c.toLower ≠ 'Σ' := fun h => hsigma ((toLower_eq_iff (by decide)).mp h)
  have hdot : c.toLower ≠ 'İ' := fun h => hdot ((toLower_eq_iff (by decide)).mp h)
  simp only [libraries]
  rw [if_neg hsigma, if_neg hdot, toLower_toLower]

theorem lawful : Lawful libraries where
  lower_lower c d hd := by
    rcases mem_toLowercase hd with ⟨-, rfl⟩ | ⟨-, rfl | rfl⟩ | ⟨hsigma, hdot, rfl⟩
    · decide
    · decide
    · decide
    · exact toLowercase_toLower hsigma hdot
  filled c := by
    simp only [libraries]
    split
    · simp
    · split <;> simp
  sigma := by decide
  final_sigma := by decide
  blank := by decide
  not_letter_blank := by decide
  caseless := by
    have hsolid : ∀ p ∈ patterns, ∀ d ∈ p, (d.toNat < 65 ∨ 122 < d.toNat) ∧
        libraries.toLowercase d = [d] ∧ d ∉ ['σ', 'i', '\u0307'] := by
      rw [patterns_eq]
      decide
    intro p hp d hd c
    obtain ⟨hcode, hself, hother⟩ := hsolid p hp d hd
    constructor
    · intro hmem
      rcases mem_toLowercase hmem with ⟨-, rfl⟩ | ⟨-, rfl | rfl⟩ | ⟨-, -, hlower⟩
      · exact absurd (by simp) hother
      · exact absurd (by simp) hother
      · exact absurd (by simp) hother
      · exact (toLower_eq_iff hcode).mp hlower.symm
    · rintro rfl
      rw [hself]
      exact List.mem_singleton_self c
  solid c hc d hd := by
    rcases mem_toLowercase hd with ⟨-, rfl⟩ | ⟨-, rfl | rfl⟩ | ⟨-, hdot, rfl⟩
    · decide
    · decide
    · decide
    · rcases toLower_cases c with hself | hsmall
      · rw [hself]
        simp only [libraries, Bool.or_eq_true, beq_iff_eq] at hc
        rcases hc with ((hc | rfl) | rfl) | rfl
        · exact isWhitespace_of_isAlphanum hc
        · decide
        · decide
        · decide
      · simp only [isWhitespace]
        simp
        omega

/-- The second of two literals comes together around the first, which is removed, and the dot of a
capital letter is not a letter. -/
theorem not_idempotent_weixin :
    Dedup.normalizePayee libraries casing (Dedup.normalizePayee libraries casing "微微信信") ≠
        Dedup.normalizePayee libraries casing "微微信信" ∧
      Statement.normalizePayee libraries (Statement.normalizePayee libraries "İ") ≠
        Statement.normalizePayee libraries "İ" := by
  constructor
  · rw [Ne, lawful.normalizePayee_idempotent_iff_infix, not_not]
    refine ⟨['微', '信'], by simp [patterns_eq], ?_⟩
    rw [patterns_eq, trim_eq_self (forall_chars (by decide))]
    exact ⟨[], [], by decide⟩
  · rw [Ne, lawful.normalizePayee_idempotent_iff_letters]
    intro hletters
    have hdot := hletters 'İ' (by decide) (by decide) '\u0307' (by decide)
    exact absurd hdot (by decide)

end Sample

open PayeeNames.Sample in
/-- A payee with a literal that is removed in its turn. -/
theorem idempotent_iff_weixin :
    (Dedup.normalizePayee libraries casing
        (Dedup.normalizePayee libraries casing "微信 Acme") =
        Dedup.normalizePayee libraries casing "微信 Acme" ∧
      Statement.normalizePayee libraries (Statement.normalizePayee libraries "微信 Acme") =
        Statement.normalizePayee libraries "微信 Acme") ↔
      InTurn (trim "微信 Acme").toList ∧ LowersToLetters libraries "微信 Acme".toList :=
  idempotent_iff lawful casing "微信 Acme"

end OpenAccounting.PayeeNames
