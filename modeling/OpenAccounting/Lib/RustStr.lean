import Mathlib.Algebra.GroupWithZero.Nat
import Mathlib.Data.Int.Basic
import Mathlib.Data.List.TakeWhile

/-!
# String operations of the Rust standard library

`trim` removes the characters with the Unicode property `White_Space` from both
ends, `split` and `splitOnce` cut at a character, `stripPrefix` takes a prefix off,
`parseInt` reads an integer, and `padZero` is the `{:0w}` format of a natural number.
-/

namespace RustStr

instance decidableForallMem {p : Char → Prop} [DecidablePred p] (cs : List Char) :
    Decidable (∀ c ∈ cs, p c) :=
  List.decidableBAll p cs

instance decidableForallHead {p : Char → Prop} [DecidablePred p] (o : Option Char) :
    Decidable (∀ c ∈ o, p c) :=
  Option.decidableForallMem o

/-- The Unicode property `White_Space`. -/
def isWhitespace (c : Char) : Bool :=
  let n := c.toNat
  (0x09 ≤ n && n ≤ 0x0D) || n == 0x20 || n == 0x85 || n == 0xA0 || n == 0x1680 ||
    (0x2000 ≤ n && n ≤ 0x200A) || n == 0x2028 || n == 0x2029 || n == 0x202F ||
    n == 0x205F || n == 0x3000

def trim (s : String) : String :=
  String.ofList (((s.toList.dropWhile isWhitespace).reverse.dropWhile isWhitespace).reverse)

def trimEnd (s : String) : String :=
  String.ofList ((s.toList.reverse.dropWhile isWhitespace).reverse)

def trimStart (s : String) : String := String.ofList (s.toList.dropWhile isWhitespace)

/-- `str::split_whitespace`: the pieces between white space that are not empty. -/
def splitWhitespace (s : String) : List String :=
  ((s.toList.splitOnP isWhitespace).filter fun cs => cs ≠ []).map String.ofList

/-- `str::split` at a character: the pieces, of which there is at least one. -/
def split (sep : Char) (s : String) : List String := (s.toList.splitOn sep).map String.ofList

/-- A list cut at the first occurrence of `sep`, if there is one. -/
def cutAt (sep : Char) : List Char → Option (List Char × List Char)
  | [] => none
  | c :: cs => if c = sep then some ([], cs) else (cutAt sep cs).map fun p => (c :: p.1, p.2)

/-- `str::split_once` at a character. -/
def splitOnce (sep : Char) (s : String) : Option (String × String) :=
  (cutAt sep s.toList).map fun p => (String.ofList p.1, String.ofList p.2)

/-- The second part of `str::rsplit_once` at a character. -/
def afterLast (sep : Char) (s : String) : Option String :=
  if sep ∈ s.toList then
    some (String.ofList (s.toList.reverse.takeWhile fun c => c ≠ sep).reverse)
  else none

def stripPrefix (start s : String) : Option String :=
  if start.toList <+: s.toList then some (String.ofList (s.toList.drop start.toList.length))
  else none

/-- The value of decimal digits, of which there is at least one. -/
def parseDigits (cs : List Char) : Option ℕ :=
  if cs ≠ [] ∧ cs.all Char.isDigit = true then some (Nat.ofDigitChars 10 cs 0) else none

/-- `str::parse` at an integer type that has room for the value: digits after an optional sign. -/
def parseInt (s : String) : Option ℤ :=
  match s.toList with
  | '-' :: cs => (parseDigits cs).map fun n => -(n : ℤ)
  | '+' :: cs => (parseDigits cs).map fun n => (n : ℤ)
  | cs => (parseDigits cs).map fun n => (n : ℤ)

/-- A natural number in decimal, padded with zeros on the left to `width`. -/
def padZero (width n : ℕ) : String :=
  let digits := toString n
  String.ofList (List.replicate (width - digits.length) '0') ++ digits

/-- The format `{:width}` of a text. -/
def padEnd (width : ℕ) (s : String) : String :=
  s ++ String.ofList (List.replicate (width - s.length) ' ')

/-- The format `{:>width}` of a text. -/
def padStart (width : ℕ) (s : String) : String :=
  String.ofList (List.replicate (width - s.length) ' ') ++ s

/-- The text before the first occurrence of a character, or all of it. -/
def before (c : Char) (s : String) : String := String.ofList (s.toList.takeWhile fun d => d ≠ c)

/-- The characters of a line, in reverse, without the carriage return before the line feed. -/
def stripCr : List Char → List Char
  | '\r' :: cs => cs
  | cs => cs

/-- The lines of a text of which `line` has been read already, in reverse. -/
def linesFrom (line : List Char) : List Char → List (List Char)
  | [] => if line = [] then [] else [line.reverse]
  | '\n' :: cs => (stripCr line).reverse :: linesFrom [] cs
  | c :: cs => linesFrom (c :: line) cs

/-- `str::lines`: the last line end is optional. -/
def lines (s : String) : List String := (linesFrom [] s.toList).map String.ofList

/-- Lines as `writeln!` writes them. -/
def unlines (ls : List String) : String := String.join (ls.map fun l => l ++ "\n")

/-- `str::replace` of a character by nothing. -/
def without (c : Char) (s : String) : String := String.ofList (s.toList.filter fun d => d ≠ c)

/-- A trimmed value that is not empty, as the handlers read optional text. -/
def nonEmptyTrimmed (s : Option String) : Option String :=
  (s.map trim).filter fun t => t ≠ ""

/-! ## Cutting at a character -/

variable {s : String} {c sep : Char}

/-- A piece has only characters of the text, and not the one the text is cut at. -/
theorem mem_split {piece : String} (h : piece ∈ split sep s) :
    sep ∉ piece.toList ∧ piece.toList ⊆ s.toList := by
  obtain ⟨l, hl, rfl⟩ := List.mem_map.mp h
  rw [String.toList_ofList]
  clear h
  generalize s.toList = cs at hl
  induction cs generalizing l with
  | nil =>
    rw [List.splitOn_nil, List.mem_singleton] at hl
    simp [hl]
  | cons c cs ih =>
    rw [List.splitOn_cons_eq_if_modifyHead] at hl
    obtain ⟨first, rest, hfirst⟩ := List.exists_cons_of_ne_nil (List.splitOn_ne_nil sep cs)
    split at hl
    · rcases List.mem_cons.mp hl with rfl | hl
      · simp
      · exact ⟨(ih l hl).1, fun x hx => List.mem_cons_of_mem c ((ih l hl).2 hx)⟩
    · rename_i hc
      rw [hfirst, List.modifyHead_cons, List.mem_cons] at hl
      rcases hl with rfl | hl
      · obtain ⟨hsep, hsub⟩ := ih first (by simp [hfirst])
        refine ⟨?_, List.cons_subset_cons c hsub⟩
        simp only [List.mem_cons, not_or]
        exact ⟨fun h => hc (by simp [h]), hsep⟩
      · obtain ⟨hsep, hsub⟩ := ih l (by simp [hfirst, hl])
        exact ⟨hsep, fun x hx => List.mem_cons_of_mem c (hsub hx)⟩

theorem split_eq_singleton (h : sep ∉ s.toList) : split sep s = [s] := by
  rw [split, List.splitOn_eq_singleton h]
  simp

theorem cutAt_eq_some {cs before after : List Char} :
    cutAt sep cs = some (before, after) ↔ cs = before ++ sep :: after ∧ sep ∉ before := by
  induction cs generalizing before with
  | nil => simp [cutAt]
  | cons c cs ih =>
    rw [cutAt]
    by_cases hc : c = sep
    · subst hc
      cases before with
      | nil => simp
      | cons d before => simp +contextual
    · cases before with
      | nil => simp [hc]
      | cons d before =>
        simp only [hc, if_false, Option.map_eq_some_iff, Prod.mk.injEq, Prod.exists,
          List.cons.injEq, List.cons_append, List.mem_cons, not_or]
        constructor
        · rintro ⟨b, a, hcut, ⟨rfl, rfl⟩, rfl⟩
          obtain ⟨hcs, hsep⟩ := ih.mp hcut
          exact ⟨⟨rfl, hcs⟩, fun h => hc h.symm, hsep⟩
        · rintro ⟨⟨rfl, hcs⟩, -, hsep⟩
          exact ⟨before, after, ih.mpr ⟨hcs, hsep⟩, ⟨rfl, rfl⟩, rfl⟩

theorem cutAt_eq_none {cs : List Char} : cutAt sep cs = none ↔ sep ∉ cs := by
  induction cs with
  | nil => simp [cutAt]
  | cons c cs ih =>
    rw [cutAt]
    by_cases hc : c = sep
    · simp [hc]
    · simp [hc, ih, Ne.symm hc]

theorem splitOnce_eq_some {before after : String} :
    splitOnce sep s = some (before, after) ↔
      s.toList = before.toList ++ sep :: after.toList ∧ sep ∉ before.toList := by
  rw [← cutAt_eq_some, splitOnce, Option.map_eq_some_iff]
  constructor
  · rintro ⟨p, hp, heq⟩
    cases heq
    simpa using hp
  · intro h
    exact ⟨_, h, by simp⟩

/-! ## Prefixes and integers -/

theorem stripPrefix_eq_some {start rest : String} :
    stripPrefix start s = some rest ↔ s = start ++ rest := by
  rw [stripPrefix]
  constructor
  · intro h
    split at h
    · next hprefix =>
        obtain ⟨cs, hcs⟩ := hprefix
        cases h
        apply String.toList_inj.mp
        rw [String.toList_append, String.toList_ofList, ← hcs, List.drop_left]
    · cases h
  · rintro rfl
    rw [if_pos (by simp)]
    simp

theorem parseDigits_eq {cs : List Char} (hne : cs ≠ []) (hdigits : ∀ c ∈ cs, c.isDigit = true) :
    parseDigits cs = some (Nat.ofDigitChars 10 cs 0) :=
  if_pos ⟨hne, List.all_eq_true.mpr hdigits⟩

theorem parseInt_of_digits (hne : s.toList ≠ []) (hdigits : ∀ c ∈ s.toList, c.isDigit = true) :
    parseInt s = some (Nat.ofDigitChars 10 s.toList 0 : ℕ) := by
  have hvalue := parseDigits_eq hne hdigits
  unfold parseInt
  split
  · next cs hcs =>
      have := hdigits '-' (by simp [hcs])
      exact absurd this (by decide)
  · next cs hcs =>
      have := hdigits '+' (by simp [hcs])
      exact absurd this (by decide)
  · rw [hvalue]
    rfl

theorem toList_toString (n : ℤ) :
    (toString n).toList = (if n < 0 then ['-'] else []) ++ Nat.toDigits 10 n.natAbs := by
  cases n with
  | ofNat n =>
    show (Int.repr (Int.ofNat n)).toList = _
    simp [Int.repr]
  | negSucc n =>
    show (Int.repr (Int.negSucc n)).toList = _
    simp [Int.repr]

theorem isDigit_of_mem_toDigits {n : ℕ} (h : c ∈ Nat.toDigits 10 n) : c.isDigit = true :=
  Nat.isDigit_of_mem_toDigits (by decide) (by decide) h

theorem parseInt_toString (n : ℤ) : parseInt (toString n) = some n := by
  have hdigits : ∀ c ∈ Nat.toDigits 10 n.natAbs, c.isDigit = true :=
    fun c => isDigit_of_mem_toDigits
  have hlist := toList_toString n
  by_cases hneg : n < 0
  · rw [if_pos hneg] at hlist
    simp only [parseInt, hlist, List.cons_append, List.nil_append,
      parseDigits_eq Nat.toDigits_ne_nil hdigits, Nat.ofDigitChars_ten_toDigits]
    show some (-(n.natAbs : ℤ)) = some n
    exact congrArg some (by omega)
  · rw [if_neg hneg, List.nil_append] at hlist
    rw [parseInt_of_digits (by rw [hlist]; exact Nat.toDigits_ne_nil)
      (by rw [hlist]; exact hdigits), hlist, Nat.ofDigitChars_ten_toDigits]
    exact congrArg some (by omega)

/-! ## Padded numbers -/

theorem toList_padZero (width n : ℕ) :
    (padZero width n).toList =
      List.replicate (width - (Nat.toDigits 10 n).length) '0' ++ Nat.toDigits 10 n := by
  simp [padZero, Nat.toString_eq_repr, ← String.length_toList]

theorem isDigit_of_mem_padZero {width n : ℕ} (hc : c ∈ (padZero width n).toList) :
    c.isDigit = true := by
  rw [toList_padZero, List.mem_append] at hc
  rcases hc with hc | hc
  · rw [(List.mem_replicate.mp hc).2]
    decide
  · exact isDigit_of_mem_toDigits hc

theorem isAlphanum_of_isDigit (h : c.isDigit = true) : c.isAlphanum = true := by
  rw [Char.isAlphanum, h, Bool.or_true]

theorem length_padZero {width n : ℕ} (hwidth : 0 < width) (h : n < 10 ^ width) :
    (padZero width n).toList.length = width := by
  have hle := (Nat.length_toDigits_le_iff (b := 10) (by decide) hwidth).mpr h
  rw [toList_padZero, List.length_append, List.length_replicate]
  omega

theorem toList_padZero_ne_nil (width n : ℕ) : (padZero width n).toList ≠ [] := by
  rw [toList_padZero]
  exact List.append_ne_nil_of_right_ne_nil _ Nat.toDigits_ne_nil

theorem ofDigitChars_padZero (width n : ℕ) :
    Nat.ofDigitChars 10 (padZero width n).toList 0 = n := by
  rw [toList_padZero, Nat.ofDigitChars_append, Nat.ofDigitChars_replicate_zero, Nat.mul_zero,
    Nat.ofDigitChars_ten_toDigits]

theorem parseInt_padZero (width n : ℕ) : parseInt (padZero width n) = some n := by
  rw [parseInt_of_digits (toList_padZero_ne_nil width n)
    fun c hc => isDigit_of_mem_padZero hc, ofDigitChars_padZero]

/-! ## Trimming -/

theorem mem_toList_trim (h : c ∈ (trim s).toList) : c ∈ s.toList := by
  rw [trim, String.toList_ofList, List.mem_reverse] at h
  exact (List.dropWhile_sublist _).subset
    (List.mem_reverse.mp ((List.dropWhile_sublist _).subset h))

/-- Trimming stops at both ends of a text that neither starts nor ends with white space. -/
theorem trim_append (first : Char) (middle : List Char) (last : Char) (s : String)
    (hfirst : isWhitespace first = false) (hlast : isWhitespace last = false) :
    trim (String.ofList (first :: (middle ++ [last])) ++ s) =
      String.ofList (first :: (middle ++ [last])) ++ trimEnd s := by
  have hdrop : ∀ cs : List Char, (cs ++ last :: middle.reverse ++ [first]).dropWhile isWhitespace =
      cs.dropWhile isWhitespace ++ last :: middle.reverse ++ [first] := by
    intro cs
    induction cs with
    | nil => simp [hlast]
    | cons c cs ih => by_cases hc : isWhitespace c <;> simp [hc] ; simpa using ih
  apply String.toList_inj.mp
  simp only [trim, trimEnd, String.toList_append, String.toList_ofList]
  rw [List.cons_append, List.dropWhile_cons_of_neg (by simp [hfirst])]
  have := hdrop s.toList.reverse
  simp only [List.append_assoc, List.cons_append] at this
  simp [this]

theorem trimEnd_eq_self (h : ∀ c ∈ s.toList.getLast?, isWhitespace c = false) : trimEnd s = s := by
  rw [trimEnd]
  cases hrev : s.toList.reverse with
  | nil =>
    have hnil : s.toList = [] := List.reverse_eq_nil_iff.mp hrev
    exact (String.toList_inj.mp (by simp [hnil])).symm
  | cons c cs =>
    have hlist : s.toList = cs.reverse ++ [c] := by
      rw [← List.reverse_reverse s.toList, hrev, List.reverse_cons]
    have hc := h c (by rw [hlist]; simp)
    rw [List.dropWhile_cons_of_neg (by simp [hc]), ← hrev, List.reverse_reverse,
      String.ofList_toList]

theorem trim_eq_self (h : ∀ c ∈ s.toList, isWhitespace c = false) : trim s = s := by
  have hdrop : ∀ {cs : List Char}, (∀ c ∈ cs, isWhitespace c = false) →
      cs.dropWhile isWhitespace = cs := by
    intro cs hcs
    cases cs with
    | nil => rfl
    | cons c cs => exact List.dropWhile_cons_of_neg (by simp [hcs c])
  rw [trim, hdrop h, hdrop fun c hc => h c (List.mem_reverse.mp hc), List.reverse_reverse,
    String.ofList_toList]

theorem trimEnd_append {t : String} (hc : c ∈ t.toList) (h : isWhitespace c = false) :
    trimEnd (s ++ t) = s ++ trimEnd t := by
  have hne : t.toList.reverse.dropWhile isWhitespace ≠ [] := by
    intro hnil
    have hall := List.dropWhile_eq_nil_iff.mp hnil c (List.mem_reverse.mpr hc)
    rw [h] at hall
    cases hall
  apply String.toList_inj.mp
  rw [trimEnd, trimEnd, String.toList_append, String.toList_append, String.toList_ofList,
    String.toList_ofList, List.reverse_append, List.dropWhile_append,
    if_neg (by simpa using hne), List.reverse_append, List.reverse_reverse]

theorem trim_append_blank {blank : String} (hs : trim s = s) (hne : s ≠ "")
    (hblank : ∀ c ∈ blank.toList, isWhitespace c = true) : trim (s ++ blank) = s := by
  have hdrop : ∀ cs : List Char, (blank.toList.reverse ++ cs).dropWhile isWhitespace =
      cs.dropWhile isWhitespace := fun cs =>
    List.dropWhile_append_of_pos fun c hc => hblank c (List.mem_reverse.mp hc)
  have hfront : s.toList.dropWhile isWhitespace ≠ [] := by
    intro hnil
    refine hne ?_
    rw [← hs, trim, hnil]
    rfl
  conv_rhs => rw [← hs]
  rw [trim, trim, String.toList_append, List.dropWhile_append,
    if_neg (by simpa using hfront), List.reverse_append, hdrop]

theorem trimStart_eq_self (h : ∀ c ∈ s.toList.head?, isWhitespace c = false) : trimStart s = s := by
  rw [trimStart]
  cases hlist : s.toList with
  | nil => exact (String.toList_inj.mp (by simp [hlist])).symm
  | cons c cs =>
    have hc := h c (by rw [hlist]; rfl)
    rw [List.dropWhile_cons_of_neg (by simp [hc]), ← hlist, String.ofList_toList]

theorem trimStart_append {blank : String} (h : ∀ c ∈ blank.toList, isWhitespace c = true) :
    trimStart (blank ++ s) = trimStart s := by
  rw [trimStart, String.toList_append, List.dropWhile_append_of_pos h]
  rfl

/-- A text that is not all white space has something left when it is trimmed. -/
theorem trim_ne_empty (hc : c ∈ s.toList) (h : isWhitespace c = false) : trim s ≠ "" := by
  have hkeep : ∀ {cs : List Char}, c ∈ cs → c ∈ cs.dropWhile isWhitespace := by
    intro cs hmem
    rw [← List.takeWhile_append_dropWhile (p := isWhitespace) (l := cs), List.mem_append] at hmem
    rcases hmem with hmem | hmem
    · rw [List.all_eq_true.mp List.all_takeWhile c hmem] at h
      cases h
    · exact hmem
  intro hempty
  have hmem : c ∈ (trim s).toList := by
    rw [trim, String.toList_ofList, List.mem_reverse]
    exact hkeep (List.mem_reverse.mpr (hkeep hc))
  rw [hempty] at hmem
  cases hmem

theorem isWhitespace_of_isAlphanum (h : c.isAlphanum = true) : isWhitespace c = false := by
  have hval : c.toNat = c.val.toNat := rfl
  rw [Char.isAlphanum] at h
  delta Char.isAlpha at h
  delta Char.isUpper Char.isLower at h
  simp only [Char.isDigit, Bool.or_eq_true, Bool.and_eq_true, decide_eq_true_eq, ge_iff_le,
    UInt32.le_iff_toNat_le] at h
  simp at h
  simp only [isWhitespace, hval, Bool.or_eq_false_iff, Bool.and_eq_false_iff, beq_eq_false_iff_ne,
    decide_eq_false_iff_not]
  omega

theorem isWhitespace_of_isDigit (h : c.isDigit = true) : isWhitespace c = false :=
  isWhitespace_of_isAlphanum (by simp [Char.isAlphanum, h])

theorem forall_chars {p : Char → Prop} [DecidablePred p] (h : s.toList.all (fun c => p c) = true) :
    ∀ c ∈ s.toList, p c := by
  simpa using h

/-! ## Texts without white space at an end -/

/-- The text starts with something that trimming keeps. -/
def StartsSolid (s : String) : Prop := ∃ c ∈ s.toList.head?, isWhitespace c = false

/-- The text ends with something that trimming keeps. -/
def EndsSolid (s : String) : Prop := ∃ c ∈ s.toList.getLast?, isWhitespace c = false

section

variable {s t : String}

theorem StartsSolid.append (h : StartsSolid s) (t : String) : StartsSolid (s ++ t) := by
  obtain ⟨c, hc, hsolid⟩ := h
  refine ⟨c, ?_, hsolid⟩
  rw [String.toList_append, List.head?_append]
  simp [Option.mem_def.mp hc]

theorem EndsSolid.append (h : EndsSolid t) (s : String) : EndsSolid (s ++ t) := by
  obtain ⟨c, hc, hsolid⟩ := h
  refine ⟨c, ?_, hsolid⟩
  rw [String.toList_append, List.getLast?_append]
  simp [Option.mem_def.mp hc]

theorem startsSolid_of_forall (hne : s ≠ "") (h : ∀ c ∈ s.toList, isWhitespace c = false) :
    StartsSolid s := by
  cases hlist : s.toList with
  | nil => exact absurd (String.toList_inj.mp hlist) hne
  | cons c cs => exact ⟨c, by simp [hlist], h c (hlist ▸ List.mem_cons_self)⟩

theorem endsSolid_of_forall (hne : s ≠ "") (h : ∀ c ∈ s.toList, isWhitespace c = false) :
    EndsSolid s := by
  have hlist : s.toList ≠ [] := fun hnil => hne (String.toList_inj.mp hnil)
  exact ⟨_, List.getLast_mem_getLast? hlist, h _ (List.getLast_mem hlist)⟩

theorem StartsSolid.trimStart (h : StartsSolid s) : trimStart s = s := by
  obtain ⟨c, hc, hsolid⟩ := h
  refine trimStart_eq_self fun d hd => ?_
  rw [Option.mem_def.mp hc, Option.mem_some_iff] at hd
  exact hd ▸ hsolid

theorem StartsSolid.trim (h : StartsSolid s) : RustStr.trim s = RustStr.trimEnd s := by
  have hdrop : RustStr.trim s = RustStr.trimEnd (RustStr.trimStart s) := by
    rw [RustStr.trim, RustStr.trimEnd, RustStr.trimStart, String.toList_ofList]
  rw [hdrop, h.trimStart]

theorem EndsSolid.trimEnd (h : EndsSolid s) : trimEnd s = s := by
  obtain ⟨c, hc, hsolid⟩ := h
  refine trimEnd_eq_self fun d hd => ?_
  rw [Option.mem_def.mp hc, Option.mem_some_iff] at hd
  exact hd ▸ hsolid

theorem exists_trimEnd_append (s : String) :
    ∃ blank, (∀ c ∈ blank, isWhitespace c = true) ∧ s.toList = (trimEnd s).toList ++ blank := by
  refine ⟨(s.toList.reverse.takeWhile isWhitespace).reverse, fun c hc => ?_, ?_⟩
  · exact List.mem_takeWhile_imp (List.mem_reverse.mp hc)
  · rw [RustStr.trimEnd, String.toList_ofList, ← List.reverse_append,
      List.takeWhile_append_dropWhile, List.reverse_reverse]

theorem mem_toList_trimEnd {s : String} {c : Char} (h : c ∈ (RustStr.trimEnd s).toList) :
    c ∈ s.toList := by
  rw [RustStr.trimEnd, String.toList_ofList, List.mem_reverse] at h
  exact List.mem_reverse.mp ((List.dropWhile_sublist _).subset h)

theorem trimEnd_trimEnd (s : String) : RustStr.trimEnd (RustStr.trimEnd s) = RustStr.trimEnd s := by
  refine trimEnd_eq_self fun c hc => ?_
  have hhead := List.head?_dropWhile_not isWhitespace s.toList.reverse
  rw [RustStr.trimEnd, String.toList_ofList, List.getLast?_reverse] at hc
  rw [Option.mem_def.mp hc] at hhead
  exact hhead

theorem EndsSolid.trimEnd_append (h : EndsSolid s) (t : String) :
    RustStr.trimEnd (s ++ t) = s ++ RustStr.trimEnd t := by
  by_cases hblank : ∀ c ∈ t.toList, isWhitespace c = true
  · have hdrop : t.toList.reverse.dropWhile isWhitespace = [] :=
      List.dropWhile_eq_nil_iff.mpr fun c hc => hblank c (List.mem_reverse.mp hc)
    have hs : s.toList.reverse.dropWhile isWhitespace = s.toList.reverse := by
      have hself := congrArg (fun s => s.toList.reverse) h.trimEnd
      simpa [RustStr.trimEnd] using hself
    rw [RustStr.trimEnd, RustStr.trimEnd, String.toList_append, List.reverse_append,
      List.dropWhile_append, hdrop, hs]
    simp
  · rw [not_forall] at hblank
    obtain ⟨c, hc⟩ := hblank
    rw [Classical.not_imp, Bool.not_eq_true] at hc
    exact RustStr.trimEnd_append hc.1 hc.2

theorem EndsSolid.trim_ne_empty (h : EndsSolid s) : trim s ≠ "" := by
  obtain ⟨c, hc, hsolid⟩ := h
  exact RustStr.trim_ne_empty (List.mem_of_mem_getLast? hc) hsolid

end

/-! ## Characters that do not occur -/

theorem before_eq_self (h : c ∉ s.toList) : before c s = s := by
  have hall : ∀ d ∈ s.toList, decide (d ≠ c) = true := by
    intro d hd
    rw [decide_eq_true_eq]
    rintro rfl
    exact h hd
  rw [before, List.takeWhile_eq_self_iff.mpr hall, String.ofList_toList]

theorem mem_toList_before {d : Char} (h : d ∈ (before c s).toList) : d ∈ s.toList ∧ d ≠ c := by
  rw [before, String.toList_ofList] at h
  exact ⟨(List.takeWhile_sublist _).subset h, by simpa using List.mem_takeWhile_imp h⟩

theorem without_eq_self (h : c ∉ s.toList) : without c s = s := by
  have hall : ∀ d ∈ s.toList, decide (d ≠ c) = true := by
    intro d hd
    rw [decide_eq_true_eq]
    rintro rfl
    exact h hd
  rw [without, List.filter_eq_self.mpr hall, String.ofList_toList]

/-! ## Words -/

theorem splitWhitespace_cons (h : isWhitespace c = true) (cs : List Char) :
    splitWhitespace (String.ofList (c :: cs)) = splitWhitespace (String.ofList cs) := by
  have hnone : ∀ x ∈ ([] : List Char), isWhitespace x = false := by simp
  have hsplit := List.splitOnP_append_cons_of_forall_mem hnone c h cs
  rw [List.nil_append] at hsplit
  simp [splitWhitespace, hsplit]

theorem splitWhitespace_blank {blank : List Char} (h : ∀ c ∈ blank, isWhitespace c = true)
    (cs : List Char) :
    splitWhitespace (String.ofList (blank ++ cs)) = splitWhitespace (String.ofList cs) := by
  induction blank with
  | nil => rfl
  | cons c blank ih =>
    rw [List.cons_append, splitWhitespace_cons (h c List.mem_cons_self),
      ih fun d hd => h d (List.mem_cons_of_mem c hd)]

theorem splitWhitespace_word {word : String} (hne : word ≠ "")
    (hword : ∀ d ∈ word.toList, isWhitespace d = false) (hc : isWhitespace c = true)
    (cs : List Char) :
    splitWhitespace (String.ofList (word.toList ++ c :: cs)) =
      word :: splitWhitespace (String.ofList cs) := by
  have hlist : word.toList ≠ [] := fun h => hne (String.toList_inj.mp h)
  have hsplit := List.splitOnP_append_cons_of_forall_mem (p := isWhitespace) hword c hc cs
  simp [splitWhitespace, hsplit, hlist]

/-! ## Lines -/

theorem linesFrom_append {acc l rest : List Char} (h : '\n' ∉ l) :
    linesFrom acc (l ++ '\n' :: rest) = (stripCr (l.reverse ++ acc)).reverse :: linesFrom [] rest := by
  induction l generalizing acc with
  | nil => simp [linesFrom]
  | cons c l ih =>
    rw [List.mem_cons, not_or] at h
    rw [List.cons_append, linesFrom, ih h.2]
    · simp
    · exact fun heq => h.1 heq.symm

/-- A line that comes back as it was written. -/
def IsLine (l : String) : Prop := '\n' ∉ l.toList ∧ l.toList.getLast? ≠ some '\r'

theorem EndsSolid.isLine (h : EndsSolid s) (hline : '\n' ∉ s.toList) : IsLine s := by
  refine ⟨hline, fun hcr => ?_⟩
  obtain ⟨c, hc, hsolid⟩ := h
  rw [hcr, Option.mem_some_iff] at hc
  rw [← hc] at hsolid
  cases hsolid

/-- A line without the carriage return at its end. -/
def withoutCr (l : String) : String := String.ofList (stripCr l.toList.reverse).reverse

theorem withoutCr_eq_self {l : String} (h : l.toList.getLast? ≠ some '\r') : withoutCr l = l := by
  have hstrip : stripCr l.toList.reverse = l.toList.reverse := by
    cases hrev : l.toList.reverse with
    | nil => rfl
    | cons c cs =>
      have hc : c ≠ '\r' := by
        rintro rfl
        rw [← List.head?_reverse, hrev] at h
        exact h rfl
      exact stripCr.eq_2 _ fun cs' heq => hc (List.cons.inj heq).1
  rw [withoutCr, hstrip, List.reverse_reverse, String.ofList_toList]

theorem trimEnd_withoutCr (l : String) : trimEnd (withoutCr l) = trimEnd l := by
  rw [trimEnd, trimEnd, withoutCr, String.toList_ofList, List.reverse_reverse]
  generalize l.toList.reverse = cs
  cases cs with
  | nil => rfl
  | cons c cs =>
    by_cases hc : c = '\r'
    · subst hc
      rfl
    · rw [stripCr.eq_2 _ fun cs' heq => hc (List.cons.inj heq).1]

theorem lines_unlines_withoutCr {ls : List String} (h : ∀ l ∈ ls, '\n' ∉ l.toList) :
    lines (unlines ls) = ls.map withoutCr := by
  induction ls with
  | nil => rfl
  | cons l ls ih =>
    have htext : (unlines (l :: ls)).toList = l.toList ++ '\n' :: (unlines ls).toList := by
      simp [unlines, String.join_cons]
    rw [lines, htext, linesFrom_append (h l List.mem_cons_self), List.append_nil, List.map_cons,
      List.map_cons]
    exact congrArg (withoutCr l :: ·) (ih fun k hk => h k (List.mem_cons_of_mem l hk))

theorem lines_unlines {ls : List String} (h : ∀ l ∈ ls, IsLine l) : lines (unlines ls) = ls := by
  rw [lines_unlines_withoutCr fun l hl => (h l hl).1]
  refine List.map_congr_left (fun l hl => withoutCr_eq_self (h l hl).2) |>.trans ?_
  exact List.map_id' ls

end RustStr
