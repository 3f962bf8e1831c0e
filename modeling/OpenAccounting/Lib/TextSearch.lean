import Mathlib.Data.Nat.Notation
import Mathlib.Data.List.Basic
import Mathlib.Order.Basic
import OpenAccounting.Lib.RustStr

/-!
# Searching a text

`str::find` and what Rust programs do with the place it returns: the text before the pattern and the
text behind it.  Slices at byte offsets are there as well.  Such a slice panics inside of a
character, so `splitBytes` is partial.
-/

namespace RustStr

/-! ## Patterns -/

/-- A text cut in front of its first suffix that satisfies `p`. -/
def cutBefore (p : List Char → Bool) : List Char → Option (List Char × List Char)
  | [] => if p [] then some ([], []) else none
  | c :: cs =>
    if p (c :: cs) then some ([], c :: cs)
    else (cutBefore p cs).map fun r => (c :: r.1, r.2)

/-- The text before the first occurrence of `pat` and the text behind it. -/
def cutAtStr (pat : List Char) (cs : List Char) : Option (List Char × List Char) :=
  (cutBefore (fun s => pat.isPrefixOf s) cs).map fun r => (r.1, r.2.drop pat.length)

/-- `str::find`, with the texts around the place. -/
def splitAtStr (pat s : String) : Option (String × String) :=
  (cutAtStr pat.toList s.toList).map fun r => (String.ofList r.1, String.ofList r.2)

def contains (pat s : String) : Bool := (cutAtStr pat.toList s.toList).isSome

def startsWith (start s : String) : Bool := start.toList.isPrefixOf s.toList

/-- A text starts with one of two tags at most, unless one of them is the start of the other. -/
theorem not_startsWith_both {tag tag' line : String}
    (hapart : ¬ (tag.toList <+: tag'.toList ∨ tag'.toList <+: tag.toList))
    (h : startsWith tag line = true) : ¬ startsWith tag' line = true := by
  intro h'
  rw [startsWith, List.isPrefixOf_iff_prefix] at h h'
  exact hapart (List.prefix_or_prefix_of_prefix h h')

/-- `str::trim_start_matches` of a character. -/
def trimStartMatches (c : Char) (s : String) : String :=
  String.ofList (s.toList.dropWhile fun d => d = c)

/-- `str::trim_end_matches` of a character. -/
def trimEndMatches (c : Char) (s : String) : String :=
  String.ofList (s.toList.reverse.dropWhile fun d => d = c).reverse

variable {c : Char} {after before cs text : List Char} {p : List Char → Bool}

/-- What is cut off at the end of a text stops at a character that does not satisfy `p`. -/
theorem dropEnd_append_cons {p : Char → Bool} (cs ds : List Char) (h : p c = false) :
    ((cs ++ c :: ds).reverse.dropWhile p).reverse =
      cs ++ c :: (ds.reverse.dropWhile p).reverse := by
  simp only [List.reverse_append, List.reverse_cons, List.append_assoc, List.dropWhile_append]
  split
  · next hnil => simp [List.isEmpty_iff.mp hnil, h]
  · simp

/-- The text from the first occurrence of `pat` on. -/
def suffixFrom (pat s : String) : Option String :=
  (cutBefore (fun t => pat.toList.isPrefixOf t) s.toList).map fun r => String.ofList r.2

theorem cutBefore_eq_some (h : cutBefore p cs = some (before, after)) : cs = before ++ after := by
  induction cs generalizing before with
  | nil =>
    rw [cutBefore] at h
    split at h
    · cases h
      rfl
    · cases h
  | cons c cs ih =>
    rw [cutBefore] at h
    split at h
    · cases h
      rfl
    · obtain ⟨r, hr, heq⟩ := Option.map_eq_some_iff.mp h
      cases heq
      rw [ih hr]
      rfl

theorem cutBefore_neg (h : p (c :: cs) = false) :
    cutBefore p (c :: cs) = (cutBefore p cs).map fun r => (c :: r.1, r.2) := by
  rw [cutBefore, if_neg (by simp [h])]

theorem cutBefore_pos (h : p cs = true) : cutBefore p cs = some ([], cs) := by
  cases cs with
  | nil => rw [cutBefore, if_pos h]
  | cons c cs => rw [cutBefore, if_pos h]

theorem cutBefore_append (h : ∀ c ∈ text, ∀ rest, p (c :: rest) = false) (cs : List Char) :
    cutBefore p (text ++ cs) = (cutBefore p cs).map fun r => (text ++ r.1, r.2) := by
  induction text with
  | nil => simp
  | cons c text ih =>
    rw [List.cons_append, cutBefore_neg (h c List.mem_cons_self _),
      ih fun d hd => h d (List.mem_cons_of_mem c hd), Option.map_map]
    rfl

/-- A text in which no such suffix starts, whatever is behind it. -/
def Passes (p : List Char → Bool) (text : List Char) : Prop :=
  ∀ cs, cutBefore p (text ++ cs) = (cutBefore p cs).map fun r => (text ++ r.1, r.2)

theorem Passes.nil : Passes p [] := fun cs => by simp

theorem Passes.append {text' : List Char} (h : Passes p text) (h' : Passes p text') :
    Passes p (text ++ text') := by
  intro cs
  rw [List.append_assoc, h, h', Option.map_map]
  simp [Function.comp_def]

theorem Passes.cons (h : Passes p text) (hc : ∀ cs, p (c :: (text ++ cs)) = false) :
    Passes p (c :: text) := by
  intro cs
  rw [List.cons_append, cutBefore_neg (hc cs), h, Option.map_map]
  rfl

theorem Passes.of_forall (h : ∀ c ∈ text, ∀ rest, p (c :: rest) = false) :
    Passes p text := cutBefore_append h

theorem cutBefore_holds (h : cutBefore p cs = some (before, after)) : p after = true := by
  induction cs generalizing before with
  | nil =>
    rw [cutBefore] at h
    split at h
    · next hp =>
        cases h
        exact hp
    · cases h
  | cons c cs ih =>
    rw [cutBefore] at h
    split at h
    · next hp =>
        cases h
        exact hp
    · obtain ⟨r, hr, heq⟩ := Option.map_eq_some_iff.mp h
      cases heq
      exact ih hr

theorem cutAtStr_eq_some {pat : List Char} (h : cutAtStr pat cs = some (before, after)) :
    cs = before ++ (pat ++ after) := by
  obtain ⟨r, hr, heq⟩ := Option.map_eq_some_iff.mp h
  cases heq
  have hprefix : pat <+: r.2 := List.isPrefixOf_iff_prefix.mp (cutBefore_holds hr)
  obtain ⟨rest, hrest⟩ := hprefix
  rw [cutBefore_eq_some hr, ← hrest, List.drop_left]

/-! ## ASCII -/

def toAsciiUppercase (s : String) : String := String.ofList (s.toList.map Char.toUpper)

/-- A character in front of the letters is that of no other one in upper case. -/
theorem toUpper_eq_iff {d : Char} (hd : d.toNat < 65) : c.toUpper = d ↔ c = d := by
  have hval : d.toNat = d.val.toNat := rfl
  delta Char.toUpper
  split
  · next h =>
      have hlow : 97 ≤ c.val.toNat := UInt32.le_iff_toNat_le.mp h.1
      have hhigh : c.val.toNat ≤ 122 := UInt32.le_iff_toNat_le.mp h.2
      constructor
      · intro heq
        have hcode : c.toNat = c.val.toNat := rfl
        have hsum := congrArg (fun e : Char => e.val.toNat) heq
        simp at hsum
        omega
      · rintro rfl
        omega
  · rfl

theorem toLower_eq_self (h : c.toNat < 65 ∨ 90 < c.toNat) : c.toLower = c := by
  have hcode : c.toNat = c.val.toNat := rfl
  delta Char.toLower
  split
  · next hupper =>
      have hlow : 65 ≤ c.val.toNat := UInt32.le_iff_toNat_le.mp hupper.1
      have hhigh : c.val.toNat ≤ 90 := UInt32.le_iff_toNat_le.mp hupper.2
      omega
  · rfl

theorem toLower_cases (c : Char) : c.toLower = c ∨ 97 ≤ c.toLower.toNat ∧ c.toLower.toNat ≤ 122 := by
  by_cases h : c.toNat < 65 ∨ 90 < c.toNat
  · exact .inl (toLower_eq_self h)
  · right
    have hcode : c.toNat = c.val.toNat := rfl
    have hupper : 'A'.val ≤ c.val ∧ c.val ≤ 'Z'.val := by
      rw [UInt32.le_iff_toNat_le, UInt32.le_iff_toNat_le]
      simp
      omega
    have hlower : c.toLower.toNat = c.val.toNat + 32 := by
      delta Char.toLower
      rw [dif_pos hupper]
      show (c.val + 32).toNat = _
      rw [UInt32.toNat_add]
      simp
      omega
    omega

theorem toLower_toLower (c : Char) : c.toLower.toLower = c.toLower := by
  rcases toLower_cases c with hself | hsmall
  · rw [hself, hself]
  · exact toLower_eq_self (by omega)

theorem toLower_eq_iff {d : Char} (hd : d.toNat < 65 ∨ 122 < d.toNat) : c.toLower = d ↔ c = d := by
  constructor
  · rintro rfl
    rcases toLower_cases c with hself | hsmall
    · exact hself.symm
    · omega
  · rintro rfl
    exact toLower_eq_self (by omega)

def toAsciiLowercase (s : String) : String := String.ofList (s.toList.map Char.toLower)

def eqIgnoreAsciiCase (s t : String) : Bool := toAsciiLowercase s = toAsciiLowercase t

def isAsciiGraphic (c : Char) : Bool := 0x21 ≤ c.toNat && c.toNat ≤ 0x7E

/-- `str::parse` at `u32`: digits after an optional plus sign. -/
def parseU32 (s : String) : Option ℕ :=
  (match s.toList with
    | '+' :: cs => parseDigits cs
    | cs => parseDigits cs).filter fun n => n < 2 ^ 32

/-! ## Bytes -/

/-- `str::len`. -/
def byteLen (cs : List Char) : ℕ := (cs.map Char.utf8Size).sum

/-- `str::split_at`, or none where it panics. -/
def splitBytes : ℕ → List Char → Option (List Char × List Char)
  | n, [] => if n = 0 then some ([], []) else none
  | n, c :: cs =>
    if n = 0 then some ([], c :: cs)
    else if c.utf8Size ≤ n then
      (splitBytes (n - c.utf8Size) cs).map fun r => (c :: r.1, r.2)
    else none

/-- `String::from_utf8_lossy` of the first bytes of a text. -/
def takeLossy : ℕ → List Char → List Char
  | _, [] => []
  | n, c :: cs =>
    if n = 0 then []
    else if c.utf8Size ≤ n then c :: takeLossy (n - c.utf8Size) cs
    else [Char.ofNat 0xFFFD]

theorem byteLen_of_ascii (h : ∀ c ∈ cs, c.toNat < 128) : byteLen cs = cs.length := by
  induction cs with
  | nil => rfl
  | cons c cs ih =>
    obtain ⟨hc, hcs⟩ := List.forall_mem_cons.mp h
    have hone : c.utf8Size = 1 :=
      Char.utf8Size_eq_one_iff.mpr (UInt32.le_iff_toNat_le.mpr (Nat.le_of_lt_succ hc))
    have hsum : byteLen (c :: cs) = c.utf8Size + byteLen cs := rfl
    rw [hsum, hone, ih hcs, List.length_cons, Nat.add_comm]

theorem splitBytes_append {n : ℕ} (h : byteLen before = n) (after : List Char) :
    splitBytes n (before ++ after) = some (before, after) := by
  induction before generalizing n with
  | nil =>
    obtain rfl : 0 = n := h
    cases after <;> simp [splitBytes]
  | cons c cs ih =>
    have hsum : c.utf8Size + byteLen cs = n := h
    have hpos := c.utf8Size_pos
    rw [List.cons_append, splitBytes, if_neg (by omega), if_pos (by omega),
      ih (n := n - c.utf8Size) (by omega), Option.map_some]

theorem byteLen_of_splitBytes {n : ℕ} (h : splitBytes n cs = some (before, after)) :
    byteLen before = n := by
  induction cs generalizing n before with
  | nil =>
    rw [splitBytes] at h
    split at h
    · next hn =>
        cases h
        exact hn.symm
    · cases h
  | cons c cs ih =>
    rw [splitBytes] at h
    split at h
    · next hn =>
        cases h
        exact hn.symm
    · split at h
      · next hle =>
          obtain ⟨r, hr, heq⟩ := Option.map_eq_some_iff.mp h
          cases heq
          have hrest := ih hr
          have hsum : byteLen (c :: r.1) = c.utf8Size + byteLen r.1 := rfl
          omega
      · cases h

theorem splitBytes_eq_some {n : ℕ} (h : splitBytes n cs = some (before, after)) :
    cs = before ++ after := by
  induction cs generalizing n before with
  | nil =>
    rw [splitBytes] at h
    split at h
    · cases h
      rfl
    · cases h
  | cons c cs ih =>
    rw [splitBytes] at h
    split at h
    · cases h
      rfl
    · split at h
      · obtain ⟨r, hr, heq⟩ := Option.map_eq_some_iff.mp h
        cases heq
        rw [ih hr]
        rfl
      · cases h

end RustStr
