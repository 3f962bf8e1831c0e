import OpenAccounting.Lib.TextSearch

/-!
# Internet addresses

The addresses of `std::net`, what some of them are reserved for, and how they are read from a text.
-/

namespace Net

/-! ## Addresses -/

instance octetNeZero : NeZero 256 := ⟨by decide⟩

instance segmentNeZero : NeZero 65536 := ⟨by decide⟩

/-- `Ipv4Addr`, with its octets. -/
structure Ipv4Addr where
  first : Fin 256
  second : Fin 256
  third : Fin 256
  fourth : Fin 256
deriving DecidableEq

namespace Ipv4Addr

def isLoopback (a : Ipv4Addr) : Bool := a.first == 127

def isPrivate (a : Ipv4Addr) : Bool :=
  a.first == 10 || a.first == 172 && 16 ≤ a.second && a.second ≤ 31 ||
    a.first == 192 && a.second == 168

def isLinkLocal (a : Ipv4Addr) : Bool := a.first == 169 && a.second == 254

def isUnspecified (a : Ipv4Addr) : Bool := a == ⟨0, 0, 0, 0⟩

/-- The address in dotted decimal. -/
def display (a : Ipv4Addr) : String :=
  toString a.first.val ++ "." ++ toString a.second.val ++ "." ++ toString a.third.val ++ "." ++
    toString a.fourth.val

end Ipv4Addr

structure Ipv6Addr where
  segments : Vector (Fin 65536) 8
deriving DecidableEq

namespace Ipv6Addr

def isLoopback (a : Ipv6Addr) : Bool := a.segments == #v[0, 0, 0, 0, 0, 0, 0, 1]

def isUnspecified (a : Ipv6Addr) : Bool := a.segments == #v[0, 0, 0, 0, 0, 0, 0, 0]

theorem firstSegment : 0 < 8 := by decide

def isUniqueLocal (a : Ipv6Addr) : Bool := a.segments[0] &&& 0xfe00 == 0xfc00

def isUnicastLinkLocal (a : Ipv6Addr) : Bool := a.segments[0] &&& 0xffc0 == 0xfe80

/-- Two octets as one number. -/
def pair (high low : Fin 256) : Fin 65536 := ⟨256 * high.val + low.val, by omega⟩

/-- The groups before `::` and the ones behind it. -/
def ofGroups (head tail : List (Fin 65536)) : Ipv6Addr where
  segments := .ofFn fun i =>
    if i < 8 - tail.length then head.getD i 0 else tail.getD (i - (8 - tail.length)) 0

/-- `::ffff:a.b.c.d`. -/
def mapped (a : Ipv4Addr) : Ipv6Addr where
  segments := #v[0, 0, 0, 0, 0, 0xffff, pair a.first a.second, pair a.third a.fourth]

end Ipv6Addr

/-! ## Reading an address -/

def toDigit (radix : ℕ) (c : Char) : Option ℕ :=
  (if c.isDigit then some (c.toNat - '0'.toNat)
    else if c.isAlpha then some (c.toLower.toNat - 'a'.toNat + 10) else none).filter (· < radix)

/-- `read_number`, of a type with `bound` values. -/
def readNumber (radix maxDigits bound : ℕ) (allowZeroPrefix : Bool) (cs : List Char) :
    Option (Fin bound × List Char) :=
  let digits := cs.takeWhile fun c => (toDigit radix c).isSome
  let value := digits.foldl (fun n c => radix * n + (toDigit radix c).getD 0) 0
  if digits = [] ∨ maxDigits < digits.length then none
  else if allowZeroPrefix = false ∧ digits.head? = some '0' ∧ 1 < digits.length then none
  else if h : value < bound then some (⟨value, h⟩, cs.drop digits.length) else none

def readGiven (c : Char) : List Char → Option (List Char)
  | [] => none
  | d :: cs => if d = c then some cs else none

/-- Numbers with a zero in front are not read. -/
def readOctet : List Char → Option (Fin 256 × List Char) := readNumber 10 3 256 false

def readIpv4 (cs : List Char) : Option (Ipv4Addr × List Char) := do
  let (first, cs) ← readOctet cs
  let (second, cs) ← readOctet (← readGiven '.' cs)
  let (third, cs) ← readOctet (← readGiven '.' cs)
  let (fourth, cs) ← readOctet (← readGiven '.' cs)
  some (⟨first, second, third, fourth⟩, cs)

def Ipv4Addr.parse (s : String) : Option Ipv4Addr :=
  if 15 < RustStr.byteLen s.toList then none
  else (readIpv4 s.toList).bind fun r => if r.2 = [] then some r.1 else none

/-- `read_groups`, with as many groups left: groups between colons, of which an IPv4 address takes
the last two.  The flag says that there is one. -/
def readGroups (started : Bool) : ℕ → List Char → List (Fin 65536) × Bool × List Char
  | 0, cs => ([], false, cs)
  | n + 1, cs =>
    let behind := if started then readGiven ':' cs else some cs
    match if 0 < n then behind.bind readIpv4 else none with
    | some (a, rest) =>
      ([Ipv6Addr.pair a.first a.second, Ipv6Addr.pair a.third a.fourth], true, rest)
    | none =>
      match behind.bind (readNumber 16 4 65536 true) with
      | some (group, rest) =>
        let (groups, embedded, rest) := readGroups true n rest
        (group :: groups, embedded, rest)
      | none => ([], false, cs)

def readIpv6 (cs : List Char) : Option (Ipv6Addr × List Char) :=
  let (head, embedded, cs) := readGroups false 8 cs
  if head.length = 8 then some (.ofGroups head [], cs)
  else if embedded then none
  else do
    let cs ← readGiven ':' (← readGiven ':' cs)
    let (tail, _, cs) := readGroups false (8 - (head.length + 1)) cs
    some (.ofGroups head tail, cs)

def Ipv6Addr.parse (s : String) : Option Ipv6Addr :=
  (readIpv6 s.toList).bind fun r => if r.2 = [] then some r.1 else none

/-! ## Texts of addresses -/

theorem toDigit_of_isDigit {c : Char} (h : c.isDigit = true) :
    toDigit 10 c = some (c.toNat - '0'.toNat) := by
  have hlt : c.toNat - '0'.toNat < 10 := by
    simp only [Char.isDigit, Bool.and_eq_true, decide_eq_true_eq, ge_iff_le, UInt32.le_iff_toNat_le]
      at h
    exact Nat.lt_of_le_of_lt (Nat.sub_le_sub_right h.2 _) (by decide)
  rw [toDigit, if_pos h, Option.filter_some, if_pos (decide_eq_true hlt)]

theorem isSome_toDigit (c : Char) : (toDigit 10 c).isSome = c.isDigit := by
  cases h : c.isDigit with
  | true => rw [toDigit_of_isDigit h, Option.isSome_some]
  | false =>
    rw [toDigit, h, if_neg Bool.false_ne_true]
    split
    · rw [Option.filter_some, if_neg (by simp), Option.isSome_none]
    · rfl

theorem length_of_zero_head {n : ℕ} (hn : n < 256) (h : (Nat.toDigits 10 n).head? = some '0') :
    (Nat.toDigits 10 n).length = 1 := by
  by_cases hten : n < 10
  · rw [Nat.toDigits_of_lt_base hten, List.length_singleton]
  · have hfront : ∀ m < 26, 0 < m → (Nat.toDigits 10 m).head? ≠ some '0' := by decide
    rw [Nat.toDigits_of_base_le (by decide) (by omega),
      List.head?_append_of_ne_nil _ Nat.toDigits_ne_nil] at h
    exact absurd h (hfront (n / 10) (by omega) (by omega))

theorem length_octet (n : Fin 256) : (Nat.toDigits 10 n).length ≤ 3 :=
  (Nat.length_toDigits_le_iff (by decide) (by decide)).mpr (by omega)

theorem readOctet_toDigits (n : Fin 256) {rest : List Char}
    (h : ∀ c ∈ rest.head?, c.isDigit = false) :
    readOctet (Nat.toDigits 10 n ++ rest) = some (n, rest) := by
  have hdigit : ∀ c ∈ Nat.toDigits 10 n, (toDigit 10 c).isSome = true := fun c hc =>
    (isSome_toDigit c).trans (RustStr.isDigit_of_mem_toDigits hc)
  have hend : rest.takeWhile (fun c => (toDigit 10 c).isSome) = [] := by
    cases rest with
    | nil => rfl
    | cons c cs =>
      rw [List.takeWhile_cons_of_neg]
      rw [isSome_toDigit, h c rfl]
      exact Bool.false_ne_true
  have htake : (Nat.toDigits 10 n ++ rest).takeWhile (fun c => (toDigit 10 c).isSome) =
      Nat.toDigits 10 n := by
    rw [List.takeWhile_append_of_pos hdigit, hend, List.append_nil]
  have hvalue : (Nat.toDigits 10 n).foldl (fun n c => 10 * n + (toDigit 10 c).getD 0) 0 = n := by
    have hsame : ∀ cs : List Char, (∀ c ∈ cs, c.isDigit = true) → ∀ m,
        cs.foldl (fun n c => 10 * n + (toDigit 10 c).getD 0) m = Nat.ofDigitChars 10 cs m := by
      intro cs hcs m
      rw [Nat.ofDigitChars]
      refine List.foldl_ext _ _ _ fun m c hc => ?_
      rw [toDigit_of_isDigit (hcs c hc), Option.getD_some]
    rw [hsame _ (fun c => RustStr.isDigit_of_mem_toDigits), Nat.ofDigitChars_ten_toDigits]
  have hshort : ¬ (Nat.toDigits 10 n = [] ∨ 3 < (Nat.toDigits 10 n).length) := by
    simp [Nat.toDigits_ne_nil, length_octet n]
  have hzero : ¬ ((Nat.toDigits 10 n).head? = some '0' ∧ 1 < (Nat.toDigits 10 n).length) :=
    fun ⟨hhead, hlong⟩ => absurd (length_of_zero_head n.isLt hhead) (Nat.ne_of_gt hlong)
  simp only [readOctet, readNumber, htake, hvalue, hshort, hzero, n.isLt, true_and, if_false,
    dif_pos, Fin.eta, List.drop_left]

theorem toList_display (a : Ipv4Addr) : a.display.toList =
    Nat.toDigits 10 a.first ++ '.' :: (Nat.toDigits 10 a.second ++ '.' ::
      (Nat.toDigits 10 a.third ++ '.' :: Nat.toDigits 10 a.fourth)) := by
  simp [Ipv4Addr.display, Nat.toString_eq_repr]

theorem parse_display (a : Ipv4Addr) : Ipv4Addr.parse a.display = some a := by
  have hoctet : ∀ (n : Fin 256) cs, readOctet (Nat.toDigits 10 n ++ '.' :: cs) =
      some (n, '.' :: cs) := by
    refine fun n cs => readOctet_toDigits n ?_
    rintro c ⟨⟩
    decide
  have hlast : readOctet (Nat.toDigits 10 a.fourth) = some (a.fourth, []) := by
    have hend : readOctet (Nat.toDigits 10 a.fourth ++ []) = some (a.fourth, []) :=
      readOctet_toDigits _ (by simp)
    rwa [List.append_nil] at hend
  have hread : readIpv4 a.display.toList = some (a, []) := by
    rw [toList_display]
    simp only [readIpv4, hoctet, hlast, readGiven, Option.bind_eq_bind, Option.bind_some, if_true]
  have hascii : ∀ c ∈ a.display.toList, c.toNat < 128 := by
    have hdigit : ∀ n, ∀ c ∈ Nat.toDigits 10 n, c.toNat < 128 := by
      intro n c hc
      have h := RustStr.isDigit_of_mem_toDigits hc
      simp only [Char.isDigit, Bool.and_eq_true, decide_eq_true_eq, UInt32.le_iff_toNat_le] at h
      exact Nat.lt_of_le_of_lt h.2 (by decide)
    have hdot : '.'.toNat < 128 := by decide
    simp only [toList_display, List.forall_mem_append, List.forall_mem_cons]
    exact ⟨hdigit _, hdot, hdigit _, hdot, hdigit _, hdot, hdigit _⟩
  have hlength : RustStr.byteLen a.display.toList ≤ 15 := by
    have hfirst := length_octet a.first
    have hsecond := length_octet a.second
    have hthird := length_octet a.third
    have hfourth := length_octet a.fourth
    rw [RustStr.byteLen_of_ascii hascii, toList_display]
    simp only [List.length_append, List.length_cons]
    omega
  rw [Ipv4Addr.parse, if_neg (Nat.not_lt.mpr hlength), hread, Option.bind_some, if_pos rfl]

/-- An address in square brackets is not read, neither as the one nor as the other. -/
theorem parse_bracketed {s : String} {cs : List Char} (h : s.toList = '[' :: cs) :
    Ipv4Addr.parse s = none ∧ Ipv6Addr.parse s = none := by
  have hread : readIpv4 ('[' :: cs) = none := rfl
  have hread' : readIpv6 ('[' :: cs) = none := rfl
  refine ⟨?_, ?_⟩
  · rw [Ipv4Addr.parse, h, hread, Option.bind_none, ite_self]
  · rw [Ipv6Addr.parse, h, hread', Option.bind_none]

end Net
