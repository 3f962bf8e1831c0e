import Mathlib.Algebra.Order.Ring.Int
import Mathlib.Data.List.Basic
import Mathlib.Logic.Function.Basic

/-!
# Self-delimiting byte codes

A code is self-delimiting when a reader who knows where an encoding starts also
knows where it ends: whatever follows, equal strings begin with the encoding of
equal values and go on equally.  Such a code is injective, no encoding is a proper
start of another, and encodings may be written one after the other.

The building blocks are those of a hand-written serialization: an integer of fixed
width, a length followed by that many bytes, and a flag in front of an optional
part.
-/

namespace ByteCode

variable {α β : Type*}

/-- Equal strings that start with an encoding start with the same encoding. -/
def SelfDelimiting (enc : α → List UInt8) : Prop :=
  ∀ ⦃x y : α⦄ ⦃r s : List UInt8⦄, enc x ++ r = enc y ++ s → x = y ∧ r = s

namespace SelfDelimiting

variable {enc : α → List UInt8}

theorem injective (h : SelfDelimiting enc) : Function.Injective enc := by
  intro x y hxy
  exact (h (congrArg (· ++ []) hxy)).1

theorem of_length {n : ℕ} (hlen : ∀ x, (enc x).length = n) (hinj : Function.Injective enc) :
    SelfDelimiting enc := by
  intro x y r s hxy
  obtain ⟨henc, hrest⟩ := List.append_inj hxy (by rw [hlen, hlen])
  exact ⟨hinj henc, hrest⟩

end SelfDelimiting

/-! ## Integers -/

/-- The `w` low bytes of a number, least significant first. -/
def leBytes : ℕ → ℕ → List UInt8
  | 0, _ => []
  | w + 1, n => UInt8.ofNat n :: leBytes w (n / 256)

/-- The `w` low bytes of a number, most significant first. -/
def beBytes (w n : ℕ) : List UInt8 := (leBytes w n).reverse

@[simp] theorem length_leBytes (w n : ℕ) : (leBytes w n).length = w := by
  induction w generalizing n with
  | zero => rfl
  | succ w ih => simp [leBytes, ih]

@[simp] theorem length_beBytes (w n : ℕ) : (beBytes w n).length = w := by
  simp [beBytes]

theorem leBytes_inj {w : ℕ} : ∀ {m n : ℕ}, m < 256 ^ w → n < 256 ^ w →
    leBytes w m = leBytes w n → m = n := by
  induction w with
  | zero =>
    intro m n hm hn _
    simp only [pow_zero] at hm hn
    omega
  | succ w ih =>
    intro m n hm hn h
    simp only [leBytes, List.cons.injEq] at h
    have hlow : m % 256 = n % 256 := by
      simpa using congrArg UInt8.toNat h.1
    have hhigh : m / 256 = n / 256 := by
      rw [pow_succ'] at hm hn
      exact ih (Nat.div_lt_of_lt_mul hm) (Nat.div_lt_of_lt_mul hn) h.2
    omega

theorem beBytes_inj {w m n : ℕ} (hm : m < 256 ^ w) (hn : n < 256 ^ w)
    (h : beBytes w m = beBytes w n) : m = n :=
  leBytes_inj hm hn (List.reverse_injective h)

/-- A signed 64-bit integer in two's complement, least significant byte first. -/
def i64Bytes (i : ℤ) : List UInt8 := leBytes 8 (i % 2 ^ 64).toNat

@[simp] theorem length_i64Bytes (i : ℤ) : (i64Bytes i).length = 8 := length_leBytes _ _

theorem i64Bytes_inj {i j : ℤ} (hi : -2 ^ 63 ≤ i ∧ i < 2 ^ 63) (hj : -2 ^ 63 ≤ j ∧ j < 2 ^ 63)
    (h : i64Bytes i = i64Bytes j) : i = j := by
  have hmod : (i % 2 ^ 64).toNat = (j % 2 ^ 64).toNat :=
    leBytes_inj (by omega) (by omega) h
  omega

/-! ## Strings and optional parts -/

/-- A byte vector: its length is at most `isize::MAX`. -/
abbrev Vec := { bytes : List UInt8 // bytes.length < 2 ^ 63 }

/-- A string whose UTF-8 form is a byte vector. -/
abbrev Str := { s : String // s.utf8ByteSize < 2 ^ 63 }

def Str.asBytes (s : Str) : Vec :=
  ⟨s.val.toByteArray.data.toList, by
    have hlen : s.val.toByteArray.data.toList.length = s.val.utf8ByteSize := rfl
    rw [hlen]
    exact s.property⟩

theorem Str.asBytes_injective : Function.Injective Str.asBytes := by
  intro s t h
  have hdata : s.val.toByteArray.data = t.val.toByteArray.data :=
    Array.toList_inj.mp (congrArg Subtype.val h)
  exact Subtype.ext (String.toByteArray_inj.mp (ByteArray.ext hdata))

/-- The UTF-8 bytes of a string of any length. -/
def utf8 (s : String) : List UInt8 := s.toByteArray.data.toList

theorem utf8_injective : Function.Injective utf8 := by
  intro s t h
  exact String.toByteArray_inj.mp (ByteArray.ext (Array.toList_inj.mp h))

/-- Two hexadecimal digits for each byte. -/
def hexEncode (bytes : List UInt8) : String :=
  String.ofList (bytes.flatMap fun b => [Nat.digitChar (b.toNat / 16), Nat.digitChar (b.toNat % 16)])

theorem hexEncode_injective : Function.Injective hexEncode := by
  have hdigit : ∀ i < 16, ∀ j < 16, Nat.digitChar i = Nat.digitChar j → i = j := by decide
  intro xs ys h
  replace h := String.ofList_injective h
  induction xs generalizing ys with
  | nil =>
    cases ys with
    | nil => rfl
    | cons y ys => simp at h
  | cons x xs ih =>
    cases ys with
    | nil => simp at h
    | cons y ys =>
      simp only [List.flatMap_cons, List.cons_append, List.nil_append, List.cons.injEq] at h
      have hx := x.toNat_lt
      have hy := y.toNat_lt
      have hhigh := hdigit _ (by omega) _ (by omega) h.1
      have hlow := hdigit _ (by omega) _ (by omega) h.2.1
      have hxy : x = y := UInt8.toNat_inj.mp (by omega)
      rw [hxy, ih h.2.2]

/-- Eight bytes of length, then the bytes. -/
def lengthPrefixed (v : Vec) : List UInt8 := leBytes 8 v.val.length ++ v.val

theorem selfDelimiting_lengthPrefixed : SelfDelimiting lengthPrefixed := by
  intro x y r s hxy
  simp only [lengthPrefixed, List.append_assoc] at hxy
  obtain ⟨hlen, hrest⟩ := List.append_inj hxy (by simp)
  have hx := x.property
  have hy := y.property
  have hlen : x.val.length = y.val.length := leBytes_inj (by omega) (by omega) hlen
  obtain ⟨hval, hrs⟩ := List.append_inj hrest hlen
  exact ⟨Subtype.ext hval, hrs⟩

/-- A flag byte, then the encoding of the value if there is one. -/
def flagged (enc : α → List UInt8) : Option α → List UInt8
  | some v => 0x01 :: enc v
  | none => [0x00]

theorem SelfDelimiting.flagged {enc : α → List UInt8} (h : SelfDelimiting enc) :
    SelfDelimiting (flagged enc) := by
  intro x y r s hxy
  cases x with
  | none =>
    cases y with
    | none => exact ⟨rfl, by simpa [ByteCode.flagged] using hxy⟩
    | some v => simp [ByteCode.flagged] at hxy
  | some u =>
    cases y with
    | none => simp [ByteCode.flagged] at hxy
    | some v =>
      simp only [ByteCode.flagged, List.cons_append, List.cons.injEq, true_and] at hxy
      obtain ⟨rfl, hrs⟩ := h hxy
      exact ⟨rfl, hrs⟩

theorem SelfDelimiting.comp {enc : α → List UInt8} (h : SelfDelimiting enc) {f : β → α}
    (hf : Function.Injective f) : SelfDelimiting fun x => enc (f x) := by
  intro x y r s hxy
  obtain ⟨hfxy, hrs⟩ := h hxy
  exact ⟨hf hfxy, hrs⟩

/-! ## Bytes read as characters -/

theorem utf8_ofList (cs : List Char) :
    utf8 (String.ofList cs) = cs.flatMap String.utf8EncodeChar := by
  rw [utf8, String.toByteArray_ofList, List.utf8Encode, List.toList_data_toByteArray]

theorem utf8EncodeChar_of_ascii {c : Char} (h : c.toNat < 128) :
    String.utf8EncodeChar c = [UInt8.ofNat c.toNat] :=
  if_pos (Nat.le_of_lt_succ h)

/-- The bytes of a character that is not in ASCII are not in ASCII either. -/
theorem le_of_mem_utf8EncodeChar {c : Char} (h : 128 ≤ c.toNat) {b : UInt8}
    (hb : b ∈ String.utf8EncodeChar c) : 128 ≤ b.toNat := by
  have hlong : ¬ c.val.toNat ≤ 127 := Nat.not_le_of_lt h
  have hbyte : ∀ n, 128 ≤ n → n < 256 → 128 ≤ (UInt8.ofNat n).toNat := by
    intro n hn hlt
    rw [UInt8.toNat_ofNat', Nat.mod_eq_of_lt hlt]
    exact hn
  have hall : ∀ b ∈ String.utf8EncodeChar c, 128 ≤ b.toNat := by
    rw [String.utf8EncodeChar, if_neg hlong]
    split_ifs
    · simp only [List.forall_mem_cons]
      exact ⟨hbyte _ (by omega) (by omega), hbyte _ (by omega) (by omega), by simp⟩
    · simp only [List.forall_mem_cons]
      exact ⟨hbyte _ (by omega) (by omega), hbyte _ (by omega) (by omega),
        hbyte _ (by omega) (by omega), by simp⟩
    · simp only [List.forall_mem_cons]
      exact ⟨hbyte _ (by omega) (by omega), hbyte _ (by omega) (by omega),
        hbyte _ (by omega) (by omega), hbyte _ (by omega) (by omega), by simp⟩
  exact hall b hb

theorem exists_lead_byte {c : Char} (h : 128 ≤ c.toNat) :
    ∃ b ∈ String.utf8EncodeChar c, 192 ≤ b.toNat := by
  have hlong : ¬ c.val.toNat ≤ 127 := Nat.not_le_of_lt h
  have hbyte : ∀ n, 192 ≤ n → n < 256 → 192 ≤ (UInt8.ofNat n).toNat := by
    intro n hn hlt
    rw [UInt8.toNat_ofNat', Nat.mod_eq_of_lt hlt]
    exact hn
  rw [String.utf8EncodeChar, if_neg hlong]
  split_ifs
  · exact ⟨_, List.mem_cons_self, hbyte _ (by omega) (by omega)⟩
  · exact ⟨_, List.mem_cons_self, hbyte _ (by omega) (by omega)⟩
  · exact ⟨_, List.mem_cons_self, hbyte _ (by omega) (by omega)⟩

theorem toNat_ofNat_byte {n : ℕ} (h : n < 256) : (Char.ofNat n).toNat = n := by
  have hvalid : n.isValidChar := Or.inl (by omega)
  rw [Char.ofNat, dif_pos hvalid]
  rfl

/-- The bytes of a text, each read as a character. -/
def byteText (cs : List Char) : List Char :=
  (cs.flatMap String.utf8EncodeChar).map fun b => Char.ofNat b.toNat

theorem byteText_append (cs ds : List Char) : byteText (cs ++ ds) = byteText cs ++ byteText ds := by
  simp [byteText]

theorem byteText_of_ascii {c : Char} (h : c.toNat < 128) : byteText [c] = [c] := by
  have hbyte : (UInt8.ofNat c.toNat).toNat = c.toNat := by
    rw [UInt8.toNat_ofNat', Nat.mod_eq_of_lt (by omega)]
  rw [byteText, List.flatMap_cons, utf8EncodeChar_of_ascii h]
  simp only [List.flatMap_nil, List.append_nil, List.map_cons, List.map_nil, hbyte,
    Char.ofNat_toNat]

theorem length_byteText_cons (c : Char) (cs : List Char) :
    (byteText (c :: cs)).length = c.utf8Size + (byteText cs).length := by
  simp [byteText]

theorem length_le_byteText (cs : List Char) : cs.length ≤ (byteText cs).length := by
  induction cs with
  | nil => exact le_rfl
  | cons c cs ih =>
    have hpos := c.utf8Size_pos
    rw [length_byteText_cons, List.length_cons]
    omega

theorem byteText_eq_self {cs : List Char} : byteText cs = cs ↔ ∀ c ∈ cs, c.toNat < 128 := by
  constructor
  · intro h
    have hlength := congrArg List.length h
    clear h
    induction cs with
    | nil => simp
    | cons c cs ih =>
      have hpos := c.utf8Size_pos
      have hle := length_le_byteText cs
      rw [length_byteText_cons, List.length_cons] at hlength
      have hone : c.utf8Size = 1 := by omega
      refine List.forall_mem_cons.mpr ⟨?_, ih (by omega)⟩
      exact Nat.lt_succ_of_le (UInt32.le_iff_toNat_le.mp (Char.utf8Size_eq_one_iff.mp hone))
  · intro h
    induction cs with
    | nil => rfl
    | cons c cs ih =>
      obtain ⟨hc, hcs⟩ := List.forall_mem_cons.mp h
      rw [← List.singleton_append, byteText_append, byteText_of_ascii hc, ih hcs]

theorem mem_byteText {cs : List Char} {d : Char} (hd : d.toNat < 128) :
    d ∈ byteText cs ↔ d ∈ cs := by
  induction cs with
  | nil => rfl
  | cons c cs ih =>
    rw [← List.singleton_append, byteText_append, List.mem_append, List.mem_append, ih]
    refine or_congr_left ?_
    by_cases hc : c.toNat < 128
    · rw [byteText_of_ascii hc]
    · have hother : d ≠ c := by
        rintro rfl
        exact hc hd
      refine iff_of_false ?_ (by simpa using hother)
      intro hmem
      rw [byteText, List.mem_map] at hmem
      obtain ⟨b, hb, rfl⟩ := hmem
      have hlarge := le_of_mem_utf8EncodeChar (by omega : 128 ≤ c.toNat) (by simpa using hb)
      rw [toNat_ofNat_byte b.toNat_lt] at hd
      omega

end ByteCode

/-!
## Base64 for URLs, without padding

Three bytes are written as four digits of six bits each.  A last group of one or two bytes is
written as two or three digits, whose unused bits are zero, and a decoder that finds other bits
there refuses the text.
-/

namespace Base64

/-- The digits of the URL alphabet, in order. -/
def alphabet : List Char :=
  "ABCDEFGHIJKLMNOPQRSTUVWXYZabcdefghijklmnopqrstuvwxyz0123456789-_".toList

/-- The digit of a value below `64`. -/
def digit (n : ℕ) : Char := alphabet.getD n 'A'

/-- The value of a digit. -/
def value (c : Char) : Option ℕ := alphabet.idxOf? c

def encode : List UInt8 → List Char
  | [] => []
  | [a] => [digit (a.toNat / 4), digit (a.toNat % 4 * 16)]
  | [a, b] =>
    [digit (a.toNat / 4), digit (a.toNat % 4 * 16 + b.toNat / 16), digit (b.toNat % 16 * 4)]
  | a :: b :: c :: rest =>
    digit (a.toNat / 4) :: digit (a.toNat % 4 * 16 + b.toNat / 16) ::
      digit (b.toNat % 16 * 4 + c.toNat / 64) :: digit (c.toNat % 64) :: encode rest

/-- The bytes of the digits' values. -/
def decodeValues : List ℕ → Option (List UInt8)
  | [] => some []
  | [_] => none
  | [v, w] => if w % 16 = 0 then some [UInt8.ofNat (v * 4 + w / 16)] else none
  | [v, w, x] =>
    if x % 4 = 0 then
      some [UInt8.ofNat (v * 4 + w / 16), UInt8.ofNat (w % 16 * 16 + x / 4)]
    else none
  | v :: w :: x :: y :: rest =>
    (decodeValues rest).map fun bytes =>
      UInt8.ofNat (v * 4 + w / 16) :: UInt8.ofNat (w % 16 * 16 + x / 4) ::
        UInt8.ofNat (x % 4 * 64 + y) :: bytes

/-- `decode`, or `none` where it fails. -/
def decode (text : List Char) : Option (List UInt8) := (text.mapM value).bind decodeValues

theorem value_digit {n : ℕ} (h : n < 64) : value (digit n) = some n := by
  -- The alphabet is searched as a list of characters, since to decode its text is slow.
  have halphabet : alphabet = _ := String.toList_ofList
  have hall : ∀ n < 64, value (digit n) = some n := by
    unfold value digit
    rw [halphabet]
    decide
  exact hall n h

theorem mapM_value_encode : ∀ bytes : List UInt8,
    ∃ values, (encode bytes).mapM value = some values ∧ decodeValues values = some bytes
  | [] => ⟨[], rfl, rfl⟩
  | [a] => by
    have ha := a.toNat_lt
    refine ⟨[a.toNat / 4, a.toNat % 4 * 16], ?_, ?_⟩
    · simp [encode, value_digit (show a.toNat / 4 < 64 by omega),
        value_digit (show a.toNat % 4 * 16 < 64 by omega)]
    · have hbyte : a.toNat / 4 * 4 + a.toNat % 4 * 16 / 16 = a.toNat := by omega
      simp only [decodeValues, hbyte, Nat.mul_mod_left, if_true, UInt8.ofNat_toNat]
  | [a, b] => by
    have ha := a.toNat_lt
    have hb := b.toNat_lt
    refine ⟨[a.toNat / 4, a.toNat % 4 * 16 + b.toNat / 16, b.toNat % 16 * 4], ?_, ?_⟩
    · simp [encode, value_digit (show a.toNat / 4 < 64 by omega),
        value_digit (show a.toNat % 4 * 16 + b.toNat / 16 < 64 by omega),
        value_digit (show b.toNat % 16 * 4 < 64 by omega)]
    · have hfirst : a.toNat / 4 * 4 + (a.toNat % 4 * 16 + b.toNat / 16) / 16 = a.toNat := by omega
      have hsecond : (a.toNat % 4 * 16 + b.toNat / 16) % 16 * 16 + b.toNat % 16 * 4 / 4 =
          b.toNat := by omega
      simp only [decodeValues, hfirst, hsecond, Nat.mul_mod_left, if_true, UInt8.ofNat_toNat]
  | a :: b :: c :: rest => by
    have ha := a.toNat_lt
    have hb := b.toNat_lt
    have hc := c.toNat_lt
    obtain ⟨values, hvalues, hdecode⟩ := mapM_value_encode rest
    refine ⟨a.toNat / 4 :: (a.toNat % 4 * 16 + b.toNat / 16) ::
      (b.toNat % 16 * 4 + c.toNat / 64) :: c.toNat % 64 :: values, ?_, ?_⟩
    · simp [encode, value_digit (show a.toNat / 4 < 64 by omega),
        value_digit (show a.toNat % 4 * 16 + b.toNat / 16 < 64 by omega),
        value_digit (show b.toNat % 16 * 4 + c.toNat / 64 < 64 by omega),
        value_digit (show c.toNat % 64 < 64 by omega), hvalues]
    · have hfirst : a.toNat / 4 * 4 + (a.toNat % 4 * 16 + b.toNat / 16) / 16 = a.toNat := by omega
      have hsecond : (a.toNat % 4 * 16 + b.toNat / 16) % 16 * 16 +
          (b.toNat % 16 * 4 + c.toNat / 64) / 4 = b.toNat := by omega
      have hthird : (b.toNat % 16 * 4 + c.toNat / 64) % 4 * 64 + c.toNat % 64 = c.toNat := by
        omega
      simp only [decodeValues, hfirst, hsecond, hthird, hdecode, Option.map_some,
        UInt8.ofNat_toNat]

theorem decode_encode (bytes : List UInt8) : decode (encode bytes) = some bytes := by
  obtain ⟨values, hvalues, hdecode⟩ := mapM_value_encode bytes
  rw [decode, hvalues, Option.bind_some, hdecode]

end Base64
