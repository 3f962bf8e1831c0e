import Mathlib.Algebra.Order.Ring.Int
import Mathlib.Data.List.Basic
import Mathlib.Data.List.Dedup

/-!
# SHA-256

The hash function of FIPS 180-4 on byte strings, written so that it evaluates:
words are `BitVec 32`, and every loop is a recursion over a list.
-/

namespace Sha256

abbrev Word := BitVec 32

/-- The eight working variables. -/
structure Working where
  a : Word
  b : Word
  c : Word
  d : Word
  e : Word
  f : Word
  g : Word
  h : Word
deriving DecidableEq

/-- The initial hash value. -/
def initial : Working where
  a := 0x6a09e667
  b := 0xbb67ae85
  c := 0x3c6ef372
  d := 0xa54ff53a
  e := 0x510e527f
  f := 0x9b05688c
  g := 0x1f83d9ab
  h := 0x5be0cd19

/-- The round constants. -/
def constants : List Word :=
  [0x428a2f98, 0x71374491, 0xb5c0fbcf, 0xe9b5dba5, 0x3956c25b, 0x59f111f1, 0x923f82a4, 0xab1c5ed5,
    0xd807aa98, 0x12835b01, 0x243185be, 0x550c7dc3, 0x72be5d74, 0x80deb1fe, 0x9bdc06a7, 0xc19bf174,
    0xe49b69c1, 0xefbe4786, 0x0fc19dc6, 0x240ca1cc, 0x2de92c6f, 0x4a7484aa, 0x5cb0a9dc, 0x76f988da,
    0x983e5152, 0xa831c66d, 0xb00327c8, 0xbf597fc7, 0xc6e00bf3, 0xd5a79147, 0x06ca6351, 0x14292967,
    0x27b70a85, 0x2e1b2138, 0x4d2c6dfc, 0x53380d13, 0x650a7354, 0x766a0abb, 0x81c2c92e, 0x92722c85,
    0xa2bfe8a1, 0xa81a664b, 0xc24b8b70, 0xc76c51a3, 0xd192e819, 0xd6990624, 0xf40e3585, 0x106aa070,
    0x19a4c116, 0x1e376c08, 0x2748774c, 0x34b0bcb5, 0x391c0cb3, 0x4ed8aa4a, 0x5b9cca4f, 0x682e6ff3,
    0x748f82ee, 0x78a5636f, 0x84c87814, 0x8cc70208, 0x90befffa, 0xa4506ceb, 0xbef9a3f7, 0xc67178f2]

def ch (x y z : Word) : Word := (x &&& y) ^^^ (~~~x &&& z)

def maj (x y z : Word) : Word := (x &&& y) ^^^ (x &&& z) ^^^ (y &&& z)

def bigSigma0 (x : Word) : Word := x.rotateRight 2 ^^^ x.rotateRight 13 ^^^ x.rotateRight 22

def bigSigma1 (x : Word) : Word := x.rotateRight 6 ^^^ x.rotateRight 11 ^^^ x.rotateRight 25

def smallSigma0 (x : Word) : Word := x.rotateRight 7 ^^^ x.rotateRight 18 ^^^ (x >>> 3)

def smallSigma1 (x : Word) : Word := x.rotateRight 17 ^^^ x.rotateRight 19 ^^^ (x >>> 10)

/-- The message schedule, newest word first: `n` words are added in front. -/
def extend : ℕ → List Word → List Word
  | 0, w => w
  | n + 1, w =>
    extend n
      ((smallSigma1 (w.getD 1 0) + w.getD 6 0 + smallSigma0 (w.getD 14 0) + w.getD 15 0) :: w)

def schedule (block : List Word) : List Word :=
  (extend 48 block.reverse).reverse

def round (s : Working) (k w : Word) : Working :=
  let t1 := s.h + bigSigma1 s.e + ch s.e s.f s.g + k + w
  let t2 := bigSigma0 s.a + maj s.a s.b s.c
  { a := t1 + t2, b := s.a, c := s.b, d := s.c, e := s.d + t1, f := s.e, g := s.f, h := s.g }

/-- The compression function. -/
def compress (s : Working) (block : List Word) : Working :=
  let r := (constants.zip (schedule block)).foldl (fun s kw => round s kw.1 kw.2) s
  { a := s.a + r.a, b := s.b + r.b, c := s.c + r.c, d := s.d + r.d,
    e := s.e + r.e, f := s.f + r.f, g := s.g + r.g, h := s.h + r.h }

/-- The four bytes of a word, most significant first. -/
def wordBytes (w : Word) : List UInt8 :=
  [⟨(w >>> 24).setWidth 8⟩, ⟨(w >>> 16).setWidth 8⟩, ⟨(w >>> 8).setWidth 8⟩, ⟨w.setWidth 8⟩]

/-- Words from bytes, most significant byte first. -/
def bytesWords : List UInt8 → List Word
  | a :: b :: c :: d :: rest =>
    (a.toBitVec ++ b.toBitVec ++ c.toBitVec ++ d.toBitVec : BitVec 32) :: bytesWords rest
  | _ => []

/-- The message followed by a one bit, zeros, and the length in bits as 64 bits. -/
def pad (message : List UInt8) : List UInt8 :=
  let bits : BitVec 64 := BitVec.ofNat 64 (8 * message.length)
  message ++ (0x80 : UInt8) :: List.replicate ((119 - message.length % 64) % 64) (0 : UInt8) ++
    wordBytes ((bits >>> 32).setWidth 32) ++ wordBytes (bits.setWidth 32)

/-- Compresses `n` blocks of 16 words. -/
def absorb : ℕ → Working → List Word → Working
  | 0, s, _ => s
  | n + 1, s, words => absorb n (compress s (words.take 16)) (words.drop 16)

/-- The digest of a message, 32 bytes. -/
def hash (message : List UInt8) : List UInt8 :=
  let words := bytesWords (pad message)
  let s := absorb (words.length / 16) initial words
  wordBytes s.a ++ wordBytes s.b ++ wordBytes s.c ++ wordBytes s.d ++
    wordBytes s.e ++ wordBytes s.f ++ wordBytes s.g ++ wordBytes s.h

/-- Whether the digest tells the messages of a list apart is decided on the list. -/
theorem injOn_mem {messages : List (List UInt8)} (h : (messages.dedup.map hash).Nodup) :
    Set.InjOn hash { x | x ∈ messages } :=
  fun _ hx _ hy => List.inj_on_of_nodup_map h (List.mem_dedup.mpr hx) (List.mem_dedup.mpr hy)

-- The digest of `abc`, from the standard.
example : hash [0x61, 0x62, 0x63] =
    [0xba, 0x78, 0x16, 0xbf, 0x8f, 0x01, 0xcf, 0xea, 0x41, 0x41, 0x40, 0xde, 0x5d, 0xae, 0x22, 0x23,
      0xb0, 0x03, 0x61, 0xa3, 0x96, 0x17, 0x7a, 0x9c, 0xb4, 0x10, 0xff, 0x61, 0xf2, 0x00, 0x15, 0xad] := by
  decide +kernel

end Sha256

/-!
## Hash chains

A chain is a list of rows, each with the hash of its predecessor (`prev`), a stored
hash, and a `digest` that can be computed again from the row.  The chain is intact
when every row points at the row before it and its stored hash is its digest.
-/

namespace HashChain

variable {ρ η : Type*} (prev hash : ρ → Option η) (digest : ρ → η)

/-- Every row points at the row before it, and its stored hash is its digest.  The
first row points at `p`. -/
def Intact : Option η → List ρ → Prop
  | _, [] => True
  | p, row :: rows => prev row = p ∧ hash row = some (digest row) ∧ Intact (hash row) rows

/-- The hash a next row has to point at. -/
def tail : Option η → List ρ → Option η
  | p, [] => p
  | _, row :: rows => tail (hash row) rows

variable {prev hash digest}

theorem tail_append (rows rest : List ρ) (p : Option η) :
    tail hash p (rows ++ rest) = tail hash (tail hash p rows) rest := by
  induction rows generalizing p with
  | nil => rfl
  | cons row rows ih => exact ih (hash row)

variable {p : Option η} {rows : List ρ}

theorem intact_append {rest : List ρ} :
    Intact prev hash digest p (rows ++ rest) ↔
      Intact prev hash digest p rows ∧ Intact prev hash digest (tail hash p rows) rest := by
  induction rows generalizing p with
  | nil => simp [Intact, tail]
  | cons row rows ih => simp only [List.cons_append, Intact, tail, ih, and_assoc]

theorem Intact.concat {row : ρ} (h : Intact prev hash digest p rows)
    (hprev : prev row = tail hash p rows) (hhash : hash row = some (digest row)) :
    Intact prev hash digest p (rows ++ [row]) := by
  rw [intact_append]
  exact ⟨h, hprev, hhash, trivial⟩

theorem Intact.hash_eq (h : Intact prev hash digest p rows) {row : ρ} (hmem : row ∈ rows) :
    hash row = some (digest row) := by
  obtain ⟨front, back, rfl⟩ := List.append_of_mem hmem
  rw [intact_append] at h
  exact h.2.2.1

/-- After at least one row of an intact chain there is a hash to point at. -/
theorem Intact.tail_isSome (h : Intact prev hash digest p rows) (hne : rows ≠ []) :
    (tail hash p rows).isSome := by
  obtain ⟨front, row, rfl⟩ := (List.eq_nil_or_concat' rows).resolve_left hne
  rw [tail_append]
  have hrow : hash row = some (digest row) := h.hash_eq (List.mem_append_right _ (by simp))
  simp [tail, hrow]

end HashChain
