import OpenAccounting.Api.Problem
import OpenAccounting.Auth.CookieSigner

/-!
# Signed cursors

The pagination part of `api/helpers.rs`.  A cursor is `<offset>.<mac>`, where the MAC is a
keyed hash of the offset, so a client only ever comes back with an offset it was given.
`pageFrom` reads the parameters of a request, and `nextLink` points behind a full page.
-/

namespace OpenAccounting

namespace Api

open Commit

structure PageParams where
  cursor : Option String := none
  limit : Option ℤ := none
deriving DecidableEq

structure Page where
  limit : ℤ
  offset : ℤ
deriving DecidableEq

namespace Page

/-- `Page::DEFAULT_LIMIT`. -/
def defaultLimit : ℤ := 50

/-- `Page::MAX_LIMIT`. -/
def maxLimit : ℤ := 200

end Page

/-- `signing_key` of the secret in `APP_SECRET`. -/
def signingKey (secret : String) : List UInt8 :=
  Cookies.hmac (ByteCode.utf8 secret) "oa-api-cursor-v1"

def signOffset (secret : String) (offset : ℤ) : String :=
  ByteCode.hexEncode (Cookies.hmac (signingKey secret) ("cursor:" ++ toString offset))

/-- The offset of a cursor, if the signature is the one of that offset. -/
def readCursor (secret raw : String) : Except Problem ℤ := do
  let (offsetPart, sig) ← okOr (RustStr.splitOnce '.' raw) (badRequest "malformed cursor")
  let offset ← okOr ((RustStr.parseInt offsetPart).filter fun n => Rounding.FitsI64 n)
    (badRequest "malformed cursor")
  ensure (0 ≤ offset ∧ signOffset secret offset = sig) (badRequest "invalid cursor signature")
  .ok offset

def pageFrom (secret : String) (params : PageParams) : Except Problem Page := do
  let limit := params.limit.getD Page.defaultLimit
  ensure (1 ≤ limit ∧ limit ≤ Page.maxLimit)
    (badRequest ("limit must be between 1 and " ++ toString Page.maxLimit))
  let offset ← match params.cursor with
    | none => .ok 0
    | some raw => readCursor secret raw
  .ok { limit := limit, offset := offset }

/-- The target of a `Link` header with `rel="next"`: a path, and the parameters behind it. -/
structure NextLink where
  path : String
  limit : ℤ
  cursor : String
deriving DecidableEq

/-- The text of the header. -/
def NextLink.value (link : NextLink) : String :=
  "<" ++ link.path ++ (if '?' ∈ link.path.toList then "&" else "?") ++ "limit=" ++
    toString link.limit ++ "&cursor=" ++ link.cursor ++ ">; rel=\"next\""

/-- The parameters of the request that follows the link. -/
def NextLink.params (link : NextLink) : PageParams :=
  { cursor := some link.cursor, limit := some link.limit }

def cursorOf (secret : String) (offset : ℤ) : String :=
  toString offset ++ "." ++ signOffset secret offset

/-- `next_link`: none behind a page that is not full. -/
def nextLink (secret path : String) (page : Page) (returned : ℕ) : Option NextLink :=
  if (returned : ℤ) < page.limit then none
  else
    let link : NextLink :=
      { path := path, limit := page.limit
        cursor := cursorOf secret (Rounding.wrapI64 (page.offset + returned)) }
    -- A text that is no header value gives no link.
    (Cookies.fromStr link.value).map fun _ => link

/-! ## Reading what was written -/

theorem readCursor_cursorOf (secret : String) {offset : ℤ} (hfits : Rounding.FitsI64 offset) :
    readCursor secret (cursorOf secret offset) =
      if 0 ≤ offset then .ok offset else .error (badRequest "invalid cursor signature") := by
  have hdot : '.' ∉ (toString offset).toList := by
    rw [RustStr.toList_toString]
    intro h
    rcases List.mem_append.mp h with h | h
    · split at h <;> simp at h
    · have := RustStr.isDigit_of_mem_toDigits h
      revert this
      decide
  have hsplit : RustStr.splitOnce '.' (cursorOf secret offset) =
      some (toString offset, signOffset secret offset) := by
    rw [RustStr.splitOnce_eq_some]
    exact ⟨by simp [cursorOf], hdot⟩
  have hread : (RustStr.parseInt (toString offset)).filter (fun n => decide (Rounding.FitsI64 n)) =
      some offset := by
    rw [RustStr.parseInt_toString]
    simp [Option.filter, hfits]
  rw [readCursor, hsplit]
  simp only [okOr, ok_bind, hread]
  split
  · next hpos => simp [ensure, hpos, ok_bind]
  · next hneg =>
      simp [ensure, hneg]
      rfl

/-- The characters of a header. -/
def Printable (c : Char) : Prop := 0x20 ≤ c.toNat ∧ c.toNat ≠ 0x7f

instance : DecidablePred Printable := by
  unfold Printable
  infer_instance

theorem fromStr_of_printable {s : String} (h : ∀ c ∈ s.toList, Printable c) :
    Cookies.fromStr s = some s := by
  rw [Cookies.fromStr, if_pos]
  rw [List.all_eq_true]
  intro c hc
  obtain ⟨hlow, hdel⟩ := h c hc
  simp [hlow, hdel]

theorem printable_digitChar {n : ℕ} (h : n < 16) : Printable (Nat.digitChar n) := by
  have hall : ∀ i < 16, Printable (Nat.digitChar i) := by decide
  exact hall n h

theorem printable_of_isDigit {c : Char} (h : c.isDigit = true) : Printable c := by
  simp only [Char.isDigit, Bool.and_eq_true, decide_eq_true_eq] at h
  have hlow := UInt32.le_iff_toNat_le.mp h.1
  have hhigh := UInt32.le_iff_toNat_le.mp h.2
  change 48 ≤ c.toNat at hlow
  change c.toNat ≤ 57 at hhigh
  exact ⟨by omega, by omega⟩

theorem printable_toString (n : ℤ) : ∀ c ∈ (toString n).toList, Printable c := by
  intro c hc
  rw [RustStr.toList_toString] at hc
  rcases List.mem_append.mp hc with hc | hc
  · split at hc
    · rw [List.mem_singleton.mp hc]
      decide
    · cases hc
  · exact printable_of_isDigit (RustStr.isDigit_of_mem_toDigits hc)

theorem printable_hexEncode (bytes : List UInt8) :
    ∀ c ∈ (ByteCode.hexEncode bytes).toList, Printable c := by
  intro c hc
  rw [ByteCode.hexEncode, String.toList_ofList] at hc
  obtain ⟨b, -, hc⟩ := List.mem_flatMap.mp hc
  have hb := b.toNat_lt
  rcases List.mem_cons.mp hc with rfl | hc
  · exact printable_digitChar (by omega)
  · rw [List.mem_singleton.mp hc]
    exact printable_digitChar (by omega)

theorem printable_append {s t : String} (hs : ∀ c ∈ s.toList, Printable c)
    (ht : ∀ c ∈ t.toList, Printable c) : ∀ c ∈ (s ++ t).toList, Printable c := by
  intro c hc
  rw [String.toList_append] at hc
  rcases List.mem_append.mp hc with hc | hc
  · exact hs c hc
  · exact ht c hc

theorem printable_hyphenated (u : Uuid) : ∀ c ∈ (Uuid.hyphenated u).toList, Printable c := by
  have hgroup : ∀ start len, ∀ c ∈ (String.ofList ((((List.range 32).reverse.map fun i =>
      Nat.digitChar (u.val / 16 ^ i % 16)).drop start).take len)).toList, Printable c := by
    intro start len c hc
    rw [String.toList_ofList] at hc
    obtain ⟨i, -, rfl⟩ := List.mem_map.mp (List.mem_of_mem_drop (List.mem_of_mem_take hc))
    exact printable_digitChar (Nat.mod_lt _ (by decide))
  have hdash : ∀ c ∈ "-".toList, Printable c := RustStr.forall_chars rfl
  have hfront := printable_append (printable_append (hgroup 0 8) hdash) (hgroup 8 4)
  have hmiddle := printable_append (printable_append hfront hdash) (hgroup 12 4)
  have hback := printable_append (printable_append hmiddle hdash) (hgroup 16 4)
  exact printable_append (printable_append hback hdash) (hgroup 20 12)

theorem printable_cursorOf (secret : String) (offset : ℤ) :
    ∀ c ∈ (cursorOf secret offset).toList, Printable c := by
  have hdot : ∀ c ∈ ".".toList, Printable c := RustStr.forall_chars rfl
  exact printable_append (printable_append (printable_toString offset) hdot)
    (printable_hexEncode _)

theorem printable_value {link : NextLink} (hpath : ∀ c ∈ link.path.toList, Printable c)
    (hcursor : ∀ c ∈ link.cursor.toList, Printable c) :
    ∀ c ∈ link.value.toList, Printable c := by
  have hsep : ∀ c ∈ (if '?' ∈ link.path.toList then "&" else "?").toList, Printable c := by
    split
    · exact RustStr.forall_chars rfl
    · exact RustStr.forall_chars rfl
  have hopen : ∀ c ∈ "<".toList, Printable c := RustStr.forall_chars rfl
  have hlimit : ∀ c ∈ "limit=".toList, Printable c := RustStr.forall_chars rfl
  have hand : ∀ c ∈ "&cursor=".toList, Printable c := RustStr.forall_chars rfl
  have hclose : ∀ c ∈ ">; rel=\"next\"".toList, Printable c := RustStr.forall_chars rfl
  have hfront := printable_append (printable_append (printable_append hopen hpath) hsep) hlimit
  exact printable_append (printable_append (printable_append
    (printable_append hfront (printable_toString link.limit)) hand) hcursor) hclose

theorem nextLink_of_full {secret path : String} {page : Page} {returned : ℕ}
    (hpath : ∀ c ∈ path.toList, Printable c) (hfull : page.limit ≤ returned) :
    ∃ link, nextLink secret path page returned = some link ∧ link.limit = page.limit ∧
      link.cursor = cursorOf secret (Rounding.wrapI64 (page.offset + returned)) := by
  have hcursor := printable_cursorOf secret (Rounding.wrapI64 (page.offset + returned))
  generalize hnext : cursorOf secret (Rounding.wrapI64 (page.offset + returned)) = cursor
    at hcursor ⊢
  obtain ⟨link, hlink⟩ : ∃ link : NextLink,
      link = { path := path, limit := page.limit, cursor := cursor } := ⟨_, rfl⟩
  have hprintable : ∀ c ∈ link.value.toList, Printable c := by
    rw [hlink]
    exact printable_value hpath hcursor
  have hvalue := fromStr_of_printable hprintable
  refine ⟨link, ?_, by rw [hlink], by rw [hlink]⟩
  rw [nextLink, if_neg (by omega)]
  simp only [hnext, ← hlink, hvalue, Option.map_some]

end Api

end OpenAccounting
