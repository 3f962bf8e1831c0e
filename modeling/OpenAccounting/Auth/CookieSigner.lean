import OpenAccounting.Lib.ByteCode
import OpenAccounting.Lib.RustStr
import OpenAccounting.Lib.Sha256

/-!
# Signed session cookies

The layer of `auth/cookie_signer.rs` around the session store.  On the way in it checks the
`oa_session` cookie, whose value is `<session id>.<mac>`, and replaces the `Cookie` header by one
with the bare session id.  On the way out it appends the MAC to the session id of the
`Set-Cookie` header.

A `Cookie` header is a text.  The layer reads it only if its characters are visible ASCII
(`HeaderValue::to_str`), and passes a request on as it is when it finds no signed cookie in it.
-/

namespace OpenAccounting.Cookies

/-! ## Message authentication codes -/

/-- Multi-key signer. -/
structure CookieSigner where
  current : List UInt8
  previous : List (List UInt8) := []
deriving DecidableEq

/-- The key, hashed if it is longer than a block, filled up with zeros. -/
def blockKey (key : List UInt8) : List UInt8 :=
  let short := if 64 < key.length then Sha256.hash key else key
  short ++ List.replicate (64 - short.length) 0

/-- `hmac`: HMAC-SHA256. -/
def hmac (key : List UInt8) (data : String) : List UInt8 :=
  let k := blockKey key
  let inner := Sha256.hash ((k.map (· ^^^ 0x36)) ++ ByteCode.utf8 data)
  Sha256.hash ((k.map (· ^^^ 0x5c)) ++ inner)

def constantTimeEq (a b : List UInt8) : Bool :=
  a.length = b.length && (List.zipWith (· ^^^ ·) a b).foldl (· ||| ·) 0 == 0

/-- `CookieSigner::verify`: the number of the key that matches. -/
def CookieSigner.verify (signer : CookieSigner) (sessionId macB64 : String) : Option ℕ :=
  match Base64.decode macB64.toList with
  | none => none
  | some mac =>
    if constantTimeEq (hmac signer.current sessionId) mac then some 0
    else (signer.previous.findIdx? fun prev =>
      constantTimeEq (hmac prev sessionId) mac).map (· + 1)

def CookieSigner.sign (signer : CookieSigner) (sessionId : String) : String :=
  String.ofList (Base64.encode (hmac signer.current sessionId))

/-! ## Headers -/

def cookieName : String := "oa_session"

def toStr (header : String) : Option String :=
  if header.toList.all fun c => (0x20 ≤ c.toNat && c.toNat < 0x7f) || c == '\t' then some header
  else none

def fromStr (text : String) : Option String :=
  if text.toList.all fun c => (0x20 ≤ c.toNat && c.toNat ≠ 0x7f) || c == '\t' then some text
  else none

/-- `parse_session_cookie` on the parts of a header. -/
def parseParts : List String → Option (String × String)
  | [] => none
  | part :: rest =>
    match RustStr.splitOnce '=' (RustStr.trim part) with
    -- The `?` of the source leaves the loop here.
    | none => none
    | some (name, value) =>
      if name = cookieName then RustStr.splitOnce '.' value else parseParts rest

def parseSessionCookie (header : String) : Option (String × String) :=
  parseParts (RustStr.split ';' header)

/-- One part of a `Set-Cookie` header, signed if it is the session cookie. -/
def signPart (signer : CookieSigner) (part : String) : String :=
  match RustStr.splitOnce '=' part with
  | some (name, value) =>
    if name = cookieName then cookieName ++ "=" ++ value ++ "." ++ signer.sign value else part
  | none => part

def rewriteSetCookie (signer : CookieSigner) (setCookie : String) : String :=
  "; ".intercalate ((((RustStr.split ';' setCookie).map RustStr.trim).filter fun p => p ≠ "").map
    (signPart signer))

/-! ## The layer -/

/-- A response, as far as the layer looks at it. -/
structure Response where
  status : ℕ
  setCookie : Option String := none
  body : String := ""
deriving DecidableEq

/-- What the layer does with a request. -/
inductive Ruling where
  /-- It is passed on as it is. -/
  | untouched
  /-- It is passed on with this `Cookie` header. -/
  | verified (header : String)
  | rejected
deriving DecidableEq

/-- The first half of `enforce_signed_cookie`. -/
def rule (signer : CookieSigner) (cookie : Option String) : Ruling :=
  match cookie.bind toStr with
  | none => .untouched
  | some header =>
    match parseSessionCookie header with
    | none => .untouched
    | some (sessionId, mac) =>
      match signer.verify sessionId mac with
      | none => .rejected
      | some _ => .verified ((fromStr (cookieName ++ "=" ++ sessionId)).getD header)

/-- The MAC is put back on the way out. -/
def reattach (signer : CookieSigner) (response : Response) : Response :=
  match response.setCookie.bind toStr with
  | none => response
  | some setCookie =>
    match fromStr (rewriteSetCookie signer setCookie) with
    | none => response
    | some header => { response with setCookie := some header }

/-- `enforce_signed_cookie` around the inner stack `next`. -/
def enforceSignedCookie (signer : CookieSigner) (next : Option String → Response)
    (cookie : Option String) : Response :=
  match rule signer cookie with
  | .untouched => next cookie
  | .verified header => reattach signer (next (some header))
  | .rejected =>
    { status := 401
      setCookie := some (cookieName ++ "=; Path=/; Max-Age=0")
      body := "Invalid session cookie." }

/-- The `Cookie` header that the inner stack gets. -/
def forwarded (signer : CookieSigner) (cookie : Option String) : Option String :=
  match rule signer cookie with
  | .untouched => cookie
  | .verified header => some header
  | .rejected => none

/-! ## Signing and verifying -/

theorem foldl_or_eq_zero {bytes : List UInt8} {acc : UInt8} :
    bytes.foldl (· ||| ·) acc = 0 ↔ acc = 0 ∧ ∀ b ∈ bytes, b = 0 := by
  induction bytes generalizing acc with
  | nil => simp
  | cons b bytes ih =>
    rw [List.foldl_cons, ih, UInt8.or_eq_zero_iff]
    simp [and_assoc]

theorem constantTimeEq_iff {a b : List UInt8} : constantTimeEq a b = true ↔ a = b := by
  have hzip : ∀ {a b : List UInt8}, a.length = b.length →
      ((∀ c ∈ List.zipWith (· ^^^ ·) a b, c = 0) ↔ a = b) := by
    intro a
    induction a with
    | nil =>
      intro b hlen
      cases b with
      | nil => simp
      | cons => simp at hlen
    | cons x a ih =>
      intro b hlen
      cases b with
      | nil => simp at hlen
      | cons y b =>
        have htail := ih (b := b) (by simpa using hlen)
        simp [htail]
  unfold constantTimeEq
  rw [Bool.and_eq_true, decide_eq_true_eq, beq_iff_eq, foldl_or_eq_zero]
  constructor
  · rintro ⟨hlen, -, hall⟩
    exact (hzip hlen).mp hall
  · rintro rfl
    exact ⟨rfl, rfl, (hzip rfl).mpr rfl⟩

end OpenAccounting.Cookies
