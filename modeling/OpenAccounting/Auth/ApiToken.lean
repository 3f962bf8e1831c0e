import OpenAccounting.Domain.Account
import OpenAccounting.Lib.ByteCode
import OpenAccounting.Lib.RustStr

/-!
# API tokens

`auth/api_token.rs`.  A token is `oa_live_` and the hexadecimal digits of 24 random bytes.  The
table keeps its first 12 digits, by which it is found, and an Argon2id hash of all of them.  Argon2
is a parameter.

The header that is verified consists of ASCII characters (`HeaderValue::to_str`), so its bytes are
its characters.  A query that fails answers as if there were no such token.
-/

namespace OpenAccounting.ApiTokens

open RustStr

def tokenPrefix : String := "oa_live_"

def prefixChars : ℕ := 12

structure ApiTokenRow where
  id : Uuid
  userId : Uuid
  name : String
  tokenPrefix : String
  tokenHash : String
  createdAt : ℤ
  lastUsedAt : Option ℤ := none
  revokedAt : Option ℤ := none
deriving DecidableEq

/-- `hash_secret`, at the salt it draws, and `verify_secret`. -/
structure Argon2 where
  hashSecret : String → String → Option String
  verifySecret : String → String → Option Bool

/-- A hash is verified by the secret it was made of, and by no other. -/
def Argon2.Lawful (argon2 : Argon2) : Prop :=
  ∀ salt secret hash, argon2.hashSecret salt secret = some hash →
    ∀ presented, argon2.verifySecret presented hash = some (decide (presented = secret))

/-- What `issue_token` and the database draw for a new row. -/
structure Draw where
  bytes : Vector UInt8 24
  salt : String
  id : Uuid
  now : ℤ

/-- `random_hex(SECRET_BYTES)`. -/
def Draw.secret (draw : Draw) : String := ByteCode.hexEncode draw.bytes.toList

def lookup (secret : String) : String := String.ofList (secret.toList.take prefixChars)

/-- `issue_token`: the plaintext and the table with the new row.  It fails if the secret cannot be
hashed or the row meets another one with its id or its prefix. -/
def issueToken (argon2 : Argon2) (rows : List ApiTokenRow) (user : Uuid) (name : String)
    (draw : Draw) : Option (String × List ApiTokenRow) :=
  match argon2.hashSecret draw.salt draw.secret with
  | none => none
  | some hash =>
    if ∃ r ∈ rows, r.id = draw.id ∨ r.tokenPrefix = lookup draw.secret then none
    else some (tokenPrefix ++ draw.secret, rows ++
      [{ id := draw.id, userId := user, name := name, tokenPrefix := lookup draw.secret
         tokenHash := hash, createdAt := draw.now }])

def presented (header : String) : Option String :=
  match stripPrefix tokenPrefix (trim ((stripPrefix "Bearer " header).getD header)) with
  | none => none
  | some secret => if secret.length < prefixChars then none else some secret

/-- `verify_token`: the user and the token, and the table with the time of the use. -/
def verifyToken (argon2 : Argon2) (rows : List ApiTokenRow) (header : String) (now : ℤ) :
    Option (Uuid × Uuid) × List ApiTokenRow :=
  match presented header with
  | none => (none, rows)
  | some secret =>
    match rows.find? fun r => r.tokenPrefix = lookup secret with
    | none => (none, rows)
    | some row =>
      if row.revokedAt.isSome then (none, rows)
      else if (argon2.verifySecret secret row.tokenHash).getD false = false then (none, rows)
      else (some (row.userId, row.id), rows.map fun r =>
        if r.id = row.id then { r with lastUsedAt := some now } else r)

/-- `revoke_token`: whether the user has such a token, and the table after. -/
def revokeToken (rows : List ApiTokenRow) (token user : Uuid) (now : ℤ) :
    Bool × List ApiTokenRow :=
  (rows.any fun r => r.id = token ∧ r.userId = user, rows.map fun r =>
    if r.id = token ∧ r.userId = user then { r with revokedAt := some (r.revokedAt.getD now) }
    else r)

end OpenAccounting.ApiTokens
