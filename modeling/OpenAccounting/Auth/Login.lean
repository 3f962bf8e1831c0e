import OpenAccounting.Db.State
import OpenAccounting.Lib.Commit
import OpenAccounting.Lib.Threads

/-!
# The second factor

One-time passwords, and the step of a login that asks for one.
-/

/-!
## One-time passwords

The second factor of a login (`auth/totp.rs`).  A user who has enrolled has one row in
`user_totp`, with the sealed secret and the time step of the code accepted last.  The cipher,
the one-time passwords themselves and the hashes of the recovery codes are the work of other
crates, and `TotpCrypto` stands for them.
-/

namespace OpenAccounting

/-- How a check of a second factor fails. -/
inductive TotpError where
  | invalidCode
  | base32 (message : String)
  | totpLib (message : String)
deriving DecidableEq

/-- A row of `user_totp`, whose primary key is the user. -/
structure UserTotp where
  secretEncrypted : String
  lastUsedCounter : ℤ := 0
deriving DecidableEq

/-- A row of `recovery_codes`. -/
structure RecoveryCode where
  id : Uuid
  userId : Uuid
  codeHash : String
  /-- `consumed_at IS NOT NULL`. -/
  consumed : Bool := false
deriving DecidableEq

/-- The tables a login reads and writes. -/
structure LoginTables where
  users : List User := []
  userTotp : Uuid → Option UserTotp := fun _ => none
  recoveryCodes : List RecoveryCode := []

/-- What `totp.rs` takes from other crates and from the Unicode tables. -/
structure TotpCrypto where
  /-- `TotpCipher::open`, or `none` for `TotpError::Decryption`. -/
  openSealed : String → Option String
  /-- `totp_from_secret` with the `check` of the result: the matched time step of a code at a
  time in seconds. -/
  totpFromSecret : String → Except TotpError (String → UInt64 → Option UInt64)
  /-- `verify_recovery_code_hash(code, hash)`. -/
  verifyRecoveryCodeHash : String → String → Bool
  /-- `str::to_uppercase`. -/
  toUppercase : String → String

namespace Totp

open Commit

def asI64 (n : UInt64) : ℤ := Int.bmod n.toNat (2 ^ 64)

/-- `verify_code` at `now` seconds: the matched step, if it is after the last one used. -/
def verifyCode (crypto : TotpCrypto) (secret code : String) (lastUsedCounter now : ℤ) :
    Except TotpError UInt64 := do
  let check ← crypto.totpFromSecret secret
  match check code (UInt64.ofInt now) with
  | none => .error .invalidCode
  | some matched =>
    if asI64 matched ≤ lastUsedCounter then .error .invalidCode else .ok matched

def fetchState (t : LoginTables) (user : Uuid) : Option (String × ℤ) :=
  (t.userTotp user).map fun row => (row.secretEncrypted, row.lastUsedCounter)

/-- `advance_counter`: whether the row still had the expected counter, and the tables after. -/
def advanceCounter (t : LoginTables) (user : Uuid) (expected new : ℤ) : Bool × LoginTables :=
  match t.userTotp user with
  | none => (false, t)
  | some row =>
    if row.lastUsedCounter = expected then
      (true, { t with
        userTotp := Function.update t.userTotp user
          (some { row with lastUsedCounter := new }) })
    else (false, t)

/-- `consume_recovery_code`.  The rows that other submissions have locked are skipped. -/
def consumeRecoveryCode (crypto : TotpCrypto) (t : LoginTables) (locked : List Uuid)
    (user : Uuid) (code : String) : Except TotpError Uuid × LoginTables :=
  match t.recoveryCodes.find? fun r =>
      r.userId = user && !r.consumed && !locked.contains r.id &&
        crypto.verifyRecoveryCodeHash code r.codeHash with
  | none => (.error .invalidCode, t)
  | some row =>
    (.ok row.id, { t with
      recoveryCodes := t.recoveryCodes.map fun r =>
        if r.id = row.id then { r with consumed := true } else r })

/-! ## What they do -/

theorem verifyCode_lt {crypto : TotpCrypto} {secret code : String} {last now : ℤ}
    {matched : UInt64} (h : verifyCode crypto secret code last now = .ok matched) :
    last < asI64 matched := by
  simp only [verifyCode, bind_eq_ok] at h
  obtain ⟨check, -, h⟩ := h
  cases hstep : check code (UInt64.ofInt now) with
  | none => simp [hstep] at h
  | some s =>
    simp only [hstep] at h
    split at h
    · cases h
    · rename_i hlt
      cases h
      exact not_le.mp hlt

/-- The compare-and-set finds the expected counter, or it changes nothing. -/
theorem advanceCounter_cases (t : LoginTables) (user : Uuid) (expected new : ℤ) :
    advanceCounter t user expected new = (false, t) ∨
      ∃ row, t.userTotp user = some row ∧ row.lastUsedCounter = expected ∧
        advanceCounter t user expected new = (true, { t with
          userTotp := Function.update t.userTotp user
            (some { row with lastUsedCounter := new }) }) := by
  unfold advanceCounter
  cases hrow : t.userTotp user with
  | none => exact Or.inl rfl
  | some row =>
    by_cases heq : row.lastUsedCounter = expected
    · exact Or.inr ⟨row, rfl, heq, by simp [heq]⟩
    · exact Or.inl (by simp [heq])

@[simp] theorem consumeRecoveryCode_userTotp (crypto : TotpCrypto) (t : LoginTables)
    (locked : List Uuid) (user : Uuid) (code : String) :
    (consumeRecoveryCode crypto t locked user code).2.userTotp = t.userTotp := by
  unfold consumeRecoveryCode
  split <;> rfl

end Totp

end OpenAccounting

/-!
## The second step of a login

`login_2fa_submit` of `auth/handlers.rs`.  The submission reads the row of the user, checks the
code against what it has read, falls back to the recovery codes, moves the counter, and logs
the user in.  Each access to the database is an action of its own, so that other submissions
can come in between.

The session store and the clock are inputs of the actions.
-/

namespace OpenAccounting.Login

open Totp

/-- A submitted form, with what the session holds for it. -/
structure Submission where
  /-- The user under `SESSION_KEY_2FA_PENDING`. -/
  pending : Option Uuid
  /-- The location under `SESSION_KEY_2FA_NEXT`. -/
  savedNext : Option String := none
  code : String
  next : Option String := none
deriving DecidableEq

/-- How the handler answers. -/
inductive Answer where
  | redirect (location : String)
  | page (next error : String)
  | internal (message : String)
  /-- An error with the text of the database or of the session store. -/
  | failed
deriving DecidableEq

/-- Where a submission is. -/
inductive Place where
  | idle
  /-- `fetch_state` has returned the sealed secret and the counter. -/
  | fetched (user : Uuid) (form : Submission) (sealedSecret : String) (counter : ℤ)
  /-- The code is no one-time password. -/
  | unmatched (user : Uuid) (form : Submission)
  /-- The code is the one-time password of the step. -/
  | verified (user : Uuid) (form : Submission) (counter step : ℤ)
  /-- The second factor is accepted, by a step or by a recovery code. -/
  | matched (user : Uuid) (form : Submission) (step : Option ℤ)
  | answered (answer : Answer)
deriving DecidableEq

/-- A login that went through. -/
structure Success where
  /-- The number of the submission. -/
  number : ℕ
  user : Uuid
  /-- The matched step, or `none` for a recovery code. -/
  step : Option ℤ
deriving DecidableEq

/-- A compare-and-set that found the counter it expected. -/
structure Advance where
  number : ℕ
  user : Uuid
  step : ℤ
deriving DecidableEq

/-- The tables, and what has happened so far. -/
structure Shared where
  tables : LoginTables
  advances : List Advance := []
  successes : List Success := []

inductive Action where
  | submit (form : Submission)
  | verify (now : ℤ)
  | recover (locked : List Uuid)
  | advance
  /-- `auth.login` succeeds or not. -/
  | login (ok : Bool)
  /-- An access to the database fails. -/
  | fail

/-- The location after a login. -/
def Submission.target (form : Submission) : String :=
  form.savedNext.getD (form.next.getD "/")

/-- `session.get(SESSION_KEY_2FA_PENDING)` and `fetch_state`. -/
def submit (t : LoginTables) (form : Submission) : Place :=
  match form.pending with
  | none => .answered (.redirect "/login")
  | some user =>
    match fetchState t user with
    | none => .answered (.redirect "/login")
    | some (sealedSecret, counter) => .fetched user form sealedSecret counter

/-- The secret is opened and the code verified against the counter that was read. -/
def verify (crypto : TotpCrypto) (user : Uuid) (form : Submission) (sealedSecret : String)
    (counter now : ℤ) : Place :=
  match crypto.openSealed sealedSecret with
  | none => .answered (.internal "cipher: Decryption")
  | some secret =>
    match verifyCode crypto secret form.code counter now with
    | .ok step => .verified user form counter (asI64 step)
    | .error _ => .unmatched user form

/-- The code is tried as a recovery code. -/
def recover (crypto : TotpCrypto) (sh : Shared) (user : Uuid) (form : Submission)
    (locked : List Uuid) : Shared × Place :=
  let code := crypto.toUppercase (RustStr.trim form.code)
  match consumeRecoveryCode crypto sh.tables locked user code with
  | (.ok _, tables) => ({ sh with tables := tables }, .matched user form none)
  | (.error _, tables) =>
    ({ sh with tables := tables }, .answered (.page (form.next.getD "") "Invalid code"))

/-- The counter is moved.  What `advance_counter` returns is dropped. -/
def advance (number : ℕ) (sh : Shared) (user : Uuid) (form : Submission) (counter step : ℤ) :
    Shared × Place :=
  let (won, tables) := advanceCounter sh.tables user counter step
  ({ sh with
      tables := tables
      advances := if won then sh.advances ++ [⟨number, user, step⟩] else sh.advances },
    .matched user form (some step))

/-- The user is read and logged in. -/
def login (number : ℕ) (sh : Shared) (user : Uuid) (form : Submission) (step : Option ℤ)
    (ok : Bool) : Shared × Place :=
  if (∃ u ∈ sh.tables.users, u.id = user) ∧ ok then
    ({ sh with successes := sh.successes ++ [⟨number, user, step⟩] },
      .answered (.redirect form.target))
  else (sh, .answered .failed)

/-- `login_2fa_submit`, one action at a time. -/
def act (crypto : TotpCrypto) (number : ℕ) (sh : Shared) : Place → Action → Shared × Place
  | .idle, .submit form => (sh, submit sh.tables form)
  | .fetched user form sealedSecret counter, .verify now =>
    (sh, verify crypto user form sealedSecret counter now)
  | .unmatched user form, .recover locked => recover crypto sh user form locked
  | .verified user form counter step, .advance => advance number sh user form counter step
  | .matched user form step, .login ok => login number sh user form step ok
  | .answered answer, _ => (sh, .answered answer)
  | _, .fail => (sh, .answered .failed)
  | place, _ => (sh, place)

/-- The submissions, interleaved. -/
abbrev State := Threads.State ℕ Shared Place

/-- Any submission takes its next action. -/
def step (crypto : TotpCrypto) : State → ℕ × Action → State := Threads.step (act crypto)

end OpenAccounting.Login
