import OpenAccounting.Api.Invoices
import OpenAccounting.Api.Transactions

/-!
# Idempotency keys

The durable idempotency of `api/helpers.rs` and the four endpoints that use it here.  A
request with an `Idempotency-Key` first looks for a stored response under the key and its
token.  If there is none it runs, and then its response is stored.  Lookup, run and store
are three separate accesses to the database.

A stored response is found for 24 hours.  Its row stays, and holds the primary key, until
`purge_expired_idempotency` removes it.

What a request is recognised by is the fingerprint of a JSON value: its body for the three
endpoints that have one, the empty object for `reverse`.  JSON values and what the
serialisation library makes of them are a parameter, `Serde`.
-/

namespace OpenAccounting

open Calendar Commit Relational

namespace Api

/-! ## The table -/

/-- A row of `api_idempotency`. -/
structure IdempotencyRow where
  key : String
  tokenId : Uuid
  requestFingerprint : String
  responseStatus : ℕ
  responseBody : String
  /-- `now()` of the insert, in microseconds. -/
  createdAt : ℤ
deriving DecidableEq

def idempotencyWindowHours : ℤ := 24

/-- `make_interval(hours => IDEMPOTENCY_WINDOW_HOURS)`, in microseconds. -/
def window : ℤ := idempotencyWindowHours * 60 * 60 * 1000000

def IdempotencyRow.For (key : String) (token : Uuid) (row : IdempotencyRow) : Prop :=
  row.key = key ∧ row.tokenId = token

instance (key : String) (token : Uuid) : DecidablePred (IdempotencyRow.For key token) := by
  unfold IdempotencyRow.For
  infer_instance

/-- The problem of a key that comes back with another request. -/
def idempotencyConflict : Problem :=
  { unprocessable "Idempotency-Key reused with a different request body" with
    ty := "/errors/idempotency-conflict" }

def idempotencyLookup (table : List IdempotencyRow) (now : ℤ) (key : String) (token : Uuid)
    (fingerprint : String) : Except Problem (Option (ℕ × String)) :=
  match table.find? fun row => row.For key token ∧ now - window < row.createdAt with
  | none => .ok none
  | some row =>
    if row.requestFingerprint ≠ fingerprint then .error idempotencyConflict
    else .ok (some (row.responseStatus, row.responseBody))

/-- The body that is stored: a large one is replaced by a note. -/
def cappedBody (body : String) : String :=
  if 1000000 < body.utf8ByteSize then
    "\x7b\"replayed\":true,\"note\":\"body too large to replay\"\x7d"
  else body

/-- `idempotency_store`: `ON CONFLICT (key, token_id) DO NOTHING`. -/
def idempotencyStore (table : List IdempotencyRow) (now : ℤ) (key : String) (token : Uuid)
    (fingerprint : String) (status : ℕ) (body : String) : List IdempotencyRow :=
  if ∃ row ∈ table, row.For key token then table
  else table ++ [⟨key, token, fingerprint, status, cappedBody body, now⟩]

def purgeExpiredIdempotency (table : List IdempotencyRow) (now : ℤ) : List IdempotencyRow :=
  deleteWhere (fun row => row.createdAt < now - window) table

section Table

variable {table : List IdempotencyRow} {now : ℤ} {key : String} {token : Uuid} {fp : String}
  {status : ℕ} {body : String}

/-- What is found was stored under the key, the token and the fingerprint, in the window. -/
theorem idempotencyLookup_eq_some
    (h : idempotencyLookup table now key token fp = .ok (some (status, body))) :
    ∃ row ∈ table, row.For key token ∧ now - window < row.createdAt ∧
      row.requestFingerprint = fp ∧ row.responseStatus = status ∧ row.responseBody = body := by
  rw [idempotencyLookup] at h
  split at h
  · cases h
  · next row hrow =>
      have hfor : row.For key token ∧ now - window < row.createdAt := by
        simpa using List.find?_some hrow
      split at h
      · cases h
      · next hfp =>
          cases h
          exact ⟨row, List.mem_of_find?_eq_some hrow, hfor.1, hfor.2, not_not.mp hfp, rfl, rfl⟩

theorem mem_idempotencyStore {row : IdempotencyRow}
    (h : row ∈ idempotencyStore table now key token fp status body) :
    row ∈ table ∨ row = ⟨key, token, fp, status, cappedBody body, now⟩ := by
  rw [idempotencyStore] at h
  split at h
  · exact Or.inl h
  · simpa using h

theorem filter_idempotencyStore :
    (idempotencyStore table now key token fp status body).filter (fun row => row.For key token) =
      if table.filter (fun row => row.For key token) = [] then
        [⟨key, token, fp, status, cappedBody body, now⟩]
      else table.filter fun row => row.For key token := by
  have hself : IdempotencyRow.For key token ⟨key, token, fp, status, cappedBody body, now⟩ :=
    ⟨rfl, rfl⟩
  by_cases hrow : ∃ row ∈ table, row.For key token
  · have hne : table.filter (fun row => decide (row.For key token)) ≠ [] := by
      obtain ⟨row, hmem, hfor⟩ := hrow
      exact List.ne_nil_of_mem (List.mem_filter.mpr ⟨hmem, by simpa using hfor⟩)
    rw [idempotencyStore, if_pos hrow, if_neg hne]
  · have hnil : table.filter (fun row => decide (row.For key token)) = [] := by
      rw [List.filter_eq_nil_iff]
      intro row hmem hfor
      exact hrow ⟨row, hmem, of_decide_eq_true hfor⟩
    rw [idempotencyStore, if_neg hrow, if_pos hnil, List.filter_append, hnil]
    simp [hself]

theorem filter_idempotencyStore_of_ne {key' : String} {token' : Uuid}
    (h : ¬ (key = key' ∧ token = token')) :
    (idempotencyStore table now key token fp status body).filter (fun row => row.For key' token') =
      table.filter fun row => row.For key' token' := by
  have hother : ¬ IdempotencyRow.For key' token' ⟨key, token, fp, status, cappedBody body, now⟩ := h
  rw [idempotencyStore]
  split
  · rfl
  · simp [List.filter_append, hother]

end Table

/-! ## The endpoints -/

/-- A response of status `201`. -/
inductive ApiResponse where
  | transaction (response : Transactions.CreateTransactionResponse)
  | reversal (response : Transactions.ReverseResponse)
  | invoice (response : Invoices.CreateInvoiceResponse)
  | payment (id : Uuid)
deriving DecidableEq

/-- JSON values and the serialisation of the program's types. -/
structure Serde (Json : Type) where
  /-- `json!` of the empty object. -/
  emptyObject : Json
  /-- `serde_json::to_string` of a value. -/
  toString : Json → String
  /-- `serde_json::from_value`, or the text of its error. -/
  transactionBody : Json → Except String Transactions.CreateTransactionBody
  invoiceBody : Json → Except String Invoices.CreateInvoiceBody
  paymentBody : Json → Except String Payments.CreatePaymentBody
  /-- The text of a response. -/
  render : ApiResponse → String

variable {Json : Type}

/-- `fingerprint`: the SHA-256 of the canonical text, in hexadecimal. -/
def fingerprint (serde : Serde Json) (value : Json) : String :=
  ByteCode.hexEncode (Sha256.hash (ByteCode.utf8 (serde.toString value)))

/-- An endpoint with its path parameters and its body. -/
inductive Call (Json : Type) where
  | createTransaction (ledger : Uuid) (body : Json)
  | reverse (ledger txn : Uuid)
  | createInvoice (ledger : Uuid) (body : Json)
  | createPayment (ledger : Uuid) (body : Json)
deriving DecidableEq

namespace Call

/-- The value whose fingerprint the endpoint takes. -/
def fingerprinted (serde : Serde Json) : Call Json → Json
  | .createTransaction _ body => body
  | .reverse _ _ => serde.emptyObject
  | .createInvoice _ body => body
  | .createPayment _ body => body

/-- A response and the next state, or a problem. -/
def respond {α : Type} (wrap : α → ApiResponse) :
    Except Problem α × Db → Except Problem ApiResponse × Db
  | (.ok a, db) => (.ok (wrap a), db)
  | (.error e, db) => (.error e, db)

/-- The endpoint between the lookup and the store. -/
def execute (serde : Serde Json) (db : Db) (req : Request) (user : Uuid) :
    Call Json → Except Problem ApiResponse × Db
  | .createTransaction ledger body =>
    match serde.transactionBody body with
    | .error e => (.error (badRequest e), db)
    | .ok body => respond .transaction (Transactions.create db req user ledger body)
  | .reverse ledger txn => respond .reversal (Transactions.reverse db req user ledger txn)
  | .createInvoice ledger body =>
    respond .invoice (Invoices.create db req user ledger (serde.invoiceBody body))
  | .createPayment ledger body =>
    respond .payment (Payments.create db req user ledger (serde.paymentBody body))

end Call

/-! ## A request from lookup to store -/

/-- How a request is answered. -/
inductive Answer where
  /-- From the store. -/
  | replayed (status : ℕ) (body : String)
  | created (status : ℕ) (body : String)
  | refused (problem : Problem)
deriving DecidableEq

/-- The request was carried out. -/
def Answer.isCreated : Answer → Bool
  | .created _ _ => true
  | _ => false

/-- `StatusCode::from_u16(status).unwrap_or(StatusCode::CREATED)`. -/
def statusOrCreated (status : ℕ) : ℕ := if 100 ≤ status ∧ status < 1000 then status else 201

/-- An endpoint with its idempotency, run without other requests in between.  The clock is
read at the lookup and again at the store. -/
def handle (serde : Serde Json) (db : Db) (table : List IdempotencyRow) (req : Request)
    (storedAt : ℤ) (user token : Uuid) (key : Option String) (call : Call Json) :
    Answer × Db × List IdempotencyRow :=
  let fp := fingerprint serde (call.fingerprinted serde)
  match key with
  | none =>
    match call.execute serde db req user with
    | (.ok response, db) => (.created 201 (serde.render response), db, table)
    | (.error e, db) => (.refused e, db, table)
  | some k =>
    match idempotencyLookup table req.now k token fp with
    | .error e => (.refused e, db, table)
    | .ok (some (status, body)) => (.replayed (statusOrCreated status) body, db, table)
    | .ok none =>
      match call.execute serde db req user with
      | (.ok response, db) =>
        let body := serde.render response
        (.created 201 body, db, idempotencyStore table storedAt k token fp 201 body)
      | (.error e, db) => (.refused e, db, table)

/-- What a request does to the table: it stores a new response, it returns a stored one, or
it does neither. -/
theorem handle_cases (serde : Serde Json) (db : Db) (table : List IdempotencyRow) (req : Request)
    (storedAt : ℤ) (user token : Uuid) (key : Option String) (call : Call Json) :
    let result := handle serde db table req storedAt user token key call
    let fp := fingerprint serde (call.fingerprinted serde)
    (∃ k body, key = some k ∧ result.1 = .created 201 body ∧
        result.2.2 = idempotencyStore table storedAt k token fp 201 body) ∨
      (∃ k status body, key = some k ∧
        idempotencyLookup table req.now k token fp = .ok (some (status, body)) ∧
        result.1 = .replayed (statusOrCreated status) body ∧ result.2.2 = table) ∨
      ((∀ status body, result.1 ≠ .replayed status body) ∧ result.2.2 = table) := by
  intro result fp
  cases key with
  | none =>
    right
    right
    simp only [result, handle]
    split
    · exact ⟨by simp, rfl⟩
    · exact ⟨by simp, rfl⟩
  | some k =>
    simp only [result, handle]
    split
    · exact Or.inr (Or.inr ⟨by simp, rfl⟩)
    · next status body hlookup =>
        exact Or.inr (Or.inl ⟨k, status, body, rfl, hlookup, rfl, rfl⟩)
    · split
      · exact Or.inl ⟨k, _, rfl, rfl, rfl⟩
      · exact Or.inr (Or.inr ⟨by simp, rfl⟩)

end Api

end OpenAccounting
