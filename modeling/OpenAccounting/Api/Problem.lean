import OpenAccounting.Domain.PostingService

/-!
# Error responses of the API

`api/problem.rs` and the access checks of `api/helpers.rs`.  A problem has a type that its
title gives, a title, a status and a detail.  A detail that quotes another error is modelled
by the words before the quotation and the error itself.
-/

namespace OpenAccounting

open Commit

/-- The type `Problem::new` derives from a title. -/
def problemType (title : String) : String :=
  "/errors/" ++ String.ofList (title.toList.map fun c => if c = ' ' then '-' else c.toLower)

/-- An error response. -/
structure Problem where
  status : ℕ
  title : String
  detail : String
  ty : String := problemType title
  /-- The database error that the detail quotes. -/
  cause : Option SqlError := none
  /-- The error of the posting service that the detail quotes. -/
  service : Option PostingServiceError := none
deriving DecidableEq

namespace Api

def dbProblem (e : SqlError) : Problem :=
  { status := 500, title := "Internal Server Error", detail := "", cause := some e }

def badRequest (detail : String) : Problem :=
  { status := 400, title := "Bad Request", detail := detail }

def notFound (detail : String) : Problem :=
  { status := 404, title := "Not Found", detail := detail }

def unprocessable (detail : String) : Problem :=
  { status := 422, title := "Unprocessable Entity", detail := detail }

/-- `SELECT id FROM ledgers WHERE id = $1 AND owner_id = $2`, as a `404`. -/
def ensureOwned (db : Db) (user ledger : Uuid) : Except Problem Unit :=
  ensure (∃ l ∈ db.ledgers, l.id = ledger ∧ l.ownerId = user)
    { status := 404, title := "Not Found", detail := "ledger not found" }

inductive LedgerRole where
  | owner
  | editor
  | viewer
deriving DecidableEq, Repr

/-- `ledger_role_for`: every member who is not an editor is a viewer. -/
def ledgerRoleFor (db : Db) (user ledger : Uuid) : Option LedgerRole :=
  if ∃ l ∈ db.ledgers, l.id = ledger ∧ l.ownerId = user then some .owner
  else (db.members.find? fun m => m.ledgerId = ledger ∧ m.userId = user).map fun m =>
    if m.role = .editor then .editor else .viewer

def checkAccess (role : Option LedgerRole) (needWrite : Bool) : Except Problem LedgerRole := do
  let role ← okOr role (notFound "ledger not found")
  ensure (¬ (needWrite ∧ role = .viewer))
    { status := 403, title := "Forbidden", detail := "viewer tokens cannot modify this ledger" }
  .ok role

def requireAccess (db : Db) (user ledger : Uuid) (needWrite : Bool) : Except Problem LedgerRole :=
  checkAccess (ledgerRoleFor db user ledger) needWrite

end Api

end OpenAccounting
