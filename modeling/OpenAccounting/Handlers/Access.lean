import OpenAccounting.Db.Statements

/-!
# Who may do what

The access checks of `handlers/ledgers.rs`.  A user reaches a ledger as its owner
or through a row of `ledger_members`.  Every check is made on the ledger id of the
request's path.
-/

namespace OpenAccounting

open Commit

/-- How a handler fails. -/
inductive AppError where
  | notFound
  | unauthorized
  | forbidden
  | forbiddenMsg (message : String)
  | validation (message : String)
  | unprocessable (message : String)
  | conflict (message : String)
  | db (e : SqlError)
  | internal (message : String)
deriving DecidableEq

/-- The role `ensure_access` returns. -/
inductive Role where
  | owner
  | member (role : MemberRole)
deriving DecidableEq

namespace Db

def ensureOwner (db : Db) (user ledger : Uuid) : Except AppError Ledger :=
  okOr (db.ledgers.find? fun l => l.id = ledger ∧ l.ownerId = user) .notFound

/-- `SELECT role FROM ledger_members WHERE ledger_id = $1 AND user_id = $2`. -/
def memberRole (db : Db) (user ledger : Uuid) : Option MemberRole :=
  (db.members.find? fun m => m.ledgerId = ledger ∧ m.userId = user).map LedgerMember.role

def ensureAccess (db : Db) (user ledger : Uuid) : Except AppError (Ledger × Role) := do
  let l ← okOr (db.findLedger ledger) .notFound
  if l.ownerId = user then .ok (l, .owner)
  else
    let role ← okOr (db.memberRole user ledger) .notFound
    .ok (l, .member role)

/-- `ensure_writer`: viewers and auditors may not write. -/
def ensureWriter (db : Db) (user ledger : Uuid) : Except AppError Ledger := do
  let (l, role) ← db.ensureAccess user ledger
  ensure (role ≠ .member .viewer ∧ role ≠ .member .auditor) .forbidden
  .ok l

def isAdmin (db : Db) (user : Uuid) : Bool :=
  db.users.any fun u => u.id = user ∧ u.isAdmin

def ensureOwnerOrAdmin (db : Db) (user ledger : Uuid) : Except AppError Ledger := do
  let (l, role) ← db.ensureAccess user ledger
  ensure (role = .owner ∨ db.isAdmin user) .forbidden
  .ok l

/-! ## What a passed check says -/

/-- The user owns the ledger or is a member of it. -/
def Related (db : Db) (user ledger : Uuid) : Prop :=
  (∃ l ∈ db.ledgers, l.id = ledger ∧ l.ownerId = user) ∨
    ∃ m ∈ db.members, m.ledgerId = ledger ∧ m.userId = user

theorem ensureAccess_related {db : Db} {user ledger : Uuid} {r : Ledger × Role}
    (h : db.ensureAccess user ledger = .ok r) :
    db.findLedger ledger = some r.1 ∧ db.Related user ledger := by
  simp only [ensureAccess, bind_eq_ok, okOr_eq_ok] at h
  obtain ⟨l, hl, h⟩ := h
  have hid : l.id = ledger := by simpa using List.find?_some hl
  split at h
  · next howner =>
      cases h
      exact ⟨hl, Or.inl ⟨l, List.mem_of_find?_eq_some hl, hid, howner⟩⟩
  · simp only [bind_eq_ok, okOr_eq_ok] at h
    obtain ⟨role, hrole, h⟩ := h
    cases h
    obtain ⟨m, hm, -⟩ := Option.map_eq_some_iff.mp hrole
    have hkey : m.ledgerId = ledger ∧ m.userId = user := by simpa using List.find?_some hm
    exact ⟨hl, Or.inr ⟨m, List.mem_of_find?_eq_some hm, hkey⟩⟩

theorem ensureWriter_related {db : Db} {user ledger : Uuid} {l : Ledger}
    (h : db.ensureWriter user ledger = .ok l) :
    db.findLedger ledger = some l ∧ db.Related user ledger := by
  simp only [ensureWriter, bind_eq_ok] at h
  obtain ⟨⟨l', role⟩, haccess, _, -, h⟩ := h
  cases h
  exact ensureAccess_related haccess

end Db

end OpenAccounting
