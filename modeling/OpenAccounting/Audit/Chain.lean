import OpenAccounting.Domain.Account
import OpenAccounting.Lib.ByteCode
import OpenAccounting.Lib.Calendar
import OpenAccounting.Lib.Relational
import OpenAccounting.Lib.Sha256

/-!
# The hash chain of the audit log

Every row of `audit_entries` carries the hash of its predecessor and its own hash,
the SHA-256 of that predecessor hash followed by the bytes of its content
(`audit/chain.rs`).  An append continues the chain at the row that is greatest by
`(created_at, id)`, and `verify` walks the table in that order.  Rows from before the
chain have no hash until `ensure_backfilled` gives them one.

The JSON columns have an arbitrary type `Value` here, the values a `jsonb` column
holds, and `serde_json::to_vec` is a parameter.
-/

namespace OpenAccounting.Chain

open ByteCode Calendar Relational

/-- What a caller of `audit::log` records. -/
structure Columns (Value : Type) where
  ledgerId : Option Uuid
  actorId : Uuid
  action : Str
  entityType : Str
  entityId : Option Uuid
  oldValue : Option Value
  newValue : Option Value
deriving DecidableEq

/-- The content of an audit row: all that its hash covers besides the hash before
it. -/
structure Content (Value : Type) extends Columns Value where
  createdAt : DateTime
deriving DecidableEq

/-- A row of `audit_entries`. -/
structure ChainRow (Value : Type) where
  id : Uuid
  prevHash : Option (List UInt8)
  hash : Option (List UInt8)
  content : Content Value
deriving DecidableEq

/-- A broken link. -/
structure BreakPoint where
  id : Uuid
  reason : String
deriving DecidableEq

variable {Value : Type} (toVec : Value → Vec)

/-! ## Bytes of a row -/

/-- The sixteen bytes of an identifier. -/
def uuidBytes (u : Uuid) : List UInt8 := beBytes 16 u.val

def pushOptUuid : Option Uuid → List UInt8 := flagged uuidBytes

def pushStr (s : Str) : List UInt8 := lengthPrefixed s.asBytes

def pushOptJson : Option Value → List UInt8 := flagged fun v => lengthPrefixed (toVec v)

/-- The deterministic serialization of a row's content. -/
def canonicalBytes (c : Content Value) : List UInt8 :=
  pushOptUuid c.ledgerId ++ (uuidBytes c.actorId ++ (pushStr c.action ++ (pushStr c.entityType ++
    (pushOptUuid c.entityId ++ (pushOptJson toVec c.oldValue ++
      (pushOptJson toVec c.newValue ++ i64Bytes c.createdAt.micros))))))

/-- The bytes a hash is taken of. -/
def hashInput (prevHash : Option (List UInt8)) (content : List UInt8) : List UInt8 :=
  prevHash.getD [] ++ content

/-- `SHA256(prev_hash || canonical_row_bytes)`. -/
def computeHash (prevHash : Option (List UInt8)) (content : List UInt8) : List UInt8 :=
  Sha256.hash (hashInput prevHash content)

theorem selfDelimiting_uuidBytes : SelfDelimiting uuidBytes := by
  refine SelfDelimiting.of_length (fun u => length_beBytes 16 u.val) ?_
  intro u v h
  exact Fin.ext (beBytes_inj (lt_of_lt_of_le u.isLt (by norm_num))
    (lt_of_lt_of_le v.isLt (by norm_num)) h)

theorem selfDelimiting_pushOptUuid : SelfDelimiting pushOptUuid :=
  selfDelimiting_uuidBytes.flagged

theorem selfDelimiting_pushStr : SelfDelimiting pushStr :=
  selfDelimiting_lengthPrefixed.comp Str.asBytes_injective

theorem selfDelimiting_pushOptJson (hjson : Function.Injective toVec) :
    SelfDelimiting (pushOptJson toVec) :=
  (selfDelimiting_lengthPrefixed.comp hjson).flagged

theorem selfDelimiting_micros : SelfDelimiting fun t : DateTime => i64Bytes t.micros := by
  refine SelfDelimiting.of_length (fun t => length_i64Bytes t.micros) ?_
  intro s t h
  exact DateTime.micros_injective (i64Bytes_inj s.micros_range t.micros_range h)

theorem selfDelimiting_canonicalBytes (hjson : Function.Injective toVec) :
    SelfDelimiting (canonicalBytes toVec) := by
  intro x y r s h
  simp only [canonicalBytes, List.append_assoc] at h
  obtain ⟨hledger, h⟩ := selfDelimiting_pushOptUuid h
  obtain ⟨hactor, h⟩ := selfDelimiting_uuidBytes h
  obtain ⟨haction, h⟩ := selfDelimiting_pushStr h
  obtain ⟨htype, h⟩ := selfDelimiting_pushStr h
  obtain ⟨hentity, h⟩ := selfDelimiting_pushOptUuid h
  obtain ⟨hold, h⟩ := selfDelimiting_pushOptJson toVec hjson h
  obtain ⟨hnew, h⟩ := selfDelimiting_pushOptJson toVec hjson h
  obtain ⟨hcreated, hrest⟩ := selfDelimiting_micros h
  obtain ⟨⟨_, _, _, _, _, _, _⟩, _⟩ := x
  obtain ⟨⟨_, _, _, _, _, _, _⟩, _⟩ := y
  simp only at hledger hactor haction htype hentity hold hnew hcreated
  subst hledger hactor haction htype hentity hold hnew hcreated
  exact ⟨rfl, hrest⟩

/-! ## Append and walk -/

namespace ChainRow

/-- The position of a row in the order of the chain. -/
def key (row : ChainRow Value) : DateTime ×ₗ Uuid := toLex (row.content.createdAt, row.id)

/-- The hash of the row as its columns give it. -/
def digest (row : ChainRow Value) : List UInt8 :=
  computeHash row.prevHash (canonicalBytes toVec row.content)

end ChainRow

/-- `SELECT hash … WHERE hash IS NOT NULL ORDER BY created_at DESC, id DESC LIMIT 1`. -/
def tailHash (table : List (ChainRow Value)) : Option (List UInt8) :=
  (orderByDesc ChainRow.key (table.filter (·.hash.isSome))).head?.bind (·.hash)

/-- `log_hashed` under the advisory lock.  The database draws `id`, and a row that
is there keeps its key. -/
def logHashed (table : List (ChainRow Value)) (id : Uuid) (content : Content Value) :
    List (ChainRow Value) :=
  let prevHash := tailHash table
  let hash := computeHash prevHash (canonicalBytes toVec content)
  if table.any (·.id = id) then table
  else table ++ [{ id, prevHash, hash := some hash, content }]

/-- `SELECT … WHERE hash IS NULL ORDER BY created_at ASC, id ASC`. -/
def unhashedRows (table : List (ChainRow Value)) : List (ChainRow Value) :=
  orderBy ChainRow.key (table.filter (·.hash.isNone))

def ChainRow.withHash (row : ChainRow Value) (prev : Option (List UInt8)) (hash : List UInt8) :
    ChainRow Value :=
  { row with prevHash := prev, hash := some hash }

/-- The loop of `ensure_backfilled`, with the hash of the row before.  Each turn is an
`UPDATE … WHERE id = $3`. -/
def backfill : Option (List UInt8) → List (ChainRow Value) → List (ChainRow Value) →
    List (ChainRow Value)
  | _, [], table => table
  | prev, row :: rows, table =>
    let hash := computeHash prev (canonicalBytes toVec row.content)
    backfill (some hash) rows
      (updateWhere (fun r => r.id = row.id) (fun r => r.withHash prev hash) table)

/-- `ensure_backfilled`, with the number of rows that it has hashed. -/
def ensureBackfilled (table : List (ChainRow Value)) : ℕ × List (ChainRow Value) :=
  let rows := unhashedRows table
  if rows.isEmpty then (0, table) else (rows.length, backfill toVec (tailHash table) rows table)

/-- The loop of `verify`, with the hash of the row before. -/
def walk : Option (List UInt8) → List (ChainRow Value) → List BreakPoint
  | _, [] => []
  | none, row :: rows =>
    (if row.prevHash.isSome then [⟨row.id, "first row carries a non-NULL prev_hash"⟩] else []) ++
      walk row.hash rows
  | some expectedPrev, row :: rows =>
    (if row.prevHash ≠ some expectedPrev then
        [⟨row.id, "prev_hash does not match the previous row's hash"⟩] else []) ++
      (if row.hash ≠ some (row.digest toVec) then
        [⟨row.id, "hash does not match recomputed SHA256 of row content"⟩] else []) ++
      walk row.hash rows

/-- Every broken link of the table. -/
def verify (table : List (ChainRow Value)) : List BreakPoint :=
  walk toVec none (orderBy ChainRow.key table)

/-! ## Intact tables -/

/-- The rows form an intact chain that starts after the hash `p`. -/
def Intact (p : Option (List UInt8)) (rows : List (ChainRow Value)) : Prop :=
  HashChain.Intact ChainRow.prevHash ChainRow.hash (ChainRow.digest toVec) p rows

/-- The rows stand in the order of the chain. -/
def Ordered (table : List (ChainRow Value)) : Prop :=
  table.Pairwise fun a b => a.key < b.key

variable {toVec} {table : List (ChainRow Value)}

theorem walk_append (front back : List (ChainRow Value)) (p : Option (List UInt8)) :
    walk toVec p (front ++ back) =
      walk toVec p front ++ walk toVec (HashChain.tail ChainRow.hash p front) back := by
  induction front generalizing p with
  | nil => rfl
  | cons row rows ih =>
    cases p with
    | none => simp only [List.cons_append, walk, HashChain.tail, ih, List.append_assoc]
    | some expectedPrev =>
      simp only [List.cons_append, walk, HashChain.tail, ih, List.append_assoc]

theorem walk_of_intact {rows : List (ChainRow Value)} {p : Option (List UInt8)}
    (h : Intact toVec p rows) : walk toVec p rows = [] := by
  induction rows generalizing p with
  | nil => cases p <;> rfl
  | cons row rows ih =>
    obtain ⟨hprev, hhash, hrest⟩ := h
    cases p with
    | none => simp [walk, hprev, ih hrest]
    | some expectedPrev =>
      rw [walk, if_neg (not_not.mpr hprev), if_neg (not_not.mpr hhash), ih hrest]
      rfl

theorem verify_of_ordered (hord : Ordered table) : verify toVec table = walk toVec none table := by
  rw [verify, orderBy_of_pairwise hord]

theorem tailHash_of_ordered (hord : Ordered table) (hhash : ∀ row ∈ table, row.hash.isSome) :
    tailHash table = HashChain.tail ChainRow.hash none table := by
  rw [tailHash, List.filter_eq_self.mpr hhash]
  rcases List.eq_nil_or_concat' table with rfl | ⟨front, last, rfl⟩
  · rfl
  · have hlast : ∀ row ∈ front, row.key < last.key := by
      intro row hrow
      exact (List.pairwise_append.mp hord).2.2 row hrow last (List.mem_singleton_self last)
    rw [head?_orderByDesc_concat hlast, HashChain.tail_append]
    rfl

/-- A table that `log_hashed` builds row by row. -/
structure Sound (toVec : Value → Vec) (table : List (ChainRow Value)) : Prop where
  ordered : Ordered table
  intact : Intact toVec none table

theorem Sound.nil : Sound toVec [] := ⟨List.Pairwise.nil, trivial⟩

theorem Sound.verify_eq_nil (h : Sound toVec table) : verify toVec table = [] := by
  rw [verify_of_ordered h.ordered]
  exact walk_of_intact h.intact

theorem Sound.logHashed (h : Sound toVec table) {id : Uuid} {content : Content Value}
    (hlast : ∀ row ∈ table, row.key < toLex (content.createdAt, id)) :
    Sound toVec (logHashed toVec table id content) := by
  have hhash : ∀ row ∈ table, row.hash.isSome := by
    intro row hrow
    rw [HashChain.Intact.hash_eq h.intact hrow]
    rfl
  rw [Chain.logHashed]
  split
  · exact h
  · refine ⟨?_, ?_⟩
    · refine List.pairwise_append.mpr ⟨h.ordered, List.pairwise_singleton _ _, ?_⟩
      intro row hrow new hnew
      rw [List.mem_singleton.mp hnew]
      exact hlast row hrow
    · exact HashChain.Intact.concat h.intact (tailHash_of_ordered h.ordered hhash) rfl

end OpenAccounting.Chain
