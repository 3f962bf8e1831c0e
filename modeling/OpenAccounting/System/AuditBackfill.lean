import OpenAccounting.System.AuditTrail

/-!
# The backfill of the audit chain

`ensure_backfilled` and `verify` are separate walks over the same table.  The backfill changes the
rows without a hash and makes an intact chain of them that starts at the greatest hashed row.  When
the rows without a hash come last, the walk of `verify` is one over the hashed rows and then one
over that chain.
-/

namespace OpenAccounting.Chain

open ByteCode Relational

variable {Value : Type} {toVec : Value → Vec} {table table' : List (ChainRow Value)}

/-! ## The chain -/

/-- What the backfill makes of the rows that it has read. -/
def chained (toVec : Value → Vec) :
    Option (List UInt8) → List (ChainRow Value) → List (ChainRow Value)
  | _, [] => []
  | prev, row :: rows =>
    let hash := computeHash prev (canonicalBytes toVec row.content)
    row.withHash prev hash :: chained toVec (some hash) rows

theorem intact_chained (prev : Option (List UInt8)) (rows : List (ChainRow Value)) :
    Intact toVec prev (chained toVec prev rows) := by
  induction rows generalizing prev with
  | nil => trivial
  | cons row rows ih => exact ⟨rfl, rfl, ih _⟩

theorem map_key_chained (prev : Option (List UInt8)) (rows : List (ChainRow Value)) :
    (chained toVec prev rows).map ChainRow.key = rows.map ChainRow.key := by
  induction rows generalizing prev with
  | nil => rfl
  | cons row rows ih => exact congrArg (row.key :: ·) (ih _)

theorem backfill_perm {prev : Option (List UInt8)} {rows rest : List (ChainRow Value)}
    (hperm : table.Perm (rows ++ rest)) (hids : (table.map ChainRow.id).Nodup) :
    (backfill toVec prev rows table).Perm (chained toVec prev rows ++ rest) := by
  induction rows generalizing prev table rest with
  | nil => exact hperm
  | cons row rows ih =>
    rw [backfill]
    generalize hhash : computeHash prev (canonicalBytes toVec row.content) = hash
    have hone : updateWhere (fun r => r.id = row.id) (fun r => r.withHash prev hash)
        (row :: rows ++ rest) = row.withHash prev hash :: (rows ++ rest) := by
      have hnodup : (([] ++ row :: (rows ++ rest)).map ChainRow.id).Nodup :=
        (hperm.map ChainRow.id).nodup_iff.mp hids
      exact updateWhere_split hnodup fun _ => Iff.rfl
    have hnext : (updateWhere (fun r => r.id = row.id) (fun r => r.withHash prev hash) table).Perm
        (rows ++ row.withHash prev hash :: rest) := by
      have hupdated := hperm.map fun r => if r.id = row.id then r.withHash prev hash else r
      exact (hupdated.trans (.of_eq hone)).trans List.perm_middle.symm
    have hkept : ((updateWhere (fun r => r.id = row.id) (fun r => r.withHash prev hash)
        table).map ChainRow.id).Nodup := by
      have hsame : ∀ r : ChainRow Value, (r.withHash prev hash).id = r.id := fun _ => rfl
      rw [map_key_updateWhere hsame]
      exact hids
    rw [chained, hhash]
    exact (ih hnext hkept).trans List.perm_middle

/-! ## The table -/

/-- A table and what the backfill makes of it: only hashes are written, and only into rows without
one. -/
structure Filled (table table' : List (ChainRow Value)) : Prop where
  columns : table'.map (fun r => (r.id, r.content)) = table.map fun r => (r.id, r.content)
  kept : ∀ row ∈ table, row.hash.isSome → row ∈ table'
  hashed : ∀ row ∈ table', row.hash.isSome

theorem columns_backfill (prev : Option (List UInt8)) (rows table : List (ChainRow Value)) :
    (backfill toVec prev rows table).map (fun r => (r.id, r.content)) =
      table.map fun r => (r.id, r.content) := by
  induction rows generalizing prev table with
  | nil => rfl
  | cons row rows ih =>
    have hsame : ∀ (hash : List UInt8) (r : ChainRow Value),
        ((r.withHash prev hash).id, (r.withHash prev hash).content) = (r.id, r.content) :=
      fun _ _ => rfl
    exact (ih _ _).trans (map_key_updateWhere (hsame _))

theorem isSome_hash_of_chained {prev : Option (List UInt8)} {rows : List (ChainRow Value)} :
    ∀ row ∈ chained toVec prev rows, row.hash.isSome := by
  intro row hrow
  rw [(intact_chained prev rows).hash_eq hrow]
  rfl

def hashedRows (table : List (ChainRow Value)) : List (ChainRow Value) :=
  orderBy ChainRow.key (table.filter (·.hash.isSome))

theorem nodup_key_filter (hids : (table.map ChainRow.id).Nodup) (p : ChainRow Value → Bool) :
    ((table.filter p).map ChainRow.key).Nodup := by
  have hkeys : (table.map ChainRow.key).Nodup := by
    refine List.Nodup.of_map (fun k => (ofLex k).2) ?_
    rw [List.map_map]
    exact hids
  exact hkeys.sublist (List.filter_sublist.map ChainRow.key)

theorem tailHash_eq (hids : (table.map ChainRow.id).Nodup) :
    tailHash table = HashChain.tail ChainRow.hash none (hashedRows table) := by
  rw [tailHash, orderByDesc_eq_reverse (nodup_key_filter hids _), List.head?_reverse, hashedRows]
  rcases List.eq_nil_or_concat' (orderBy ChainRow.key (table.filter (·.hash.isSome))) with
    h | ⟨front, last, h⟩
  · rw [h]
    rfl
  · rw [h, HashChain.tail_append, List.getLast?_concat]
    rfl

/-- The loop leaves the hashed rows and the chain that is made of the others. -/
theorem perm_backfill (hids : (table.map ChainRow.id).Nodup) :
    (backfill toVec (tailHash table) (unhashedRows table) table).Perm
      (hashedRows table ++ chained toVec (tailHash table) (unhashedRows table)) := by
  have hsplit : table.Perm (unhashedRows table ++ hashedRows table) := by
    have hboth := (orderBy_perm ChainRow.key (table.filter (·.hash.isNone))).append
      (orderBy_perm ChainRow.key (table.filter (·.hash.isSome)))
    refine (hboth.trans ?_).symm
    have hparts := List.filter_append_perm (fun r : ChainRow Value => r.hash.isNone) table
    have hsome : (table.filter fun r => !r.hash.isNone) = table.filter (·.hash.isSome) :=
      List.filter_congr fun r _ => by cases r.hash <;> rfl
    rwa [hsome] at hparts
  exact (backfill_perm hsplit hids).trans List.perm_append_comm

/-- When the rows without a hash come last, the order of the new table is that of its two parts. -/
theorem orderBy_backfill (hids : (table.map ChainRow.id).Nodup)
    (hlast : ∀ a ∈ table, ∀ b ∈ table, a.hash.isSome → b.hash = none → a.key < b.key) :
    orderBy ChainRow.key (backfill toVec (tailHash table) (unhashedRows table) table) =
      hashedRows table ++ chained toVec (tailHash table) (unhashedRows table) := by
  refine orderBy_eq_of_perm (perm_backfill hids).symm ?_
  refine List.pairwise_append.mpr ⟨pairwise_lt_orderBy (nodup_key_filter hids _), ?_, ?_⟩
  · rw [← List.pairwise_map, map_key_chained, List.pairwise_map]
    exact pairwise_lt_orderBy (nodup_key_filter hids _)
  · intro a ha b hb
    have hkey := List.mem_map_of_mem (f := ChainRow.key) hb
    rw [map_key_chained] at hkey
    obtain ⟨row, hrow, heq⟩ := List.mem_map.mp hkey
    obtain ⟨hmem, hnone⟩ := List.mem_filter.mp (mem_orderBy.mp hrow)
    obtain ⟨hfirst, hsome⟩ := List.mem_filter.mp (mem_orderBy.mp ha)
    rw [← heq]
    exact hlast a hfirst row hmem hsome (Option.isNone_iff_eq_none.mp hnone)

theorem filled_backfill (hids : (table.map ChainRow.id).Nodup) :
    Filled table (backfill toVec (tailHash table) (unhashedRows table) table) where
  columns := columns_backfill _ _ _
  kept row hrow hsome :=
    (perm_backfill hids).mem_iff.mpr
      (List.mem_append_left _ (mem_orderBy.mpr (List.mem_filter.mpr ⟨hrow, hsome⟩)))
  hashed row hrow := by
    rcases List.mem_append.mp ((perm_backfill hids).mem_iff.mp hrow) with h | h
    · exact (List.mem_filter.mp (mem_orderBy.mp h)).2
    · exact isSome_hash_of_chained row h

theorem unhashedRows_eq_nil (h : ∀ row ∈ table, row.hash.isSome) : unhashedRows table = [] := by
  have hnone : table.filter (·.hash.isNone) = [] := by
    refine List.filter_eq_nil_iff.mpr fun row hrow => ?_
    obtain ⟨hash, heq⟩ := Option.isSome_iff_exists.mp (h row hrow)
    simp [heq]
  rw [unhashedRows, hnone]
  rfl

theorem ensureBackfilled_eq (toVec : Value → Vec) (table : List (ChainRow Value)) :
    ensureBackfilled toVec table =
      ((unhashedRows table).length, backfill toVec (tailHash table) (unhashedRows table) table) := by
  rw [ensureBackfilled]
  split
  · next h => rw [List.isEmpty_iff.mp h]; rfl
  · rfl

/-- Rows without a hash behind a chain that verifies are chained to it, once. -/
theorem ensureBackfilled_verifies (toVec : Value → Vec) {table : List (ChainRow Value)}
    (hids : (table.map ChainRow.id).Nodup)
    (hlast : ∀ a ∈ table, ∀ b ∈ table, a.hash.isSome → b.hash = none → a.key < b.key)
    (hverify : verify toVec (table.filter (·.hash.isSome)) = []) :
    let filled := ensureBackfilled toVec table
    filled.1 = (table.filter (·.hash.isNone)).length ∧ Filled table filled.2 ∧
      verify toVec filled.2 = [] ∧ ensureBackfilled toVec filled.2 = (0, filled.2) := by
  have hfilled : Filled table (backfill toVec (tailHash table) (unhashedRows table) table) :=
    filled_backfill hids
  rw [ensureBackfilled_eq toVec table]
  refine ⟨(orderBy_perm _ _).length_eq, hfilled, ?_, ?_⟩
  · rw [verify, orderBy_backfill hids hlast, walk_append]
    have hfront : walk toVec none (hashedRows table) = [] := hverify
    rw [hfront, ← tailHash_eq hids]
    exact walk_of_intact (intact_chained _ _)
  · rw [ensureBackfilled_eq, unhashedRows_eq_nil hfilled.hashed]
    rfl

namespace Sample

theorem two_range : -2 ^ 63 ≤ (2 : ℤ) ∧ (2 : ℤ) < 2 ^ 63 := by decide

open AuditTrail (boolToVec firstRow toggled)

/-- A row from before the chain, behind a hashed one. -/
def unhashedRow : ChainRow Bool where
  id := 11
  prevHash := none
  hash := none
  content := { toggled false with createdAt := ⟨2, two_range⟩ }

end Sample

theorem ensureBackfilled_verifies_toggles :
    verify AuditTrail.boolToVec
      (ensureBackfilled AuditTrail.boolToVec [Sample.unhashedRow, AuditTrail.firstRow]).2 = [] :=
  (ensureBackfilled_verifies AuditTrail.boolToVec (by decide) (by decide) rfl).2.2.1

end OpenAccounting.Chain
