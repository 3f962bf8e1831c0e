import OpenAccounting.Db.Books
import Mathlib.Data.Multiset.Filter
import Mathlib.Data.List.Find

/-!
# What a write path can do to the books

Seen from the rules that hold across the whole ledger, a transaction is its
header (ledger, date and kind) and its postings.  There are three kinds of write:
an entry is posted, the kind of a transaction changes, and a transaction is
removed.  `Books.Wrote` says what each of them does to headers and postings, and
every write path of the program is a list of such writes.

The two rules that are about the books alone are proved here once, from one
write to a list of them: every entry balances, and the figures of a closed period
stay as they are.
-/

namespace OpenAccounting

open Calendar

/-- The columns of a transaction that decide which figures it enters. -/
structure Header where
  ledgerId : Uuid
  txnDate : NaiveDate
  kind : TxnKind
deriving DecidableEq

def Transaction.header (t : Transaction) : Header :=
  { ledgerId := t.ledgerId, txnDate := t.txnDate, kind := t.kind }

/-- The entry counts in the reports of `ledger` for dates up to `through`. -/
def Header.Frozen (h : Header) (ledger : Uuid) (through : NaiveDate) : Prop :=
  h.ledgerId = ledger ∧ h.kind.reportable ∧ h.txnDate ≤ through

instance (h : Header) (ledger : Uuid) (through : NaiveDate) :
    Decidable (h.Frozen ledger through) := by
  unfold Header.Frozen
  infer_instance

namespace Books

/-- The header of the transaction with the given id. -/
def header (b : Books) (txn : Uuid) : Option Header := (b.findTxn txn).map Transaction.header

/-- The posting belongs to an entry that counts up to `through`. -/
def InFrozen (b : Books) (ledger : Uuid) (through : NaiveDate) (p : Posting) : Prop :=
  ∃ h ∈ b.header p.transactionId, h.Frozen ledger through

instance (b : Books) (ledger : Uuid) (through : NaiveDate) (p : Posting) :
    Decidable (b.InFrozen ledger through p) := by
  unfold InFrozen
  infer_instance

/-- The reportable postings of `ledger` dated up to `through`. -/
def frozen (b : Books) (ledger : Uuid) (through : NaiveDate) : Multiset Posting :=
  ↑(b.postings.filter fun p => b.InFrozen ledger through p)

/-- Every transaction has two postings or more, and they balance. -/
def AllBalanced (b : Books) : Prop := ∀ t ∈ b.transactions, b.Balanced t.id

instance (b : Books) : Decidable b.AllBalanced := by
  unfold AllBalanced
  infer_instance

/-! ## Headers -/

theorem header_eq_some {b : Books} {txn : Uuid} {h : Header} :
    b.header txn = some h ↔ ∃ t ∈ b.transactions, t.id = txn ∧ t.header = h := by
  constructor
  · intro hh
    obtain ⟨t, ht, rfl⟩ := Option.map_eq_some_iff.mp hh
    exact ⟨t, (findTxn_spec ht).1, (findTxn_spec ht).2, rfl⟩
  · rintro ⟨t, ht, rfl, rfl⟩
    rw [header, findTxn_of_mem ht]
    rfl

theorem header_of_mem {b : Books} {t : Transaction} (ht : t ∈ b.transactions) :
    b.header t.id = some t.header :=
  header_eq_some.mpr ⟨t, ht, rfl, rfl⟩

theorem header_eq_none {b : Books} {txn : Uuid} : b.header txn = none ↔ txn ∉ b.txnIds := by
  constructor
  · intro hh hmem
    obtain ⟨t, ht, rfl⟩ := List.mem_map.mp hmem
    rw [header_of_mem ht] at hh
    cases hh
  · intro hmem
    cases hh : b.header txn with
    | none => rfl
    | some h =>
      obtain ⟨t, ht, rfl, -⟩ := header_eq_some.mp hh
      exact absurd (mem_txnIds ht) hmem

theorem allBalanced_iff_header {b : Books} :
    b.AllBalanced ↔ ∀ txn h, b.header txn = some h → b.Balanced txn := by
  constructor
  · intro hb txn h hh
    obtain ⟨t, ht, rfl, -⟩ := header_eq_some.mp hh
    exact hb t ht
  · intro hb t ht
    exact hb t.id t.header (header_of_mem ht)

theorem header_addTxn {b : Books} {t : Transaction} (hfresh : t.id ∉ b.txnIds) (s : Uuid) :
    (b.addTxn t hfresh).header s = if s = t.id then some t.header else b.header s := by
  have happend : (b.addTxn t hfresh).transactions = b.transactions ++ [t] := rfl
  split
  · next heq =>
      rw [heq]
      exact header_of_mem (by rw [happend]; simp)
  · next hne =>
      rw [header, header, findTxn, happend, List.find?_append]
      have hlast : [t].find? (fun u => decide (u.id = s)) = none := by
        simp [Ne.symm hne]
      rw [hlast, Option.or_none, findTxn]

end Books

/-! ## Writes -/

/-- One write on the books. -/
inductive Write where
  /-- A transaction and its postings. -/
  | post (t : Transaction) (ps : List Posting)
  /-- `UPDATE transactions SET kind = …`. -/
  | setKind (txn : Uuid) (kind : TxnKind)
  /-- `DELETE FROM transactions`. -/
  | remove (txn : Uuid)

namespace Books

/-- `b'` has the headers and postings of `b` after the write `w`. -/
inductive Wrote (b b' : Books) : Write → Prop where
  | post {t : Transaction} {ps : List Posting} (h : Posts b b' t ps) : Wrote b b' (.post t ps)
  | setKind {txn : Uuid} {kind : TxnKind}
      (header : ∀ s, b'.header s =
        if s = txn then (b.header s).map fun h => { h with kind := kind } else b.header s)
      (postings : b'.postings = b.postings) : Wrote b b' (.setKind txn kind)
  | remove {txn : Uuid} (header : ∀ s, b'.header s = if s = txn then none else b.header s)
      (postings : b'.postings = b.postings.filter fun p => p.transactionId ≠ txn) :
      Wrote b b' (.remove txn)

theorem Posts.header {b b' : Books} {t : Transaction} {ps : List Posting} (h : Posts b b' t ps)
    (s : Uuid) : b'.header s = if s = t.id then some t.header else b.header s := by
  have hadd := header_addTxn h.fresh s
  rw [Books.header, findTxn] at hadd
  rw [Books.header, findTxn, h.transactions]
  exact hadd

end Books

/-! ## Every entry balances -/

namespace Write

/-- A posted entry has two postings or more, and they balance. -/
def Balanced : Write → Prop
  | .post _ ps => 2 ≤ ps.length ∧ Posting.sumOn .debit ps = Posting.sumOn .credit ps
  | .setKind _ _ => True
  | .remove _ => True

/-- The write leaves the reportable postings of `ledger` up to `through` alone:
the entry it posts, or had there before, does not count there. -/
def Spares (b : Books) (ledger : Uuid) (through : NaiveDate) : Write → Prop
  | .post t _ => ¬ t.header.Frozen ledger through
  | .setKind txn kind =>
    ∀ h ∈ b.header txn, h.Frozen ledger through ↔
      ({ h with kind := kind } : Header).Frozen ledger through
  | .remove txn => ∀ h ∈ b.header txn, ¬ h.Frozen ledger through

end Write

namespace Books

variable {b b' : Books} {w : Write}

/-- Removing the postings of one transaction leaves those of the others. -/
theorem postingsOf_of_removed {txn s : Uuid}
    (postings : b'.postings = b.postings.filter fun p => p.transactionId ≠ txn) (hne : s ≠ txn) :
    b'.postingsOf s = b.postingsOf s := by
  rw [postingsOf, postings, List.filter_filter, postingsOf]
  refine List.filter_congr ?_
  intro p _
  by_cases hp : p.transactionId = s <;> simp [hp, hne]

theorem Wrote.allBalanced (h : Wrote b b' w) (hb : b.AllBalanced) (hw : w.Balanced) :
    b'.AllBalanced := by
  cases h with
  | post h =>
    intro s hs
    rcases h.mem_transactions.mp hs with hs | rfl
    · rw [Balanced, h.postingsOf_of_ne (h.ne_of_mem hs)]
      exact hb s hs
    · rw [Balanced, h.postingsOf_self]
      exact hw
  | @setKind txn kind header postings =>
    rw [allBalanced_iff_header] at hb ⊢
    intro s h hs
    rw [Balanced, postingsOf, postings]
    rw [header] at hs
    split at hs
    · obtain ⟨h₀, hh₀, -⟩ := Option.map_eq_some_iff.mp hs
      exact hb s h₀ hh₀
    · exact hb s h hs
  | @remove txn header postings =>
    rw [allBalanced_iff_header] at hb ⊢
    intro s h hs
    rw [header] at hs
    split at hs
    · cases hs
    · next hne =>
        rw [Balanced, postingsOf_of_removed postings hne]
        exact hb s h hs

/-! ## A closed period keeps its figures -/

variable {ledger : Uuid} {through : NaiveDate}

theorem Posts.frozen {t : Transaction} {ps : List Posting} (h : Posts b b' t ps)
    (hnew : ¬ t.header.Frozen ledger through) :
    b'.frozen ledger through = b.frozen ledger through := by
  have hold : ∀ p ∈ b.postings, b'.InFrozen ledger through p ↔ b.InFrozen ledger through p := by
    intro p hp
    have hne : p.transactionId ≠ t.id := fun heq => h.fresh (heq ▸ b.posting_txn_fk p hp)
    rw [InFrozen, h.header, if_neg hne, InFrozen]
  have hps : ∀ p ∈ ps, ¬ b'.InFrozen ledger through p := by
    intro p hp
    rw [InFrozen, h.header, if_pos (h.owned p hp)]
    simpa using hnew
  rw [Books.frozen, h.postings, List.filter_append]
  have hnone : ps.filter (fun p => decide (b'.InFrozen ledger through p)) = [] := by
    rw [List.filter_eq_nil_iff]
    intro p hp
    simpa using hps p hp
  rw [hnone, List.append_nil, Books.frozen]
  congr 1
  refine List.filter_congr ?_
  intro p hp
  exact decide_eq_decide.mpr (hold p hp)

theorem Wrote.frozen (h : Wrote b b' w) (hw : w.Spares b ledger through) :
    b'.frozen ledger through = b.frozen ledger through := by
  cases h with
  | post h => exact h.frozen hw
  | @setKind txn kind header postings =>
    rw [Books.frozen, postings, Books.frozen]
    congr 1
    refine List.filter_congr ?_
    intro p _
    refine decide_eq_decide.mpr ?_
    rw [InFrozen, header, InFrozen]
    split
    · next heq =>
        cases hh : b.header p.transactionId with
        | none => simp
        | some h₀ =>
          have := hw h₀ (by rw [← heq]; exact hh)
          simpa using this.symm
    · exact Iff.rfl
  | @remove txn header postings =>
    rw [Books.frozen, postings, List.filter_filter, Books.frozen]
    congr 1
    refine List.filter_congr ?_
    intro p _
    by_cases hp : p.transactionId = txn
    · have hout : ¬ b.InFrozen ledger through p := by
        rintro ⟨h, hh, hfrozen⟩
        exact hw h (hp ▸ hh) hfrozen
      simp [hp, hout]
    · have hin : b'.InFrozen ledger through p ↔ b.InFrozen ledger through p := by
        rw [InFrozen, header, if_neg hp, InFrozen]
      simp [hp, hin]

end Books

end OpenAccounting
