import OpenAccounting.Domain.Journal
import Mathlib.Data.List.Nodup

/-!
# The books

The three tables that hold the money: accounts, transactions and postings.  A
`Books` carries the keys of the schema, so a posting without its transaction or
its account, or two rows with one id, cannot be built.  Every statement the
program runs on these tables goes through one of the functions of this module.

`Books.Posts` says what writing one entry means: one new transaction with a fresh
id and postings that all belong to it.  The write paths of the program differ in
what they check and in which entry they write, and agree on this shape.
-/

namespace OpenAccounting

/-- The tables `accounts`, `transactions` and `postings` with their keys. -/
structure Books where
  accounts : List Account := []
  transactions : List Transaction := []
  postings : List Posting := []
  account_ids_nodup : (accounts.map Account.id).Nodup := by decide
  txn_ids_nodup : (transactions.map Transaction.id).Nodup := by decide
  posting_txn_fk : ∀ p ∈ postings, p.transactionId ∈ transactions.map Transaction.id := by decide
  posting_account_fk : ∀ p ∈ postings, p.accountId ∈ accounts.map Account.id := by decide

namespace Books

/-- A chart of accounts with nothing posted. -/
def ofChart (accounts : List Account) (h : (accounts.map Account.id).Nodup) : Books where
  accounts := accounts
  account_ids_nodup := h
  posting_account_fk := by simp

def empty : Books := ofChart [] List.nodup_nil

def txnIds (b : Books) : List Uuid := b.transactions.map Transaction.id

def accountIds (b : Books) : List Uuid := b.accounts.map Account.id

def postingsOf (b : Books) (txn : Uuid) : List Posting :=
  b.postings.filter fun p => p.transactionId = txn

/-- `SELECT … FROM transactions WHERE id = $1`. -/
def findTxn (b : Books) (txn : Uuid) : Option Transaction :=
  b.transactions.find? fun t => t.id = txn

/-- `SELECT … FROM transactions WHERE id = $1 AND ledger_id = $2`. -/
def findTxnIn (b : Books) (txn ledger : Uuid) : Option Transaction :=
  b.transactions.find? fun t => t.id = txn ∧ t.ledgerId = ledger

/-- At least two postings, and debits equal to credits. -/
def Balanced (b : Books) (txn : Uuid) : Prop :=
  2 ≤ (b.postingsOf txn).length ∧
    Posting.sumOn .debit (b.postingsOf txn) = Posting.sumOn .credit (b.postingsOf txn)

instance (b : Books) (txn : Uuid) : Decidable (b.Balanced txn) := by
  unfold Balanced
  infer_instance

/-! ## Statements -/

def addAccount (b : Books) (a : Account) (h : a.id ∉ b.accountIds) : Books :=
  { b with
    accounts := b.accounts ++ [a]
    account_ids_nodup := by
      rw [List.map_append, List.map_singleton, List.nodup_append]
      refine ⟨b.account_ids_nodup, List.nodup_singleton _, ?_⟩
      intro x hx y hy heq
      rw [List.mem_singleton] at hy
      exact h (hy ▸ heq ▸ hx)
    posting_account_fk := by
      intro p hp
      rw [List.map_append, List.mem_append]
      exact Or.inl (b.posting_account_fk p hp) }

def addTxn (b : Books) (t : Transaction) (h : t.id ∉ b.txnIds) : Books :=
  { b with
    transactions := b.transactions ++ [t]
    txn_ids_nodup := by
      rw [List.map_append, List.map_singleton, List.nodup_append]
      refine ⟨b.txn_ids_nodup, List.nodup_singleton _, ?_⟩
      intro x hx y hy heq
      rw [List.mem_singleton] at hy
      exact h (hy ▸ heq ▸ hx)
    posting_txn_fk := by
      intro p hp
      rw [List.map_append, List.mem_append]
      exact Or.inl (b.posting_txn_fk p hp) }

def addPosting (b : Books) (p : Posting) (ht : p.transactionId ∈ b.txnIds)
    (ha : p.accountId ∈ b.accountIds) : Books :=
  { b with
    postings := b.postings ++ [p]
    posting_txn_fk := by
      intro q hq
      rcases List.mem_append.mp hq with hq | hq
      · exact b.posting_txn_fk q hq
      · rw [List.mem_singleton] at hq
        exact hq ▸ ht
    posting_account_fk := by
      intro q hq
      rcases List.mem_append.mp hq with hq | hq
      · exact b.posting_account_fk q hq
      · rw [List.mem_singleton] at hq
        exact hq ▸ ha }

/-- Update transaction rows without touching their ids. -/
def mapTxns (b : Books) (f : Transaction → Transaction) (hf : ∀ t, (f t).id = t.id) : Books :=
  { b with
    transactions := b.transactions.map f
    txn_ids_nodup := by
      have : (b.transactions.map f).map Transaction.id = b.transactions.map Transaction.id := by
        simp [hf]
      rw [this]
      exact b.txn_ids_nodup
    posting_txn_fk := by
      have : (b.transactions.map f).map Transaction.id = b.transactions.map Transaction.id := by
        simp [hf]
      rw [this]
      exact b.posting_txn_fk }

/-- Update posting rows without touching their keys. -/
def mapPostings (b : Books) (f : Posting → Posting)
    (ht : ∀ p, (f p).transactionId = p.transactionId) (ha : ∀ p, (f p).accountId = p.accountId) :
    Books :=
  { b with
    postings := b.postings.map f
    posting_txn_fk := by
      intro q hq
      obtain ⟨p, hp, rfl⟩ := List.mem_map.mp hq
      rw [ht]
      exact b.posting_txn_fk p hp
    posting_account_fk := by
      intro q hq
      obtain ⟨p, hp, rfl⟩ := List.mem_map.mp hq
      rw [ha]
      exact b.posting_account_fk p hp }

/-- Delete a transaction row; its postings go with it (`ON DELETE CASCADE`). -/
def removeTxn (b : Books) (txn : Uuid) : Books :=
  { b with
    transactions := b.transactions.filter fun t => t.id ≠ txn
    postings := b.postings.filter fun p => p.transactionId ≠ txn
    txn_ids_nodup := b.txn_ids_nodup.sublist (List.filter_sublist.map _)
    posting_txn_fk := by
      intro p hp
      obtain ⟨hp, hne⟩ := List.mem_filter.mp hp
      obtain ⟨t, ht, hid⟩ := List.mem_map.mp (b.posting_txn_fk p hp)
      refine List.mem_map.mpr ⟨t, List.mem_filter.mpr ⟨ht, ?_⟩, hid⟩
      simpa [hid] using hne
    posting_account_fk := fun p hp => b.posting_account_fk p (List.mem_filter.mp hp).1 }

/-! ## Reading the tables -/

variable {b : Books} {t : Transaction} {txn : Uuid}

theorem mem_txnIds (h : t ∈ b.transactions) : t.id ∈ b.txnIds :=
  List.mem_map_of_mem h

theorem mem_accountIds {a : Account} (h : a ∈ b.accounts) : a.id ∈ b.accountIds :=
  List.mem_map_of_mem h

theorem account_eq_of_id_eq {a c : Account} (ha : a ∈ b.accounts) (hc : c ∈ b.accounts)
    (h : a.id = c.id) : a = c :=
  List.inj_on_of_nodup_map b.account_ids_nodup ha hc h

theorem findTxn_spec (h : b.findTxn txn = some t) : t ∈ b.transactions ∧ t.id = txn :=
  ⟨List.mem_of_find?_eq_some h, by simpa using List.find?_some h⟩

theorem findTxnIn_spec {ledger : Uuid} (h : b.findTxnIn txn ledger = some t) :
    t ∈ b.transactions ∧ t.id = txn ∧ t.ledgerId = ledger := by
  have hfound : t.id = txn ∧ t.ledgerId = ledger := by simpa using List.find?_some h
  exact ⟨List.mem_of_find?_eq_some h, hfound⟩

theorem txn_eq_of_id_eq {s : Transaction} (hs : s ∈ b.transactions) (ht : t ∈ b.transactions)
    (h : s.id = t.id) : s = t :=
  List.inj_on_of_nodup_map b.txn_ids_nodup hs ht h

theorem findTxn_of_mem (ht : t ∈ b.transactions) : b.findTxn t.id = some t := by
  cases hf : b.findTxn t.id with
  | none =>
    have := List.find?_eq_none.mp hf t ht
    simp at this
  | some s =>
    obtain ⟨hs, hid⟩ := findTxn_spec hf
    rw [txn_eq_of_id_eq hs ht hid]

theorem postingsOf_eq_nil (h : txn ∉ b.txnIds) : b.postingsOf txn = [] := by
  rw [postingsOf, List.filter_eq_nil_iff]
  intro p hp hid
  have hid : p.transactionId = txn := by simpa using hid
  exact h (hid ▸ b.posting_txn_fk p hp)

theorem balanced_iff_net :
    b.Balanced txn ↔ 2 ≤ (b.postingsOf txn).length ∧ Posting.net (b.postingsOf txn) = 0 := by
  rw [Balanced, Posting.sumOn_eq_sumOn_iff_net]

/-! ## Writing one entry -/

/-- `b'` is `b` with the entry `t` and its postings `ps` written. -/
structure Posts (b b' : Books) (t : Transaction) (ps : List Posting) : Prop where
  fresh : t.id ∉ b.txnIds
  accounts : b'.accounts = b.accounts
  transactions : b'.transactions = b.transactions ++ [t]
  postings : b'.postings = b.postings ++ ps
  owned : ∀ p ∈ ps, p.transactionId = t.id

theorem posts_addTxn (h : t.id ∉ b.txnIds) :
    Posts b (b.addTxn t h) t [] where
  fresh := h
  accounts := rfl
  transactions := rfl
  postings := (List.append_nil _).symm
  owned := by simp

namespace Posts

variable {b b' : Books} {t : Transaction} {ps : List Posting}

theorem add {p : Posting} (h : Posts b b' t ps) (hp : p.transactionId = t.id)
    (ht : p.transactionId ∈ b'.txnIds) (ha : p.accountId ∈ b'.accountIds) :
    Posts b (b'.addPosting p ht ha) t (ps ++ [p]) where
  fresh := h.fresh
  accounts := h.accounts
  transactions := h.transactions
  postings := by
    show b'.postings ++ [p] = b.postings ++ (ps ++ [p])
    rw [h.postings, List.append_assoc]
  owned := by
    intro q hq
    rcases List.mem_append.mp hq with hq | hq
    · exact h.owned q hq
    · rw [List.mem_singleton] at hq
      exact hq ▸ hp

theorem mem_transactions (h : Posts b b' t ps) {s : Transaction} :
    s ∈ b'.transactions ↔ s ∈ b.transactions ∨ s = t := by
  simp [h.transactions]

theorem txnIds (h : Posts b b' t ps) : b'.txnIds = b.txnIds ++ [t.id] := by
  rw [Books.txnIds, h.transactions, List.map_append]
  rfl

theorem postingsOf_self (h : Posts b b' t ps) : b'.postingsOf t.id = ps := by
  have hold : b.postingsOf t.id = [] := postingsOf_eq_nil h.fresh
  rw [postingsOf, h.postings, List.filter_append]
  rw [postingsOf] at hold
  rw [hold, List.nil_append, List.filter_eq_self]
  intro p hp
  simp [h.owned p hp]

theorem postingsOf_of_ne (h : Posts b b' t ps) {txn : Uuid} (hne : txn ≠ t.id) :
    b'.postingsOf txn = b.postingsOf txn := by
  have hnew : ps.filter (fun p => decide (p.transactionId = txn)) = [] := by
    rw [List.filter_eq_nil_iff]
    intro p hp hid
    have hid : p.transactionId = txn := by simpa using hid
    exact hne (hid ▸ h.owned p hp)
  rw [postingsOf, h.postings, List.filter_append, hnew, List.append_nil, postingsOf]

theorem ne_of_mem (h : Posts b b' t ps) {s : Transaction} (hs : s ∈ b.transactions) :
    s.id ≠ t.id :=
  fun heq => h.fresh (heq ▸ mem_txnIds hs)

end Posts

end Books

end OpenAccounting
