import OpenAccounting.Domain.PostingStatements
import OpenAccounting.System.JournalOps

/-!
# What a reversal cancels

`reverse` of the transaction page, `reverse` of the API and the bulk `delete` all write the
postings of a transaction on the other side.  None of them carries the cost center and the project
over, and none of them asks whether the transaction is a draft or a pending journal, which no
report counts, while its reversal is counted.

So the two entries cancel exactly when the original counts and its tagged postings cancel by
themselves, or it does not count and all its postings do.
-/

namespace OpenAccounting

open Calendar Commit Rounding

/-! ## Sums over postings -/

namespace Posting

/-- The signed sum over the postings of an account. -/
def netOfAccount (account : Uuid) (ps : List Posting) : ℚ :=
  net (ps.filter fun p => p.accountId = account)

def dimensions (p : Posting) : Option Uuid × Option Uuid := (p.costCenterId, p.projectId)

/-- The signed sum over the postings of an account with this cost center and project. -/
def netOfDimensions (account : Uuid) (d : Option Uuid × Option Uuid) (ps : List Posting) : ℚ :=
  net (ps.filter fun p => p.accountId = account ∧ p.dimensions = d)

@[simp] theorem netOfAccount_append (account : Uuid) (ps qs : List Posting) :
    netOfAccount account (ps ++ qs) = netOfAccount account ps + netOfAccount account qs := by
  simp [netOfAccount]

@[simp] theorem netOfDimensions_append (account : Uuid) (d : Option Uuid × Option Uuid)
    (ps qs : List Posting) : netOfDimensions account d (ps ++ qs) =
      netOfDimensions account d ps + netOfDimensions account d qs := by
  simp [netOfDimensions]

@[simp] theorem netOfAccount_nil (account : Uuid) : netOfAccount account [] = 0 := rfl

@[simp] theorem netOfDimensions_nil (account : Uuid) (d : Option Uuid × Option Uuid) :
    netOfDimensions account d [] = 0 := rfl

theorem netOfAccount_cons (account : Uuid) (p : Posting) (ps : List Posting) :
    netOfAccount account (p :: ps) =
      (if p.accountId = account then p.signed else 0) + netOfAccount account ps := by
  rw [netOfAccount, netOfAccount, List.filter_cons]
  split
  · next h => simp [of_decide_eq_true h]
  · next h => simp [of_decide_eq_false (by simpa using h)]

theorem netOfDimensions_cons (account : Uuid) (d : Option Uuid × Option Uuid) (p : Posting)
    (ps : List Posting) : netOfDimensions account d (p :: ps) =
      (if p.accountId = account ∧ p.dimensions = d then p.signed else 0) +
        netOfDimensions account d ps := by
  rw [netOfDimensions, netOfDimensions, List.filter_cons]
  split
  · next h => rw [if_pos (of_decide_eq_true h), net_cons]
  · next h => rw [if_neg (by simpa using h), zero_add]

/-- When the tagged postings of an account cancel, its sum is that of the untagged ones. -/
theorem netOfAccount_eq_untagged {account : Uuid} {ps : List Posting}
    (h : ∀ d, d ≠ (none, none) → netOfDimensions account d ps = 0) :
    netOfAccount account ps = netOfDimensions account (none, none) ps := by
  have hgroups : ∀ d, ((ps.filter fun p => p.accountId = account).filter
      fun p => p.dimensions = d) = ps.filter fun p => p.accountId = account ∧ p.dimensions = d := by
    intro d
    rw [List.filter_filter]
    refine List.filter_congr fun p _ => ?_
    simp [Bool.and_comm]
  rw [netOfAccount, net, Relational.sum_of_other_groups dimensions signed (k := (none, none))]
  · rw [hgroups, netOfDimensions, net]
  · intro d hd
    rw [hgroups]
    exact h d hd

end Posting

namespace Books

/-- The postings of an entry that the reports count. -/
def reported (b : Books) (txn : Uuid) : List Posting :=
  if (b.header txn).any fun h => h.kind.reportable then b.postingsOf txn else []

/-- The reported postings of `t` and `r` cancel in every account, and for every cost center and
project in it. -/
structure Cancels (b : Books) (t r : Uuid) : Prop where
  accounts : ∀ account, Posting.netOfAccount account (b.reported t ++ b.reported r) = 0
  dimensions : ∀ account d, Posting.netOfDimensions account d (b.reported t ++ b.reported r) = 0

/-- A transaction that a reversal cancels. -/
structure Undoable (b : Books) (t : Transaction) : Prop where
  reportable : t.kind.reportable = true → ∀ account d, d ≠ (none, none) →
    Posting.netOfDimensions account d (b.postingsOf t.id) = 0
  unreported : t.kind.reportable = false → ∀ account,
    Posting.netOfAccount account (b.postingsOf t.id) = 0

end Books

/-! ## The flipped postings -/

/-- The posting `q` is `p` on the other side, with no cost center and no project. -/
structure Posting.Flips (p q : Posting) : Prop where
  accountId : q.accountId = p.accountId
  amount : q.amount = p.amount
  direction : q.direction = p.direction.flip
  dimensions : q.dimensions = (none, none)

theorem Posting.Flips.signed {p q : Posting} (h : p.Flips q) : q.signed = -p.signed := by
  rw [Posting.signed, Posting.signed, h.direction, h.amount]
  cases p.direction with
  | debit => rfl
  | credit => simp [Direction.flip]

namespace Posting

theorem netOfAccount_of_flips (account : Uuid) {ps qs : List Posting}
    (h : List.Forall₂ Flips ps qs) : netOfAccount account qs = -netOfAccount account ps := by
  induction h with
  | nil => simp
  | cons hpq _ ih =>
    rw [netOfAccount_cons, netOfAccount_cons, ih, hpq.signed, hpq.accountId]
    split <;> ring

theorem netOfDimensions_of_flips (account : Uuid) (d : Option Uuid × Option Uuid)
    {ps qs : List Posting} (h : List.Forall₂ Flips ps qs) :
    netOfDimensions account d qs = if d = (none, none) then -netOfAccount account ps else 0 := by
  induction h with
  | nil => simp
  | cons hpq _ ih =>
    rw [netOfDimensions_cons, netOfAccount_cons, ih, hpq.signed, hpq.accountId, hpq.dimensions]
    by_cases hd : d = (none, none)
    · rw [if_pos hd, if_pos hd]
      simp only [hd, and_true]
      split <;> ring
    · rw [if_neg hd, if_neg hd, if_neg (fun hall => hd hall.2.symm), zero_add]

end Posting

variable {req : Request}

theorem flips_of_flippedRows {n : ℕ} {memo : Posting → Option String} :
    ∀ {k : ℕ} {ps qs : List Posting},
      List.Forall₂ PostingRow.Written (flippedRows req n memo k ps) qs →
        List.Forall₂ Posting.Flips ps qs
  | _, [], _, h => by
    cases h
    exact .nil
  | k, p :: ps, _, h => by
    rw [flippedRows] at h
    cases h with
    | cons hone hrest =>
      refine .cons ⟨hone.stored.accountId, ?_, hone.stored.direction, ?_⟩
        (flips_of_flippedRows hrest)
      · exact hone.stored.amount.trans (roundDp_of_hasScale p.amount_scale)
      · exact Prod.ext hone.costCenterId hone.projectId

theorem flips_of_lineRows :
    ∀ {k : ℕ} {ps qs : List Posting},
      List.Forall₂ PostingRow.Written
        (PostingService.lineRows req k (ps.map Api.Transactions.reversedLine)
          ((ps.map Api.Transactions.reversedLine).map TxnLineInput.signedAmount)) qs →
        List.Forall₂ Posting.Flips ps qs
  | _, [], _, h => by
    cases h
    exact .nil
  | k, p :: ps, _, h => by
    have hpos := p.amount_pos
    rw [List.map_cons, List.map_cons, PostingService.lineRows] at h
    cases h with
    | cons hone hrest =>
      refine .cons ⟨hone.stored.accountId, ?_, ?_, ?_⟩ (flips_of_lineRows hrest)
      · have habs : |(Api.Transactions.reversedLine p).signedAmount| = p.amount := by
          rw [Api.Transactions.reversedLine]
          split
          · rw [abs_neg, abs_of_pos hpos]
          · exact abs_of_pos hpos
        refine hone.stored.amount.trans ?_
        rw [PostingService.lineRow, habs, roundDp_of_hasScale p.amount_scale]
      · refine hone.stored.direction.trans ?_
        rw [PostingService.lineRow, Api.Transactions.reversedLine, Direction.ofSigned]
        cases hd : p.direction with
        | debit => simp [hpos, Direction.flip]
        | credit => simp [hpos.le, Direction.flip]
      · exact Prod.ext hone.costCenterId hone.projectId

/-! ## The entry and its reversal -/

/-- `b'` has the entry `t` as `b` has it and, with the id `r`, its postings flipped. -/
structure Reversed (b b' : Books) (t : Transaction) (r : Uuid) : Prop where
  original : b'.header t.id = some t.header
  postings : b'.postingsOf t.id = b.postingsOf t.id
  reversal : ∃ h, b'.header r = some h ∧ h.kind = .reversing
  flipped : List.Forall₂ Posting.Flips (b.postingsOf t.id) (b'.postingsOf r)

namespace Reversed

variable {b b₁ b' : Books} {t s : Transaction} {r : Uuid} {ps qs : List Posting}

theorem of_posts (hposts : Books.Posts b b' s qs) (ht : t ∈ b.transactions)
    (hkind : s.kind = .reversing) (hflips : List.Forall₂ Posting.Flips (b.postingsOf t.id) qs) :
    Reversed b b' t s.id where
  original := by
    rw [hposts.header, if_neg (hposts.ne_of_mem ht)]
    exact Books.header_of_mem ht
  postings := hposts.postingsOf_of_ne (hposts.ne_of_mem ht)
  reversal := ⟨s.header, by rw [hposts.header, if_pos rfl], hkind⟩
  flipped := by
    rw [hposts.postingsOf_self]
    exact hflips

theorem after (h : Reversed b b₁ t r) (hposts : Books.Posts b₁ b' s ps) : Reversed b b' t r := by
  have hne : ∀ {txn : Uuid} {head : Header}, b₁.header txn = some head → txn ≠ s.id := by
    rintro txn head hhead rfl
    exact hposts.fresh (by_contra fun hnew => by
      rw [Books.header_eq_none.mpr hnew] at hhead
      cases hhead)
  obtain ⟨head, hhead, hkind⟩ := h.reversal
  exact
    { original := by rw [hposts.header, if_neg (hne h.original), h.original]
      postings := by rw [hposts.postingsOf_of_ne (hne h.original), h.postings]
      reversal := ⟨head, by rw [hposts.header, if_neg (hne hhead), hhead], hkind⟩
      flipped := by
        rw [hposts.postingsOf_of_ne (hne hhead)]
        exact h.flipped }

theorem before (h : Reversed b₁ b' t r) (hposts : Books.Posts b b₁ s ps)
    (ht : t ∈ b.transactions) : Reversed b b' t r := by
  have hsame : b₁.postingsOf t.id = b.postingsOf t.id :=
    hposts.postingsOf_of_ne (hposts.ne_of_mem ht)
  exact
    { original := h.original
      postings := h.postings.trans hsame
      reversal := h.reversal
      flipped := hsame ▸ h.flipped }

/-- A reversal cancels its transaction if and only if that can be undone. -/
theorem cancels_iff (h : Reversed b b' t r) : b'.Cancels t.id r ↔ b.Undoable t := by
  obtain ⟨head, hhead, hkind⟩ := h.reversal
  have hreversal : b'.reported r = b'.postingsOf r := by
    rw [Books.reported, hhead]
    simp [hkind, TxnKind.reportable]
  have horiginal : b'.reported t.id =
      if t.kind.reportable then b.postingsOf t.id else [] := by
    rw [Books.reported, h.original, h.postings]
    rfl
  have haccount := fun account => Posting.netOfAccount_of_flips account h.flipped
  have hdimensions := fun account d => Posting.netOfDimensions_of_flips account d h.flipped
  cases hreportable : t.kind.reportable with
  | true =>
    rw [hreportable, if_pos rfl] at horiginal
    constructor
    · intro hcancels
      refine ⟨fun _ account d hd => ?_, fun hnot => absurd (hreportable.symm.trans hnot) nofun⟩
      have hsum := hcancels.dimensions account d
      rwa [horiginal, hreversal, Posting.netOfDimensions_append, hdimensions, if_neg hd,
        add_zero] at hsum
    · intro hundoable
      have htagged := hundoable.reportable hreportable
      constructor
      · intro account
        rw [horiginal, hreversal, Posting.netOfAccount_append, haccount, add_neg_cancel]
      · intro account d
        rw [horiginal, hreversal, Posting.netOfDimensions_append, hdimensions]
        by_cases hd : d = (none, none)
        · rw [if_pos hd, hd, Posting.netOfAccount_eq_untagged (htagged account),
            add_neg_cancel]
        · rw [if_neg hd, htagged account d hd, add_zero]
  | false =>
    rw [hreportable, if_neg (by decide)] at horiginal
    constructor
    · intro hcancels
      refine ⟨fun hyes => absurd (hreportable.symm.trans hyes) nofun, fun _ account => ?_⟩
      have hsum := hcancels.accounts account
      rwa [horiginal, hreversal, List.nil_append, haccount, neg_eq_zero] at hsum
    · intro hundoable
      have hall := hundoable.unreported hreportable
      constructor
      · intro account
        rw [horiginal, hreversal, List.nil_append, haccount, hall account, neg_zero]
      · intro account d
        rw [horiginal, hreversal, List.nil_append, hdimensions, hall account, neg_zero, ite_self]

end Reversed

/-! ## The three operations -/

theorem TransactionsEdit.reverse_reversed {db db' : Db} {auth : Option Uuid} {ledger : Uuid}
    {t : Transaction} (ht : db.books.findTxnIn t.id ledger = some t)
    (h : reverse db req auth ledger t.id = (.ok (), db')) :
    Reversed db.books db'.books t (req.txnId 0) := by
  have hbody := commit_eq_ok.mp h
  simp only [insertReversal, bind_eq_ok, okOr_eq_ok, ensure_eq_ok, mapError_eq_ok] at hbody
  obtain ⟨user, -, -, -, original, horiginal, -, -, -, -, db₁, ⟨l, -, hentry⟩, hdb⟩ := hbody
  cases hdb
  cases ht.symm.trans horiginal
  obtain ⟨b', ps, rfl, hposts, hwritten⟩ :=
    Db.insertEntry_written (fun r hr => flippedRows_transactionId r hr) hentry
  exact .of_posts hposts (Books.findTxnIn_spec ht).1 rfl (flips_of_flippedRows hwritten)

/-- What an answered `create_with_kind` wrote, with every column of its postings. -/
theorem PostingService.createWithKind_written {db db' : Db} {new : NewTransaction}
    {isDraft : Bool} {created : CreatedTransaction}
    (h : createWithKind db req new isDraft = (.ok created, db')) :
    ∃ effective ledger kind ps, resolveAmounts db req new = .ok effective ∧
      TxnKind.fromDb (makerChecker ledger (new.kind.getD "standard") isDraft
        (debitTotal effective)).1 = some kind ∧ created.id = req.txnId 0 ∧
      Books.Posts db.books db'.books (txnRow req ledger new kind created.number) ps ∧
      List.Forall₂ PostingRow.Written (lineRows req 0 new.lines effective) ps := by
  obtain ⟨effective, isPending, db₁, rows, hvalid, hwrite, rfl⟩ := createWithKind_eq_ok h
  simp only [writeTransaction, bind_eq_ok, okOr_eq_ok, ensure_eq_ok, mapError_eq_ok] at hwrite
  obtain ⟨ledger, -, -, -, -, -, -, -, number, -, kind, hkind, db₂, hentry, db₃, htaxes,
    hmade⟩ := hwrite
  obtain ⟨b', ps, rfl, hposts, hwritten⟩ :=
    Db.insertEntry_written (fun r hr => lineRows_transactionId r hr) hentry
  obtain ⟨taxes, rfl⟩ := insertTaxLinks_frame htaxes
  cases hmade
  exact ⟨effective, ledger, kind, ps, (validate_spec hvalid).2.1, hkind, rfl, hposts, hwritten⟩

theorem Api.Transactions.reverse_reversed {db db' : Db} {user ledger : Uuid} {t : Transaction}
    {answer : ReverseResponse} (ht : db.books.findTxnIn t.id ledger = some t)
    (h : reverse db req user ledger t.id = (.ok answer, db')) :
    Reversed db.books db'.books t answer.id := by
  rw [reverse] at h
  cases hlines : reverseLines db user ledger t.id with
  | error e =>
    rw [hlines] at h
    cases congrArg Prod.fst h
  | ok found =>
    rw [hlines] at h
    simp only [reverseLines, bind_eq_ok, okOr_eq_ok, ensure_eq_ok] at hlines
    obtain ⟨-, -, original, -, -, -, -, -, hfound⟩ := hlines
    cases hfound
    dsimp only at h
    split at h
    · next created db₁ hcreate =>
        cases h
        obtain ⟨effective, l, kind, ps, hamounts, hkind, hid, hposts, hwritten⟩ :=
          PostingService.createWithKind_written hcreate
        -- No gate sends a reversal to approval, and no line has a foreign leg.
        have hreversing : kind = .reversing := by
          have hgate : TxnKind.fromDb "reversing" = some kind := hkind
          exact (Option.some.inj hgate).symm
        have hlocal : ((db.books.postingsOf t.id).map reversedLine).any
            (fun line => line.foreign.isSome) = false := by
          rw [List.any_eq_false]
          intro line hline
          obtain ⟨p, -, rfl⟩ := List.mem_map.mp hline
          exact Bool.false_ne_true
        rw [PostingService.resolveAmounts, hlocal] at hamounts
        cases hamounts
        have hreversed := Reversed.of_posts hposts (Books.findTxnIn_spec ht).1 hreversing
          (flips_of_lineRows hwritten)
        rwa [show created.id = _ from hid]
    · cases congrArg Prod.fst h

namespace TransactionsBulk

variable {ledger : Uuid} {req : Request} {t : Transaction}

theorem reverseOne_reversed {db db' : Db} {n : ℕ} {user : Uuid} (ht : t ∈ db.books.transactions)
    (h : reverseOne db req n user ledger t = .ok db') :
    Reversed db.books db'.books t (req.txnId n) := by
  simp only [reverseOne, bind_eq_ok] at h
  obtain ⟨db₁, htxn, hrows⟩ := h
  obtain ⟨-, hfresh, rfl⟩ := Db.insertTransaction_spec htxn
  obtain ⟨b', ps, rfl, hposts, -, -⟩ := Db.insertPostings_posts
    (Books.posts_addTxn hfresh) (fun r hr => flippedRows_transactionId r hr) hrows
  obtain ⟨qs, hqs, hwritten⟩ := Db.insertPostings_written hrows
  have hsame : db.books.postings ++ ps = db.books.postings ++ qs := hposts.postings.symm.trans hqs
  obtain rfl := List.append_cancel_left hsame
  rw [List.nil_append] at hposts
  exact .of_posts hposts ht rfl (flips_of_flippedRows hwritten)

theorem findTxnIn_of_posts {b b' : Books} {s : Transaction} {ps : List Posting}
    (hposts : Books.Posts b b' s ps) (ht : b.findTxnIn t.id ledger = some t) :
    b'.findTxnIn t.id ledger = some t := by
  rw [Books.findTxnIn] at ht ⊢
  rw [hposts.transactions, List.find?_append, ht, Option.some_or]

/-- Every transaction of the list gets its reversal. -/
theorem reverseAll_reversed {user : Uuid} :
    ∀ {ids : List Uuid} {n i : ℕ} {db db' : Db}, reverseAll req user ledger n db ids = .ok db' →
      ids[i]? = some t.id → db.books.findTxnIn t.id ledger = some t →
      Reversed db.books db'.books t (req.txnId (n + i))
  | [], _, _, _, _, _, hi, _ => by cases hi
  | id :: ids, n, i, db, db', h, hi, ht => by
    rw [reverseAll] at h
    cases i with
    | zero =>
      cases hi
      rw [ht] at h
      simp only [bind_eq_ok] at h
      obtain ⟨db₁, hone, hrest⟩ := h
      have hfirst := reverseOne_reversed (Books.findTxnIn_spec ht).1 hone
      obtain ⟨b', rfl, hlast⟩ := reverseAll_invariant (P := fun b =>
        Reversed db.books b t (req.txnId n)) (fun hb _ _ _ hposts _ => hb.after hposts) hfirst
        hrest
      exact hlast
    | succ i =>
      have hi : ids[i]? = some t.id := hi
      have hindex : n + (i + 1) = n + 1 + i := by omega
      rw [hindex]
      split at h
      · exact reverseAll_reversed h hi ht
      · simp only [bind_eq_ok] at h
        obtain ⟨db₁, hone, hrest⟩ := h
        obtain ⟨s, ps, b₁, -, rfl, hposts, -⟩ := reverseOne_spec hone
        have hlast := reverseAll_reversed hrest hi (findTxnIn_of_posts hposts ht)
        exact hlast.before hposts (Books.findTxnIn_spec ht).1

theorem bulkDelete_eq_done {db db' : Db} {auth : Option Uuid} {form : BulkForm}
    (haction : form.action = .delete) (h : bulkAction db req auth ledger form = (.ok .done, db')) :
    ∃ user, reverseAll req user ledger 0 db form.txnIds = .ok db' := by
  unfold bulkAction at h
  cases hauth : authorize db auth ledger form with
  | error e =>
    rw [hauth] at h
    cases congrArg Prod.fst h
  | ok user =>
    rw [hauth] at h
    dsimp only at h
    split at h
    · cases congrArg Prod.fst h
    · rw [runAction, haction] at h
      dsimp only at h
      cases hdelete : deleteAction db req user ledger form.txnIds with
      | error e =>
        rw [hdelete] at h
        cases congrArg Prod.fst h
      | ok db₁ =>
        rw [hdelete] at h
        have hdb : db₁ = db' := congrArg Prod.snd h
        rw [deleteAction, mapError_eq_ok, hdb] at hdelete
        exact ⟨user, hdelete⟩

theorem bulkDelete_reversed {db db' : Db} {auth : Option Uuid} {form : BulkForm} {i : ℕ}
    (haction : form.action = .delete) (hi : form.txnIds[i]? = some t.id)
    (ht : db.books.findTxnIn t.id ledger = some t)
    (h : bulkAction db req auth ledger form = (.ok .done, db')) :
    Reversed db.books db'.books t (req.txnId i) := by
  obtain ⟨user, hall⟩ := bulkDelete_eq_done haction h
  have hreversed := reverseAll_reversed hall hi ht
  rwa [Nat.zero_add] at hreversed

end TransactionsBulk

/-! ## When they cancel -/

/-- A request that reverses transactions. -/
inductive Reversal where
  | reverse (auth : Option Uuid)
  | apiReverse (user : Uuid)
  /-- The bulk delete of a form, of which the `i`-th id is looked at. -/
  | bulkDelete (auth : Option Uuid) (form : TransactionsBulk.BulkForm) (i : ℕ)

/-- The operation succeeded on `t` and wrote its reversal `r`. -/
def Reversal.Did (db db' : Db) (req : Request) (ledger : Uuid) (t : Transaction) (r : Uuid) :
    Reversal → Prop
  | .reverse auth =>
    TransactionsEdit.reverse db req auth ledger t.id = (.ok (), db') ∧ r = req.txnId 0
  | .apiReverse user => ∃ answer,
      Api.Transactions.reverse db req user ledger t.id = (.ok answer, db') ∧ r = answer.id
  | .bulkDelete auth form i =>
    TransactionsBulk.bulkAction db req auth ledger form = (.ok .done, db') ∧
      form.action = .delete ∧ form.txnIds[i]? = some t.id ∧ r = req.txnId i

theorem Reversal.Did.reversed {op : Reversal} {db db' : Db} {ledger r : Uuid} {t : Transaction}
    (ht : db.books.findTxnIn t.id ledger = some t) (h : op.Did db db' req ledger t r) :
    Reversed db.books db'.books t r := by
  cases op with
  | reverse auth =>
    obtain ⟨hdone, rfl⟩ := h
    exact TransactionsEdit.reverse_reversed ht hdone
  | apiReverse user =>
    obtain ⟨answer, hdone, rfl⟩ := h
    exact Api.Transactions.reverse_reversed ht hdone
  | bulkDelete auth form i =>
    obtain ⟨hdone, haction, hi, rfl⟩ := h
    exact TransactionsBulk.bulkDelete_reversed haction hi ht hdone

/-- A transaction and the reversal a successful operation wrote cancel exactly when the
transaction can be undone. -/
theorem Reversal.cancels_iff_undoable {op : Reversal} {db db' : Db} {req : Request}
    {ledger r : Uuid} {t : Transaction} (ht : db.books.findTxnIn t.id ledger = some t)
    (h : op.Did db db' req ledger t r) : db'.books.Cancels t.id r ↔ db.books.Undoable t :=
  (h.reversed ht).cancels_iff

namespace Sample

/-- A cash sale of 100.00 on 10 March, its income on a cost center or on none. -/
def centered (costCenter : Option Uuid) : NewTransaction :=
  { sale 100 with
    lines := [{ accountId := cash, signedAmount := 100 },
      { accountId := sales, signedAmount := -100, costCenterId := costCenter }] }

/-- The ledger with a cost center, after that sale. -/
def centeredDb (costCenter : Option Uuid) : Db :=
  (PostingService.create
    { db with costCenters := [{ id := 41, ledgerId := ledgerId, name := "Shop" }] } (request 1)
    (centered costCenter)).2

def centeredRow (costCenter : Option Uuid) : Transaction :=
  PostingService.txnRow (request 1) { id := ledgerId, ownerId := owner } (centered costCenter)
    .standard (some "2026-000001")

def reversedDb (costCenter : Option Uuid) : Db :=
  (TransactionsEdit.reverse (centeredDb costCenter) (request 2) (some owner) ledgerId 1000).2

end Sample

/-- A sale without tags. -/
theorem Reversal.cancels_iff_undoable_sale :
    (Sample.reversedDb none).books.Cancels 1000 2000 ↔
      (Sample.centeredDb none).books.Undoable (Sample.centeredRow none) := by
  have hdone : TransactionsEdit.reverse (Sample.centeredDb none) (Sample.request 2)
      (some Sample.owner) Sample.ledgerId 1000 = (.ok (), Sample.reversedDb none) :=
    Prod.ext (by decide +kernel) rfl
  have hfound : (Sample.centeredDb none).books.findTxnIn 1000 Sample.ledgerId =
      some (Sample.centeredRow none) := by decide +kernel
  exact @cancels_iff_undoable (.reverse (some Sample.owner)) (Sample.centeredDb none)
    (Sample.reversedDb none) (Sample.request 2) Sample.ledgerId 2000 (Sample.centeredRow none)
    hfound ⟨hdone, rfl⟩

/-- The income of the sale stays on the cost center after the reversal. -/
theorem Reversal.not_cancels :
    ¬ ∀ (op : Reversal) (db db' : Db) (req : Request) (ledger r : Uuid) (t : Transaction),
      db.books.findTxnIn t.id ledger = some t → op.Did db db' req ledger t r →
        db'.books.Cancels t.id r := by
  intro hall
  have hdone : TransactionsEdit.reverse (Sample.centeredDb (some 41)) (Sample.request 2)
      (some Sample.owner) Sample.ledgerId 1000 = (.ok (), Sample.reversedDb (some 41)) :=
    Prod.ext (by decide +kernel) rfl
  have hfound : (Sample.centeredDb (some 41)).books.findTxnIn 1000 Sample.ledgerId =
      some (Sample.centeredRow (some 41)) := by decide +kernel
  have hcancels := hall (.reverse (some Sample.owner)) (Sample.centeredDb (some 41))
    (Sample.reversedDb (some 41)) (Sample.request 2) Sample.ledgerId 2000
    (Sample.centeredRow (some 41)) hfound ⟨hdone, rfl⟩
  exact absurd (hcancels.dimensions Sample.sales (some 41, none)) (by decide +kernel)

end OpenAccounting
