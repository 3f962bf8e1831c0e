import OpenAccounting.Db.Writes
import OpenAccounting.Lib.Relational

/-!
# The net of every account

Three reports start from the same shape of query: every account, left-joined with its
postings, left-joined with their transactions, grouped by account.  The date and the kind
of a transaction are asked for in the `ON` clause of the second join.

A left join keeps a row that finds no partner.  So a posting whose transaction is a draft,
waits for approval or is dated later still reaches the sum: its transaction is null, its
amount is not.  `mem_accountNets` says what the query computes, the net of all postings of
the account.
-/

namespace OpenAccounting

open Calendar Relational

/-- A dimension slice. -/
structure DimensionFilter where
  costCenterId : Option Uuid := none
  projectId : Option Uuid := none
deriving DecidableEq

namespace DimensionFilter

/-- No slice. -/
def empty : DimensionFilter := {}

def isActive (f : DimensionFilter) : Bool := f.costCenterId.isSome || f.projectId.isSome

/-- `($3 IS NULL OR p.cost_center_id = $3) AND ($4 IS NULL OR p.project_id = $4)`. -/
def Passes (f : DimensionFilter) (p : Posting) : Prop :=
  (f.costCenterId = none ∨ p.costCenterId = f.costCenterId) ∧
    (f.projectId = none ∨ p.projectId = f.projectId)

instance (f : DimensionFilter) : DecidablePred f.Passes := by
  unfold Passes
  infer_instance

theorem passes_empty (p : Posting) : empty.Passes p := ⟨Or.inl rfl, Or.inl rfl⟩

end DimensionFilter

/-! ## Sums of postings -/

namespace Books

def PostedOn (b : Books) (P : Account → Prop) (p : Posting) : Prop :=
  ∃ a ∈ b.accounts, a.id = p.accountId ∧ P a

instance (b : Books) (P : Account → Prop) [DecidablePred P] : DecidablePred (b.PostedOn P) := by
  unfold PostedOn
  infer_instance

/-- The posting is part of a transaction with `Q`. -/
def PostedBy (b : Books) (Q : Transaction → Prop) (p : Posting) : Prop :=
  ∃ t ∈ b.transactions, t.id = p.transactionId ∧ Q t

instance (b : Books) (Q : Transaction → Prop) [DecidablePred Q] :
    DecidablePred (b.PostedBy Q) := by
  unfold PostedBy
  infer_instance

def netWhere (b : Books) (P : Posting → Prop) [DecidablePred P] : ℚ :=
  Posting.net (b.postings.filter fun p => P p)

variable {b : Books}

theorem netWhere_congr {P Q : Posting → Prop} [DecidablePred P] [DecidablePred Q]
    (h : ∀ p ∈ b.postings, P p ↔ Q p) : b.netWhere P = b.netWhere Q := by
  rw [netWhere, netWhere]
  refine congrArg Posting.net (List.filter_congr ?_)
  intro p hp
  exact decide_eq_decide.mpr (h p hp)

theorem netWhere_split (P Q : Posting → Prop) [DecidablePred P] [DecidablePred Q] :
    b.netWhere P = b.netWhere (fun p => P p ∧ Q p) + b.netWhere fun p => P p ∧ ¬ Q p := by
  simp only [netWhere]
  induction b.postings with
  | nil => simp
  | cons p ps ih =>
    by_cases hP : P p
    · by_cases hQ : Q p
      · simp [hP, hQ, ih, add_assoc]
      · simp [hP, hQ, ih, add_left_comm]
    · simp [hP, ih]

theorem sum_net_postingsOf (Q : Transaction → Prop) [DecidablePred Q] :
    ((b.transactions.filter fun t => Q t).map fun t => Posting.net (b.postingsOf t.id)).sum =
      b.netWhere (b.PostedBy Q) :=
  sum_by_key b.txn_ids_nodup Q Posting.transactionId Posting.signed b.postings

end Books

namespace Reports

/-- Debits minus credits of an account. -/
def netOf (b : Books) (account : Uuid) : ℚ := b.netWhere fun p => p.accountId = account

structure AccountTotal where
  accountId : Uuid
  accountName : String
  /-- The type or the subtype of the account, as the report chooses. -/
  accountType : String
  amount : ℚ
  priorAmount : Option ℚ := none
deriving DecidableEq

theorem sum_amount_filter (totals : List AccountTotal) :
    ((totals.filter fun a => a.amount ≠ 0).map AccountTotal.amount).sum =
      (totals.map AccountTotal.amount).sum := by
  rw [sum_map_filter]
  congr 2
  funext a
  by_cases ha : a.amount = 0
  · simp [ha]
  · simp [ha]

/-- A row of the joined tables. -/
abbrev JoinedRow := (Account × Option Posting) × Option Transaction

/-- The first `ON` clause. -/
def OnAccount (filter : DimensionFilter) (a : Account) (p : Posting) : Prop :=
  p.accountId = a.id ∧ filter.Passes p

instance (filter : DimensionFilter) (a : Account) : DecidablePred (OnAccount filter a) := by
  unfold OnAccount
  infer_instance

/-- The second `ON` clause. -/
def OnTransaction (through : NaiveDate) (r : Account × Option Posting) (t : Transaction) : Prop :=
  (r.2.any fun p => t.id = p.transactionId) ∧ t.txnDate ≤ through ∧ t.kind.reportable

instance (through : NaiveDate) (r : Account × Option Posting) :
    DecidablePred (OnTransaction through r) := by
  unfold OnTransaction
  infer_instance

/-- `FROM accounts a LEFT JOIN postings p ON … LEFT JOIN transactions t ON …`. -/
def joined (b : Books) (filter : DimensionFilter) (through : NaiveDate) : List JoinedRow :=
  leftJoin (OnTransaction through) (leftJoin (OnAccount filter) b.accounts b.postings)
    b.transactions

/-- The joins, with any second `ON` clause. -/
def joinedOn (b : Books) (filter : DimensionFilter)
    (on : Account × Option Posting → Transaction → Prop) [∀ r, DecidablePred (on r)] :
    List JoinedRow :=
  leftJoin on (leftJoin (OnAccount filter) b.accounts b.postings) b.transactions

/-- The clause asks for the transaction of the posting. -/
def JoinsTransaction (on : Account × Option Posting → Transaction → Prop) : Prop :=
  ∀ r t, on r t → r.2.any fun p => t.id = p.transactionId

/-- `SUM(CASE WHEN p.direction = side THEN p.amount ELSE 0 END)`. -/
def sumSide (side : Direction) (rows : List JoinedRow) : ℚ :=
  (rows.map fun r =>
    match r.1.2 with
    | some p => if p.direction = side then p.amount else 0
    | none => 0).sum

/-- Debits minus credits. -/
def netBySides (rows : List JoinedRow) : ℚ := sumSide .debit rows - sumSide .credit rows

/-- `SUM(CASE WHEN p.direction = 'DEBIT' THEN p.amount ELSE -p.amount END)`.  A null amount
does not enter the sum. -/
def netSigned (rows : List JoinedRow) : ℚ :=
  (rows.map fun r =>
    match r.1.2 with
    | some p => if p.direction = .debit then p.amount else -p.amount
    | none => 0).sum

/-- The query, with its `WHERE` clause on the account and its aggregate. -/
def accountNets (b : Books) (keep : Account → Prop) [DecidablePred keep]
    (filter : DimensionFilter) (through : NaiveDate) (net : List JoinedRow → ℚ) :
    List (Account × ℚ) :=
  (groupBy (·.1.1) ((joined b filter through).filter fun r => keep r.1.1)).map
    fun g => (g.1, net g.2)

/-- The query with any second `ON` clause. -/
def accountNetsOn (b : Books) (keep : Account → Prop) [DecidablePred keep]
    (filter : DimensionFilter) (on : Account × Option Posting → Transaction → Prop)
    [∀ r, DecidablePred (on r)] (net : List JoinedRow → ℚ) : List (Account × ℚ) :=
  (groupBy (·.1.1) ((joinedOn b filter on).filter fun r => keep r.1.1)).map
    fun g => (g.1, net g.2)

/-! ## What the query computes -/

def postingsOfRows (rows : List JoinedRow) : List Posting := rows.filterMap (·.1.2)

theorem postingsOfRows_cons (r : JoinedRow) (rows : List JoinedRow) :
    postingsOfRows (r :: rows) = r.1.2.toList ++ postingsOfRows rows := by
  rw [postingsOfRows, List.filterMap_cons]
  cases r.1.2 with
  | none => rfl
  | some p => rfl

theorem sumSide_eq (side : Direction) (rows : List JoinedRow) :
    sumSide side rows = Posting.sumOn side (postingsOfRows rows) := by
  induction rows with
  | nil => rfl
  | cons r rows ih =>
    rw [postingsOfRows_cons, Posting.sumOn_append, ← ih, sumSide, sumSide, List.map_cons,
      List.sum_cons]
    cases r.1.2 with
    | none => simp
    | some p => simp

theorem netBySides_eq (rows : List JoinedRow) :
    netBySides rows = Posting.net (postingsOfRows rows) := by
  rw [netBySides, sumSide_eq, sumSide_eq, Posting.sumOn_sub_sumOn]

theorem netSigned_eq (rows : List JoinedRow) :
    netSigned rows = Posting.net (postingsOfRows rows) := by
  induction rows with
  | nil => rfl
  | cons r rows ih =>
    rw [postingsOfRows_cons, Posting.net_append, ← ih, netSigned, netSigned, List.map_cons,
      List.sum_cons]
    cases r.1.2 with
    | none => simp
    | some p => cases hd : p.direction <;> simp [Posting.signed, hd]

/-- The postings of an account that pass the filter. -/
def postingsOn (b : Books) (filter : DimensionFilter) (a : Account) : List Posting :=
  b.postings.filter fun p => OnAccount filter a p

variable {b : Books} {a : Account} (filter : DimensionFilter)

theorem net_postingsOn (b : Books) (a : Account) :
    Posting.net (postingsOn b .empty a) = netOf b a.id := by
  refine Books.netWhere_congr (b := b) fun p _ => ?_
  exact and_iff_left (DimensionFilter.passes_empty p)

theorem postingsOn_eq (b : Books) (a : Account) : postingsOn b filter a =
    (b.postings.filter fun p => filter.Passes p).filter fun p => p.accountId = a.id := by
  rw [postingsOn, List.filter_filter]
  refine List.filter_congr ?_
  intro p _
  exact Bool.decide_and _ _

theorem filterMap_leftMatches :
    (leftMatches (OnAccount filter) b.postings a).filterMap Prod.snd = postingsOn b filter a :=
  filterMap_snd_leftMatches b.postings a

theorem filter_eq_account (ha : a ∈ b.accounts) : (b.accounts.filter fun x => x = a) = [a] := by
  have hnodup : b.accounts.Nodup := List.Nodup.of_map Account.id b.account_ids_nodup
  rw [List.filter_eq, List.count_eq_one_of_mem hnodup ha]
  rfl

section

variable {on : Account × Option Posting → Transaction → Prop} [∀ r, DecidablePred (on r)]
  (hon : JoinsTransaction on)

include hon

theorem JoinsTransaction.length_le (r : Account × Option Posting) :
    (b.transactions.filter fun t => on r t).length ≤ 1 := by
  cases hr : r.2 with
  | none =>
    have hnone : (b.transactions.filter fun t => on r t) = [] := by
      rw [List.filter_eq_nil_iff]
      intro t _ ht
      have hsome := hon r t (of_decide_eq_true ht)
      rw [hr] at hsome
      cases hsome
    rw [hnone]
    exact Nat.zero_le 1
  | some p =>
    refine length_filter_le_one (k := p.transactionId) b.txn_ids_nodup ?_
    intro t _ ht
    simpa [hr] using hon r t (of_decide_eq_true ht)

theorem postingsOfRows_joined (ha : a ∈ b.accounts) :
    postingsOfRows ((joinedOn b filter on).filter fun r => r.1.1 = a) =
      postingsOn b filter a := by
  have hfst : ∀ rows : List JoinedRow,
      postingsOfRows rows = (rows.map Prod.fst).filterMap Prod.snd := by
    intro rows
    rw [postingsOfRows, List.filterMap_map]
    rfl
  rw [joinedOn, filter_leftJoin (p := fun r : Account × Option Posting => r.1 = a),
    filter_leftJoin (p := fun x : Account => x = a), filter_eq_account ha, hfst,
    leftJoin_map_fst fun r _ => hon.length_le r, leftJoin, List.flatMap_singleton]
  exact filterMap_leftMatches filter

theorem mem_map_joined : a ∈ (joinedOn b filter on).map (·.1.1) ↔ a ∈ b.accounts := by
  have hmap : (joinedOn b filter on).map (·.1.1) =
      ((joinedOn b filter on).map Prod.fst).map Prod.fst := by
    rw [List.map_map]
    rfl
  rw [hmap, joinedOn, leftJoin_map_fst fun r _ => hon.length_le r, mem_map_fst_leftJoin]

variable {keep : Account → Prop} {net : List JoinedRow → ℚ}

theorem mem_accountNetsOn [DecidablePred keep]
    (hnet : ∀ rows, net rows = Posting.net (postingsOfRows rows)) {x : ℚ} :
    (a, x) ∈ accountNetsOn b keep filter on net ↔
      a ∈ b.accounts ∧ keep a ∧ x = Posting.net (postingsOn b filter a) := by
  have hgroup : ∀ {a : Account}, keep a → a ∈ b.accounts →
      net (((joinedOn b filter on).filter fun r => keep r.1.1).filter fun r => r.1.1 = a) =
        Posting.net (postingsOn b filter a) := by
    intro a hkeep ha
    rw [hnet, List.filter_filter, ← postingsOfRows_joined filter hon ha]
    congr 2
    refine List.filter_congr ?_
    intro r _
    by_cases hr : r.1.1 = a
    · simp [hr, hkeep]
    · simp [hr]
  have hkey : ∀ {a : Account}, a ∈ ((joinedOn b filter on).filter fun r => keep r.1.1).map
      (·.1.1) ↔ a ∈ b.accounts ∧ keep a := by
    intro a
    rw [← mem_map_joined filter hon]
    simp only [List.mem_map, List.mem_filter, decide_eq_true_eq]
    constructor
    · rintro ⟨r, ⟨hr, hkeep⟩, rfl⟩
      exact ⟨⟨r, hr, rfl⟩, hkeep⟩
    · rintro ⟨⟨r, hr, rfl⟩, hkeep⟩
      exact ⟨r, ⟨hr, hkeep⟩, rfl⟩
  rw [accountNetsOn, List.mem_map]
  constructor
  · rintro ⟨g, hg, hax⟩
    obtain ⟨hmem, hrows⟩ := mem_groupBy.mp hg
    obtain ⟨rfl, rfl⟩ := Prod.mk.injEq _ _ _ _ ▸ hax
    obtain ⟨ha, hkeep⟩ := hkey.mp hmem
    exact ⟨ha, hkeep, by rw [hrows]; exact hgroup hkeep ha⟩
  · rintro ⟨ha, hkeep, rfl⟩
    refine ⟨(a, ((joinedOn b filter on).filter fun r => keep r.1.1).filter
      fun r => r.1.1 = a), mem_groupBy.mpr ⟨hkey.mpr ⟨ha, hkeep⟩, rfl⟩, ?_⟩
    exact Prod.ext rfl (hgroup hkeep ha)

theorem nodup_accountNetsOn_ids [DecidablePred keep]
    (hnet : ∀ rows, net rows = Posting.net (postingsOfRows rows)) :
    ((accountNetsOn b keep filter on net).map fun r => r.1.id).Nodup := by
  have haccounts : ((accountNetsOn b keep filter on net).map Prod.fst).Nodup := by
    rw [accountNetsOn, List.map_map]
    exact nodup_groupBy_keys _ _
  have hmem : ∀ a ∈ (accountNetsOn b keep filter on net).map Prod.fst, a ∈ b.accounts := by
    intro a ha
    obtain ⟨⟨a, x⟩, hr, rfl⟩ := List.mem_map.mp ha
    exact ((mem_accountNetsOn filter hon hnet).mp hr).1
  have hids := haccounts.map_on fun a ha a' ha' hid =>
    List.inj_on_of_nodup_map b.account_ids_nodup (hmem a ha) (hmem a' ha') hid
  rw [List.map_map] at hids
  exact hids

/-- The rows of the query are the kept accounts with their nets, in some order. -/
theorem accountNetsOn_perm [DecidablePred keep]
    (hnet : ∀ rows, net rows = Posting.net (postingsOfRows rows)) :
    (accountNetsOn b keep filter on net).Perm
      ((b.accounts.filter fun a => keep a).map fun a => (a, Posting.net (postingsOn b filter a))) := by
  have hleft : (accountNetsOn b keep filter on net).Nodup :=
    List.Nodup.of_map _ (nodup_accountNetsOn_ids filter hon hnet)
  have hright : ((b.accounts.filter fun a => keep a).map
      fun a => (a, Posting.net (postingsOn b filter a))).Nodup := by
    have haccounts : b.accounts.Nodup := List.Nodup.of_map Account.id b.account_ids_nodup
    exact (haccounts.filter _).map fun a a' h => congrArg Prod.fst h
  refine (List.perm_ext_iff_of_nodup hleft hright).mpr ?_
  rintro ⟨a, x⟩
  rw [mem_accountNetsOn filter hon hnet]
  simp only [List.mem_map, List.mem_filter, decide_eq_true_eq, Prod.mk.injEq]
  constructor
  · rintro ⟨ha, hkeep, rfl⟩
    exact ⟨a, ⟨ha, hkeep⟩, rfl, rfl⟩
  · rintro ⟨a', ⟨ha, hkeep⟩, rfl, rfl⟩
    exact ⟨ha, hkeep, rfl⟩

end

section

variable (through : NaiveDate) {keep : Account → Prop} [DecidablePred keep]
  {net : List JoinedRow → ℚ}

theorem joinsTransaction_onTransaction : JoinsTransaction (OnTransaction through) :=
  fun _ _ h => h.1

theorem mem_accountNets (hnet : ∀ rows, net rows = Posting.net (postingsOfRows rows)) {x : ℚ} :
    (a, x) ∈ accountNets b keep filter through net ↔
      a ∈ b.accounts ∧ keep a ∧ x = Posting.net (postingsOn b filter a) :=
  mem_accountNetsOn filter (joinsTransaction_onTransaction through) hnet

theorem nodup_accountNets_ids (hnet : ∀ rows, net rows = Posting.net (postingsOfRows rows)) :
    ((accountNets b keep filter through net).map fun r => r.1.id).Nodup :=
  nodup_accountNetsOn_ids filter (joinsTransaction_onTransaction through) hnet

/-- The rows of the query are the kept accounts with their nets, in some order. -/
theorem accountNets_perm (hnet : ∀ rows, net rows = Posting.net (postingsOfRows rows)) :
    (accountNets b keep filter through net).Perm
      ((b.accounts.filter fun a => keep a).map fun a => (a, Posting.net (postingsOn b filter a))) :=
  accountNetsOn_perm filter (joinsTransaction_onTransaction through) hnet

/-- The nets of the accounts with `P` sum to the net of the postings on them. -/
theorem sum_accountNets
    (hnet : ∀ rows, net rows = Posting.net (postingsOfRows rows)) (P : Account → Prop)
    [DecidablePred P] :
    (((accountNets b keep filter through net).filter fun r => P r.1).map Prod.snd).sum =
      b.netWhere fun p => filter.Passes p ∧ b.PostedOn (fun a => keep a ∧ P a) p := by
  have hsum := sum_by_key b.account_ids_nodup (fun a => keep a ∧ P a) Posting.accountId
    Posting.signed (b.postings.filter fun p => filter.Passes p)
  have hrows : ((accountNets b keep filter through net).filter fun r => P r.1).map Prod.snd |>.Perm
      ((b.accounts.filter fun a => keep a ∧ P a).map fun a =>
        Posting.net (postingsOn b filter a)) := by
    refine (((accountNets_perm filter through hnet).filter _).map _).trans (List.Perm.of_eq ?_)
    rw [List.filter_map, List.map_map, List.filter_filter]
    refine congrArg (List.map _) (List.filter_congr ?_)
    intro a _
    rw [Bool.decide_and, Bool.and_comm]
    rfl
  rw [hrows.sum_eq]
  simp only [postingsOn_eq]
  refine hsum.trans ?_
  rw [List.filter_filter]
  refine congrArg Posting.net (List.filter_congr ?_)
  intro p _
  rw [Bool.decide_and, Bool.and_comm]
  rfl

end

end Reports

end OpenAccounting
