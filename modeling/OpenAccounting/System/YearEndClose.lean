import OpenAccounting.Handlers.Closing
import OpenAccounting.System.JournalOps

/-!
# What the year-end close leaves

A year is closed when the closing entry balances, no income or expense account has a balance in the
year any more, and retained earnings have taken over the result of the year.

`close_year` joins the transactions of the year by an outer join and sums the postings, so it
closes every account by its balance over all years, drafts and pending journals included.  It
always debits income and credits expenses, and it adds the expenses to the net income.
`closeYear_closes_iff` says for which books the outcome is a close all the same.
-/

namespace OpenAccounting

open Calendar Relational Rounding

namespace Books

/-- The posting belongs to a reportable entry of the year. -/
def InYear (b : Books) (year : ℤ) (p : Posting) : Prop :=
  ∃ h ∈ b.header p.transactionId, h.txnDate.year = year ∧ h.kind.reportable

instance (b : Books) (year : ℤ) : DecidablePred (b.InYear year) := by
  unfold InYear
  infer_instance

/-- Debits minus credits of an account. -/
def netOn (b : Books) (account : Uuid) : ℚ := b.netWhere fun p => p.accountId = account

/-- Debits minus credits of an account in the reports of a year. -/
def yearNet (b : Books) (year : ℤ) (account : Uuid) : ℚ :=
  b.netWhere fun p => p.accountId = account ∧ b.InYear year p

def accountsOf (b : Books) (ledger : Uuid) (type : AccountType) : List Account :=
  b.accounts.filter fun a => a.ledgerId = ledger ∧ a.type = type

/-- The result of a year: income, credits minus debits, minus expenses, debits minus credits. -/
def yearResult (b : Books) (ledger : Uuid) (year : ℤ) : ℚ :=
  ((b.accountsOf ledger .income).map fun a => -b.yearNet year a.id).sum -
    ((b.accountsOf ledger .expense).map fun a => b.yearNet year a.id).sum

end Books

namespace Closing

/-- The entry `txn` closes the year. -/
structure ClosesYear (before after : Books) (ledger : Uuid) (year : ℤ) (txn : Uuid) : Prop where
  balanced : Posting.sumOn .debit (after.postingsOf txn) = Posting.sumOn .credit (after.postingsOf txn)
  emptied : ∀ a ∈ after.accounts, InResult ledger a → after.yearNet year a.id = 0
  transferred : ∃ a ∈ findRetainedEarnings after ledger,
    -Posting.net ((after.postingsOf txn).filter fun p => p.accountId = a.id) =
      before.yearResult ledger year

/-- The balance of an income account over all postings, whatever its side, is its credit in the year,
and that of an expense account its debit.  The debit balances of the income accounts are as much as
those of the expense accounts. -/
structure Closable (b : Books) (ledger : Uuid) (year : ℤ) : Prop where
  income : ∀ a ∈ b.accountsOf ledger .income, b.yearNet year a.id = -|b.netOn a.id|
  expense : ∀ a ∈ b.accountsOf ledger .expense, b.yearNet year a.id = |b.netOn a.id|
  debits : ((b.accountsOf ledger .income).map fun a => max (b.netOn a.id) 0).sum =
    ((b.accountsOf ledger .expense).map fun a => max (b.netOn a.id) 0).sum

/-! ## The lines of the entry -/

/-- The amount of a line with the sign of its side. -/
def ClosingLine.signed (l : ClosingLine) : ℚ :=
  match l.direction with
  | .debit => l.amount
  | .credit => -l.amount

/-- What a line does to the balance of its account. -/
def closed (r : Account × ℚ) : ℚ :=
  match r.1.type with
  | .income => |r.2|
  | .expense => -|r.2|
  | _ => 0

/-- What a balance adds to the net income. -/
def earned (r : Account × ℚ) : ℚ :=
  match r.1.type with
  | .income => -r.2
  | .expense => r.2
  | _ => 0

theorem netIncome_eq (balances : List (Account × ℚ)) :
    netIncome balances = (balances.map earned).sum := by
  have hloop : ∀ total : ℚ, balances.foldl (fun total r =>
      match r.1.type with
      | .income => total - r.2
      | .expense => total + r.2
      | _ => total) total = total + (balances.map earned).sum := by
    induction balances with
    | nil => exact fun total => (add_zero total).symm
    | cons r rest ih =>
      intro total
      rw [List.foldl_cons, ih, List.map_cons, List.sum_cons, ← add_assoc]
      congr 1
      rw [earned]
      cases r.1.type <;> simp [sub_eq_add_neg]
  exact (hloop 0).trans (zero_add _)

theorem sum_closingLine (P : Uuid → Prop) [DecidablePred P] (balances : List (Account × ℚ)) :
    (((balances.filterMap closingLine).filter fun l => P l.accountId).map ClosingLine.signed).sum =
      ((balances.filter fun r => P r.1.id).map closed).sum := by
  induction balances with
  | nil => rfl
  | cons r rest ih =>
    have hline : (((closingLine r).toList.filter fun l => P l.accountId).map
        ClosingLine.signed).sum = if P r.1.id then closed r else 0 := by
      rw [closingLine, closed]
      cases htype : r.1.type <;> by_cases hzero : |r.2| = 0 <;> by_cases hP : P r.1.id <;>
        simp_all [closingSide, ClosingLine.signed]
    have hcons : (r :: rest).filterMap closingLine =
        (closingLine r).toList ++ rest.filterMap closingLine := by
      rw [List.filterMap_cons]
      cases closingLine r <;> rfl
    rw [hcons, List.filter_append, List.map_append, List.sum_append, hline, ih]
    by_cases hP : P r.1.id
    · simp [hP]
    · simp [hP]

/-- The line of retained earnings brings the net income to its account. -/
theorem sum_retainedLine (P : Uuid → Prop) [DecidablePred P] (retained : Uuid) (net : ℚ) :
    (((retainedLine retained net).toList.filter fun l => P l.accountId).map
      ClosingLine.signed).sum = if P retained then -net else 0 := by
  rw [retainedLine]
  by_cases hP : P retained
  · rcases lt_trichotomy net 0 with hneg | rfl | hpos
    · simp [hP, hneg, not_lt_of_gt hneg, ClosingLine.signed, abs_of_neg hneg]
    · simp [hP]
    · simp [hP, hpos, ClosingLine.signed]
  · rcases lt_trichotomy net 0 with hneg | rfl | hpos
    · simp [hP, hneg, not_lt_of_gt hneg]
    · simp [hP]
    · simp [hP, hpos]

theorem net_of_stored (P : Uuid → Prop) [DecidablePred P] {req : Request} {k : ℕ}
    {ls : List ClosingLine} {ps : List Posting}
    (h : List.Forall₂ PostingRow.Stored (closingRows req k ls) ps)
    (hscale : ∀ l ∈ ls, HasScale 4 l.amount) :
    Posting.net (ps.filter fun p => P p.accountId) =
      ((ls.filter fun l => P l.accountId).map ClosingLine.signed).sum := by
  induction ls generalizing k ps with
  | nil =>
    cases h
    rfl
  | cons l ls ih =>
    cases h with
    | @cons _ p _ ps hp hps =>
      have hrest := ih hps fun l hl => hscale l (List.mem_cons_of_mem _ hl)
      have hamount : p.amount = l.amount :=
        hp.amount.trans (roundDp_of_hasScale (hscale l List.mem_cons_self))
      have hdirection : p.direction = l.direction := hp.direction
      have hsigned : p.signed = l.signed := by
        cases hside : l.direction with
        | debit => simp only [Posting.signed, ClosingLine.signed, hdirection, hamount, hside]
        | credit => simp only [Posting.signed, ClosingLine.signed, hdirection, hamount, hside]
      have haccount : p.accountId = l.accountId := hp.accountId
      by_cases hP : P l.accountId
      · simp [haccount, hP, hrest, hsigned]
      · simp [haccount, hP, hrest]

/-! ## The balances -/

theorem hasScale_net (ps : List Posting) : HasScale 4 (Posting.net ps) := by
  refine HasScale.list_sum fun x hx => ?_
  obtain ⟨p, -, rfl⟩ := List.mem_map.mp hx
  rw [Posting.signed]
  cases p.direction with
  | debit => exact p.amount_scale
  | credit => exact p.amount_scale.neg

section

variable {b : Books} {ledger : Uuid} {first last : NaiveDate}

theorem accountBalances_perm : (accountBalances b ledger first last).Perm
    (((b.accounts.filter fun a => InResult ledger a).map fun a => (a, b.netOn a.id)).filter
      fun r => r.2 ≠ 0) := by
  have hon : Reports.JoinsTransaction (OnYear first last) := fun _ _ h => h.1
  refine ((Reports.accountNetsOn_perm .empty hon Reports.netBySides_eq).trans
    (List.Perm.of_eq ?_)).filter _
  refine List.map_congr_left fun a _ => ?_
  have hpostings : Reports.postingsOn b .empty a = b.postings.filter fun p => p.accountId = a.id := by
    rw [Reports.postingsOn]
    refine List.filter_congr fun p _ => decide_eq_decide.mpr ?_
    exact and_iff_left (DimensionFilter.passes_empty p)
  rw [hpostings]
  rfl

theorem sum_accountBalances {f : Account × ℚ → ℚ} (hf : ∀ a, f (a, 0) = 0) (P : Uuid → Prop)
    [DecidablePred P] :
    (((accountBalances b ledger first last).filter fun r => P r.1.id).map f).sum =
      (((b.accounts.filter fun a => InResult ledger a).filter fun a => P a.id).map
        fun a => f (a, b.netOn a.id)).sum := by
  rw [((accountBalances_perm.filter _).map f).sum_eq]
  generalize b.accounts.filter (fun a => InResult ledger a) = accounts
  induction accounts with
  | nil => rfl
  | cons a rest ih =>
    rw [List.map_cons]
    by_cases hzero : b.netOn a.id = 0
    · by_cases hP : P a.id
      · simpa [-List.filter_filter, hzero, hP, hf] using ih
      · simpa [-List.filter_filter, hzero, hP] using ih
    · by_cases hP : P a.id
      · simpa [-List.filter_filter, hzero, hP] using ih
      · simpa [-List.filter_filter, hzero, hP] using ih

theorem hasScale_closingLines {retained : Uuid} :
    ∀ l ∈ closingLines (accountBalances b ledger first last) retained, HasScale 4 l.amount := by
  have hbalance : ∀ r ∈ accountBalances b ledger first last, HasScale 4 r.2 := by
    intro r hr
    obtain ⟨a, -, rfl⟩ := List.mem_map.mp (List.mem_of_mem_filter (accountBalances_perm.mem_iff.mp hr))
    exact hasScale_net _
  have hincome : HasScale 4 (netIncome (accountBalances b ledger first last)) := by
    rw [netIncome_eq]
    refine HasScale.list_sum fun x hx => ?_
    obtain ⟨r, hr, rfl⟩ := List.mem_map.mp hx
    rw [earned]
    cases r.1.type with
    | income => exact (hbalance r hr).neg
    | expense => exact hbalance r hr
    | asset | liability | equity => exact hasScale_zero 4
  intro l hl
  rcases List.mem_append.mp hl with hl | hl
  · obtain ⟨r, hr, hline⟩ := List.mem_filterMap.mp hl
    rw [closingLine] at hline
    split at hline
    · cases hline
    · obtain ⟨d, -, rfl⟩ := Option.map_eq_some_iff.mp hline
      exact (hbalance r hr).abs
  · rw [retainedLine] at hl
    split at hl
    · rw [List.mem_singleton.mp hl]
      exact hincome
    · split at hl
      · rw [List.mem_singleton.mp hl]
        exact hincome.abs
      · cases hl

theorem net_closing (P : Uuid → Prop) [DecidablePred P] {req : Request} {retained : Uuid}
    {ps : List Posting} (h : List.Forall₂ PostingRow.Stored (closingRows req 0
      (closingLines (accountBalances b ledger first last) retained)) ps) :
    Posting.net (ps.filter fun p => P p.accountId) =
      (((b.accounts.filter fun a => InResult ledger a).filter fun a => P a.id).map
        fun a => closed (a, b.netOn a.id)).sum -
      if P retained then ((b.accounts.filter fun a => InResult ledger a).map
        fun a => earned (a, b.netOn a.id)).sum else 0 := by
  have hclosed : ∀ a, closed (a, 0) = 0 := by
    intro a
    rw [closed]
    cases a.type <;> simp
  have hearned : ∀ a, earned (a, 0) = 0 := by
    intro a
    rw [earned]
    cases a.type <;> simp
  have hincome : ((accountBalances b ledger first last).map earned).sum =
      ((b.accounts.filter fun a => InResult ledger a).map fun a => earned (a, b.netOn a.id)).sum := by
    have hall := @sum_accountBalances b ledger first last earned hearned (fun _ => True) _
    simpa only [decide_true, List.filter_true] using hall
  rw [net_of_stored P h hasScale_closingLines, closingLines, List.filter_append, List.map_append,
    List.sum_append, sum_closingLine, sum_retainedLine, sum_accountBalances hclosed, netIncome_eq,
    hincome]
  by_cases hP : P retained
  · simp [hP, sub_eq_add_neg]
  · simp [hP]

end

/-! ## The close -/

section

variable {b b' : Books} {ledger : Uuid} {year : ℤ}

theorem yearNet_congr (htransactions : b'.transactions = b.transactions)
    (hpostings : b'.postings = b.postings) (account : Uuid) :
    b'.yearNet year account = b.yearNet year account := by
  have hin : ∀ p, b'.InYear year p ↔ b.InYear year p := by
    intro p
    rw [Books.InYear, Books.header, Books.findTxn, htransactions]
    exact Iff.rfl
  rw [Books.yearNet, Books.netWhere, hpostings]
  refine congrArg Posting.net (List.filter_congr fun p _ => ?_)
  exact decide_eq_decide.mpr (and_congr_right fun _ => hin p)

theorem yearNet_posts {t : Transaction} {ps : List Posting} (h : Books.Posts b b' t ps)
    (hyear : t.header.txnDate.year = year) (hkind : t.header.kind.reportable) (account : Uuid) :
    b'.yearNet year account =
      b.yearNet year account + Posting.net (ps.filter fun p => p.accountId = account) := by
  have hold : ∀ p ∈ b.postings, b'.InYear year p ↔ b.InYear year p := by
    intro p hp
    have hne : p.transactionId ≠ t.id := fun heq => h.fresh (heq ▸ b.posting_txn_fk p hp)
    rw [Books.InYear, h.header, if_neg hne, Books.InYear]
  have hnew : ∀ p ∈ ps, b'.InYear year p := by
    intro p hp
    rw [Books.InYear, h.header, if_pos (h.owned p hp)]
    exact ⟨_, rfl, hyear, hkind⟩
  rw [Books.yearNet, Books.netWhere, h.postings, List.filter_append, Posting.net_append]
  congr 2
  · exact List.filter_congr fun p hp => decide_eq_decide.mpr (and_congr_right fun _ => hold p hp)
  · exact List.filter_congr fun p hp => decide_eq_decide.mpr (and_iff_left (hnew p hp))

theorem sum_inResult (accounts : List Account) (f : Account → ℚ) :
    ((accounts.filter fun a => InResult ledger a).map f).sum =
      ((accounts.filter fun a => a.ledgerId = ledger ∧ a.type = .income).map f).sum +
        ((accounts.filter fun a => a.ledgerId = ledger ∧ a.type = .expense).map f).sum := by
  induction accounts with
  | nil => simp
  | cons a rest ih =>
    by_cases hledger : a.ledgerId = ledger
    · cases htype : a.type <;> simp [InResult, hledger, htype] at ih ⊢ <;> rw [ih] <;> ring
    · simpa [InResult, hledger] using ih

theorem sum_abs_add_sum (xs : List ℚ) :
    (xs.map fun x => |x|).sum + xs.sum = 2 * (xs.map fun x => max x 0).sum := by
  induction xs with
  | nil => simp
  | cons x xs ih =>
    have hx : |x| + x = 2 * max x 0 := by
      rcases le_total 0 x with h | h
      · rw [abs_of_nonneg h, max_eq_left h, two_mul]
      · rw [abs_of_nonpos h, max_eq_right h, neg_add_cancel, mul_zero]
    rw [List.map_cons, List.map_cons, List.sum_cons, List.sum_cons, List.sum_cons]
    linarith

/-- The lines differ from the net income by twice the debit balances, those of expenses against
income. -/
theorem sum_closed_sub_earned :
    ((b.accounts.filter fun a => InResult ledger a).map fun a => closed (a, b.netOn a.id)).sum -
        ((b.accounts.filter fun a => InResult ledger a).map fun a => earned (a, b.netOn a.id)).sum =
      2 * (((b.accountsOf ledger .income).map fun a => max (b.netOn a.id) 0).sum -
        ((b.accountsOf ledger .expense).map fun a => max (b.netOn a.id) 0).sum) := by
  have hincome := sum_abs_add_sum ((b.accountsOf ledger .income).map fun a => b.netOn a.id)
  have hexpense := sum_abs_add_sum ((b.accountsOf ledger .expense).map fun a => b.netOn a.id)
  rw [List.map_map, List.map_map] at hincome hexpense
  have htype : ∀ type (f g : Account → ℚ), (∀ a, a.type = type → f a = g a) →
      ((b.accountsOf ledger type).map f).sum = ((b.accountsOf ledger type).map g).sum := by
    intro type f g hfg
    refine congrArg List.sum (List.map_congr_left fun a ha => hfg a ?_)
    exact (of_decide_eq_true (List.mem_filter.mp ha).2).2
  have hclosed := htype .expense (fun a => closed (a, b.netOn a.id)) (fun a => -|b.netOn a.id|)
    fun a ha => by rw [closed, ha]
  have hearned := htype .income (fun a => earned (a, b.netOn a.id)) (fun a => -b.netOn a.id)
    fun a ha => by rw [earned, ha]
  have hnegate : ∀ (accounts : List Account) (f : Account → ℚ),
      (accounts.map fun a => -f a).sum = -(accounts.map f).sum := by
    intro accounts f
    rw [List.sum_neg, List.map_map]
    rfl
  rw [hnegate] at hclosed hearned
  have hincomeClosed := htype .income (fun a => closed (a, b.netOn a.id)) (fun a => |b.netOn a.id|)
    fun a ha => by rw [closed, ha]
  have hexpenseEarned := htype .expense (fun a => earned (a, b.netOn a.id)) (fun a => b.netOn a.id)
    fun a ha => by rw [earned, ha]
  rw [sum_inResult, sum_inResult]
  simp only [Books.accountsOf, Function.comp_def] at *
  linarith

theorem mem_accountsOf {a : Account} {type : AccountType} :
    a ∈ b.accountsOf ledger type ↔ a ∈ b.accounts ∧ a.ledgerId = ledger ∧ a.type = type := by
  rw [Books.accountsOf, List.mem_filter, decide_eq_true_iff]

/-- Every account of the result is emptied by its own balance. -/
def Emptied (b : Books) (ledger : Uuid) (year : ℤ) : Prop :=
  ∀ a ∈ b.accounts, InResult ledger a → b.yearNet year a.id + closed (a, b.netOn a.id) = 0

theorem emptied_iff : Emptied b ledger year ↔
    (∀ a ∈ b.accountsOf ledger .income, b.yearNet year a.id = -|b.netOn a.id|) ∧
      ∀ a ∈ b.accountsOf ledger .expense, b.yearNet year a.id = |b.netOn a.id| := by
  constructor
  · intro h
    refine ⟨fun a ha => ?_, fun a ha => ?_⟩
    · obtain ⟨ha, hledger, htype⟩ := mem_accountsOf.mp ha
      have hzero := h a ha ⟨hledger, Or.inl htype⟩
      simp only [closed, htype] at hzero
      linarith
    · obtain ⟨ha, hledger, htype⟩ := mem_accountsOf.mp ha
      have hzero := h a ha ⟨hledger, Or.inr htype⟩
      simp only [closed, htype] at hzero
      linarith
  · rintro ⟨hincome, hexpense⟩ a ha ⟨hledger, htype | htype⟩
    · rw [hincome a (mem_accountsOf.mpr ⟨ha, hledger, htype⟩)]
      simp [closed, htype]
    · rw [hexpense a (mem_accountsOf.mpr ⟨ha, hledger, htype⟩)]
      simp [closed, htype]

/-- The result of the year is what the entry takes from the accounts that it empties. -/
theorem Emptied.yearResult_eq (h : Emptied b ledger year) : b.yearResult ledger year =
    ((b.accounts.filter fun a => InResult ledger a).map fun a => closed (a, b.netOn a.id)).sum := by
  obtain ⟨hincome, hexpense⟩ := emptied_iff.mp h
  rw [Books.yearResult, sum_inResult, sub_eq_add_neg, List.sum_neg, List.map_map]
  congr 2
  · refine List.map_congr_left fun a ha => ?_
    simp only [hincome a ha, closed, (mem_accountsOf.mp ha).2.2, neg_neg]
  · refine List.map_congr_left fun a ha => ?_
    simp only [Function.comp_apply, hexpense a ha, closed, (mem_accountsOf.mp ha).2.2]

variable {db db' : Db} {req : Request} {first last : NaiveDate} {retained : Account}
  {t : Transaction} {ps : List Posting}

namespace Committed

variable (h : Committed db db' req ledger year first last retained t ps)

include h

theorem postingsOf_eq : db'.books.postingsOf (req.txnId 0) = ps := by
  obtain ⟨b₀, -, -, hposts⟩ := h.posts
  rw [← h.id]
  exact hposts.postingsOf_self

theorem retained_equity : retained ∈ db'.books.accounts ∧ retained.type = .equity := by
  refine ⟨List.mem_of_find?_eq_some h.found, ?_⟩
  have hsubtype : retained.ledgerId = ledger ∧ retained.subtype = .retainedEarnings := by
    simpa using List.find?_some h.found
  have hvalid := retained.subtype_valid
  rw [hsubtype.2] at hvalid
  revert hvalid
  cases retained.type <;> decide

/-- An account of the result was there before, and it is not the one for retained earnings. -/
theorem mem_accounts {a : Account} (ha : a ∈ db'.books.accounts) (hresult : InResult ledger a) :
    a ∈ db.books.accounts ∧ a.id ≠ retained.id := by
  have hne : a.id ≠ retained.id := by
    intro heq
    obtain rfl := Books.account_eq_of_id_eq ha h.retained_equity.1 heq
    rcases hresult.2 with htype | htype
    · exact absurd (htype.symm.trans h.retained_equity.2) (by decide)
    · exact absurd (htype.symm.trans h.retained_equity.2) (by decide)
  refine ⟨?_, hne⟩
  rcases h.accounts with hsame | hnew
  · rwa [← hsame]
  · rw [hnew] at ha
    rcases List.mem_append.mp ha with ha | ha
    · exact ha
    · rw [List.mem_singleton.mp ha] at hne
      exact absurd rfl hne

theorem mem_accounts_of_mem {a : Account} (ha : a ∈ db.books.accounts) : a ∈ db'.books.accounts := by
  rcases h.accounts with hsame | hnew
  · rwa [hsame]
  · rw [hnew]
    exact List.mem_append_left _ ha

theorem balanced_iff : Posting.sumOn .debit (db'.books.postingsOf (req.txnId 0)) =
      Posting.sumOn .credit (db'.books.postingsOf (req.txnId 0)) ↔
    ((db.books.accountsOf ledger .income).map fun a => max (db.books.netOn a.id) 0).sum =
      ((db.books.accountsOf ledger .expense).map fun a => max (db.books.netOn a.id) 0).sum := by
  have hnet := net_closing (fun _ => True) h.stored
  simp only [decide_true, List.filter_true, if_true] at hnet
  rw [h.postingsOf_eq, Posting.sumOn_eq_sumOn_iff_net, hnet, sum_closed_sub_earned, mul_eq_zero_iff_left
    two_ne_zero, sub_eq_zero]

theorem yearNet_eq {a : Account} (ha : a ∈ db'.books.accounts) (hresult : InResult ledger a) :
    db'.books.yearNet year a.id = db.books.yearNet year a.id + closed (a, db.books.netOn a.id) := by
  obtain ⟨b₀, htransactions, hpostings, hposts⟩ := h.posts
  have hyear : t.header.txnDate.year = year := by
    rw [h.header]
    exact (NaiveDate.fromYmdOpt_eq_some.mp h.last_eq).1
  have hkind : t.header.kind.reportable := by
    rw [h.header]
    rfl
  obtain ⟨hold, hne⟩ := h.mem_accounts ha hresult
  have hone : ((db.books.accounts.filter fun c => InResult ledger c).filter fun c => c.id = a.id) =
      [a] := by
    rw [filter_key_eq_toList (db.books.account_ids_nodup.sublist (List.filter_sublist.map _)),
      find?_key_eq_some (db.books.account_ids_nodup.sublist (List.filter_sublist.map _))
        (List.mem_filter.mpr ⟨hold, decide_eq_true hresult⟩)]
    rfl
  rw [yearNet_posts hposts hyear hkind, yearNet_congr htransactions hpostings,
    net_closing (fun id => id = a.id) h.stored, if_neg hne.symm, sub_zero, hone]
  simp

theorem transferred_eq : -Posting.net ((db'.books.postingsOf (req.txnId 0)).filter
      fun p => p.accountId = retained.id) =
    ((db.books.accounts.filter fun a => InResult ledger a).map
      fun a => earned (a, db.books.netOn a.id)).sum := by
  have hnone : ((db.books.accounts.filter fun c => InResult ledger c).filter
      fun c => c.id = retained.id) = [] := by
    rw [List.filter_eq_nil_iff]
    intro a ha hid
    obtain ⟨ha, hresult⟩ := List.mem_filter.mp ha
    exact (h.mem_accounts (h.mem_accounts_of_mem ha) (of_decide_eq_true hresult)).2
      (of_decide_eq_true hid)
  rw [h.postingsOf_eq, net_closing (fun id => id = retained.id) h.stored, hnone, if_pos rfl]
  simp

theorem emptied_iff : (∀ a ∈ db'.books.accounts, InResult ledger a →
    db'.books.yearNet year a.id = 0) ↔ Emptied db.books ledger year := by
  constructor
  · intro hzero a ha hresult
    rw [← h.yearNet_eq (h.mem_accounts_of_mem ha) hresult]
    exact hzero a (h.mem_accounts_of_mem ha) hresult
  · intro hzero a ha hresult
    rw [h.yearNet_eq ha hresult]
    exact hzero a (h.mem_accounts ha hresult).1 hresult

end Committed

/-- A committed close of the year closes it exactly if the books are `Closable`. -/
theorem closeYear_closes_iff {auth : Option Uuid}
    (h : (closeYear db req auth ledger year).1 = .ok ()) :
    ClosesYear db.books (closeYear db req auth ledger year).2.books ledger year (req.txnId 0) ↔
      Closable db.books ledger year := by
  obtain ⟨first, last, retained, t, ps, hclose⟩ := closeYear_spec h
  generalize (closeYear db req auth ledger year).2 = db' at hclose
  constructor
  · rintro ⟨hbalanced, hemptied, -⟩
    obtain ⟨hincome, hexpense⟩ := emptied_iff.mp (hclose.emptied_iff.mp hemptied)
    exact ⟨hincome, hexpense, hclose.balanced_iff.mp hbalanced⟩
  · rintro ⟨hincome, hexpense, hdebits⟩
    have hemptied : Emptied db.books ledger year := emptied_iff.mpr ⟨hincome, hexpense⟩
    refine ⟨hclose.balanced_iff.mpr hdebits, hclose.emptied_iff.mpr hemptied, retained, hclose.found, ?_⟩
    rw [hclose.transferred_eq, hemptied.yearResult_eq, eq_comm, ← sub_eq_zero, sum_closed_sub_earned,
      hdebits, sub_self, mul_zero]

end

/-- A ledger with a sale of 50 in 2026, and perhaps one of 100 the year before. -/
def salesOf (yearBefore : List ℚ) : Db :=
  let before := yearBefore.map fun amount => { Sample.sale amount with
    txnDate := (NaiveDate.fromYmdOpt 2025 6 1).getD default }
  Runs.exec JournalOp.run Sample.db
    ((before ++ [Sample.sale 50]).mapIdx fun i new => .create (Sample.request (i + 1)) new)

/-- The close of 2026 debits the sales of both years. -/
theorem not_closesYear :
    (salesOf [100]).books.AllBalanced ∧
      (closeYear (salesOf [100]) (Sample.request 9) (some Sample.owner) Sample.ledgerId 2026).1 =
        .ok () ∧
      ¬ ClosesYear (salesOf [100]).books
        (closeYear (salesOf [100]) (Sample.request 9) (some Sample.owner) Sample.ledgerId 2026).2.books
        Sample.ledgerId 2026 ((Sample.request 9).txnId 0) := by
  refine ⟨by decide +kernel, by decide +kernel, fun h => ?_⟩
  have hemptied := h.emptied
  revert hemptied
  decide +kernel

theorem closeYear_closes_iff_sale :
    ClosesYear (salesOf []).books
      (closeYear (salesOf []) (Sample.request 9) (some Sample.owner) Sample.ledgerId 2026).2.books
      Sample.ledgerId 2026 ((Sample.request 9).txnId 0) := by
  refine (closeYear_closes_iff (by decide +kernel)).mpr ⟨?_, ?_, ?_⟩
  · decide +kernel
  · decide +kernel
  · decide +kernel

end Closing

end OpenAccounting
