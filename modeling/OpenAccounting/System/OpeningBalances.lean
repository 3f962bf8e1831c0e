import OpenAccounting.Handlers.Accounts
import OpenAccounting.System.LocalEntries

/-!
# Opening balances hit their targets

The targets become differences to the current balances, and the difference that is left over goes
to the account "Opening Balances".  Two kinds of targets are missed.  When the differences cancel
out among themselves (a full trial balance is entered) the form takes that for no change at all
and refuses it.  And a target for "Opening Balances" itself is missed by what the other side of
the entry posts there.

`hitsTargets_iff` says that these are the only ones, next to an entry that the posting service
does not accept.
-/

namespace OpenAccounting

open Calendar Commit Relational Rounding

namespace Accounts

open Reports (inNormalSense inNormalSense_add inNormalSense_eq_zero_iff
  inNormalSense_inNormalSense inNormalSense_neg hasScale_inNormalSense netOf)
open PostingService (LocalEntry Placed NumberFree debits)

/-! ## Balances -/

section

variable {b : Books} {ledger : Uuid} {a : Account}

theorem filterMap_balanceRows (ha : a ∈ b.accounts) (hledger : a.ledgerId = ledger) :
    ((balanceRows b ledger).filter fun r => r.1 = a).filterMap Prod.snd =
      b.postings.filter fun p => p.accountId = a.id := by
  have hboth : (balanceRows b ledger).filter (fun r => r.1 = a) =
      (leftJoin (fun (a : Account) (p : Posting) => p.accountId = a.id) b.accounts
        b.postings).filter fun r => r.1 = a := by
    rw [balanceRows, List.filter_filter]
    refine List.filter_congr fun r _ => ?_
    by_cases hr : r.1 = a
    · simp [hr, hledger]
    · simp [hr]
  rw [hboth, filter_leftJoin (p := fun x : Account => x = a), Reports.filter_eq_account ha,
    leftJoin, List.flatMap_singleton, filterMap_snd_leftMatches]

/-- The balance of an account of the ledger is its net, in the account's own sense. -/
theorem computeBalances_eq (ha : a ∈ b.accounts) (hledger : a.ledgerId = ledger) :
    computeBalances b ledger a.id = some (inNormalSense a.type (netOf b a.id)) := by
  have hmem : ∀ {r}, r ∈ balanceRows b ledger → r.1 ∈ b.accounts := by
    intro r hr
    exact mem_map_fst_leftJoin.mp (List.mem_map_of_mem (List.mem_filter.mp hr).1)
  have hrow : a ∈ (balanceRows b ledger).map Prod.fst := by
    have hjoined : a ∈ (leftJoin (fun (a : Account) (p : Posting) => p.accountId = a.id) b.accounts
        b.postings).map Prod.fst := mem_map_fst_leftJoin.mpr ha
    obtain ⟨r, hr, rfl⟩ := List.mem_map.mp hjoined
    exact List.mem_map_of_mem (List.mem_filter.mpr ⟨hr, decide_eq_true hledger⟩)
  have hkeys : (((groupBy Prod.fst (balanceRows b ledger)).map fun g =>
      (g.1.id, inNormalSense g.1.type (rawBalance g.2))).map Prod.fst).Nodup := by
    rw [List.map_map]
    have haccounts := nodup_groupBy_keys Prod.fst (balanceRows b ledger)
    have hids := haccounts.map_on fun x hx y hy hid => by
      obtain ⟨g, hg, rfl⟩ := List.mem_map.mp hx
      obtain ⟨g', hg', rfl⟩ := List.mem_map.mp hy
      obtain ⟨r, hr, hfst⟩ := List.mem_map.mp (mem_groupBy.mp hg).1
      obtain ⟨r', hr', hfst'⟩ := List.mem_map.mp (mem_groupBy.mp hg').1
      exact Books.account_eq_of_id_eq (hfst ▸ hmem hr) (hfst' ▸ hmem hr') hid
    rw [List.map_map] at hids
    exact hids
  refine (insertAll_eq_some hkeys).mpr (List.mem_map.mpr
    ⟨(a, (balanceRows b ledger).filter fun r => r.1 = a), mem_groupBy.mpr ⟨hrow, rfl⟩, ?_⟩)
  rw [rawBalance, filterMap_balanceRows ha hledger, Posting.sumOn_sub_sumOn]
  rfl

end

/-! ## The legs -/

def OpeningBalancesForm.target (form : OpeningBalancesForm) (a : Account) : Option ℚ :=
  (form.amount a.id).join

/-- What an account is to gain, debits positive. -/
def signedDelta (form : OpeningBalancesForm) (r : Account × ℚ) : ℚ :=
  match form.target r.1 with
  | none => 0
  | some x => inNormalSense r.1.type (x - r.2)

/-- The leg of an account, if it has one. -/
def lineOf (form : OpeningBalancesForm) (r : Account × ℚ) : Option TxnLineInput :=
  match form.target r.1 with
  | none => none
  | some x => if x - r.2 = 0 then none else some (openingLine r.1 (x - r.2))

/-- The legs of the form in a ledger. -/
def givenLines (b : Books) (ledger : Uuid) (form : OpeningBalancesForm) : List TxnLineInput :=
  (balanceSheetAccounts b ledger).filterMap (lineOf form)

section

variable {form : OpeningBalancesForm}

theorem openingLines_eq {rows : List (Account × ℚ)}
    (h : ∀ r ∈ rows, form.amount r.1.id ≠ some none) :
    openingLines form rows = .ok (rows.filterMap (lineOf form)) := by
  induction rows with
  | nil => rfl
  | cons r rows ih =>
    obtain ⟨hr, hrows⟩ := List.forall_mem_cons.mp h
    obtain ⟨a, current⟩ := r
    rw [openingLines, List.filterMap_cons]
    cases hamount : form.amount a.id with
    | none => simp [lineOf, OpeningBalancesForm.target, hamount, ih hrows]
    | some raw =>
      cases raw with
      | none => exact absurd hamount hr
      | some x =>
        have hok : okOr (some x) (AppError.validation ("Invalid amount for " ++ a.name)) =
            .ok x := rfl
        by_cases hzero : x - current = 0
        · simp [lineOf, OpeningBalancesForm.target, hamount, ih hrows, hzero, hok, bind,
            Except.bind]
        · simp [lineOf, OpeningBalancesForm.target, hamount, ih hrows, hzero, hok, bind,
            Except.bind]

theorem signedAmount_openingLine {ledger : Uuid} {a : Account} (ha : OnOpeningForm ledger a)
    (delta : ℚ) : (openingLine a delta).signedAmount = inNormalSense a.type delta := by
  rcases ha.2 with htype | htype | htype
  · simp [openingLine, inNormalSense, htype]
  · simp [openingLine, inNormalSense, htype]
  · simp [openingLine, inNormalSense, htype]

theorem sum_lines {ledger : Uuid} (P : Uuid → Prop) [DecidablePred P] {rows : List (Account × ℚ)}
    (h : ∀ r ∈ rows, OnOpeningForm ledger r.1) :
    (((rows.filterMap (lineOf form)).filter fun l => P l.accountId).map
        TxnLineInput.signedAmount).sum =
      (rows.map fun r => if P r.1.id then signedDelta form r else 0).sum := by
  induction rows with
  | nil => rfl
  | cons r rows ih =>
    obtain ⟨hr, hrows⟩ := List.forall_mem_cons.mp h
    rw [List.filterMap_cons, List.map_cons, List.sum_cons, ← ih hrows]
    cases htarget : form.target r.1 with
    | none => simp [lineOf, signedDelta, htarget]
    | some x =>
      by_cases hzero : x - r.2 = 0
      · simp [lineOf, signedDelta, htarget, hzero]
      · have hsigned := signedAmount_openingLine hr (x - r.2)
        by_cases hP : P r.1.id
        · have hP' : P (openingLine r.1 (x - r.2)).accountId := hP
          simp [lineOf, signedDelta, htarget, hzero, hP, hP', hsigned]
        · have hP' : ¬ P (openingLine r.1 (x - r.2)).accountId := hP
          simp [lineOf, htarget, hzero, hP, hP']

end

section

variable {b : Books} {ledger : Uuid} {form : OpeningBalancesForm}

theorem balanceSheetAccounts_perm (b : Books) (ledger : Uuid) :
    (balanceSheetAccounts b ledger).Perm
      ((b.accounts.filter fun a => OnOpeningForm ledger a).map fun a =>
        (a, inNormalSense a.type (netOf b a.id))) := by
  refine ((orderBy_perm _ _).map _).trans (List.Perm.of_eq (List.map_congr_left ?_))
  intro a ha
  obtain ⟨ha, hon⟩ := List.mem_filter.mp ha
  rw [computeBalances_eq ha (of_decide_eq_true hon).1, Option.getD_some]

theorem mem_balanceSheetAccounts {r : Account × ℚ} :
    r ∈ balanceSheetAccounts b ledger ↔ r.1 ∈ b.accounts ∧ OnOpeningForm ledger r.1 ∧
      r.2 = inNormalSense r.1.type (netOf b r.1.id) := by
  rw [(balanceSheetAccounts_perm b ledger).mem_iff, List.mem_map]
  constructor
  · rintro ⟨a, ha, rfl⟩
    obtain ⟨ha, hon⟩ := List.mem_filter.mp ha
    exact ⟨ha, of_decide_eq_true hon, rfl⟩
  · rintro ⟨ha, hon, hbalance⟩
    exact ⟨r.1, List.mem_filter.mpr ⟨ha, decide_eq_true hon⟩, Prod.ext rfl hbalance.symm⟩

theorem sum_givenLines {a : Account} (ha : a ∈ b.accounts) (hon : OnOpeningForm ledger a) :
    (((givenLines b ledger form).filter fun l => l.accountId = a.id).map
        TxnLineInput.signedAmount).sum =
      signedDelta form (a, inNormalSense a.type (netOf b a.id)) := by
  have hone := sum_map_ite_key b.account_ids_nodup a.id (OnOpeningForm ledger)
    (signedDelta form (a, inNormalSense a.type (netOf b a.id)))
  rw [if_pos ⟨a, ha, rfl, hon⟩] at hone
  have hsum := @sum_lines form ledger (fun id => id = a.id) _ (balanceSheetAccounts b ledger)
    fun r hr => (mem_balanceSheetAccounts.mp hr).2.1
  rw [givenLines, hsum, ((balanceSheetAccounts_perm b ledger).map _).sum_eq, List.map_map,
    sum_map_filter (OnOpeningForm ledger), ← hone]
  refine congrArg List.sum (List.map_congr_left ?_)
  intro a' ha'
  by_cases hid : a'.id = a.id
  · rw [Books.account_eq_of_id_eq ha' ha hid]
    simp
  · simp [hid]

/-- A leg is that of an account of the form whose target differs from its balance. -/
theorem mem_givenLines {l : TxnLineInput} : l ∈ givenLines b ledger form ↔
    ∃ a ∈ b.accounts, OnOpeningForm ledger a ∧ ∃ x ∈ form.target a,
      x - inNormalSense a.type (netOf b a.id) ≠ 0 ∧
      l = openingLine a (x - inNormalSense a.type (netOf b a.id)) := by
  rw [givenLines, List.mem_filterMap]
  constructor
  · rintro ⟨r, hr, hl⟩
    obtain ⟨ha, hon, hbalance⟩ := mem_balanceSheetAccounts.mp hr
    rw [lineOf, hbalance] at hl
    cases htarget : form.target r.1 with
    | none =>
      rw [htarget] at hl
      cases hl
    | some x =>
      rw [htarget] at hl
      dsimp only at hl
      split at hl
      · cases hl
      · next hne =>
          cases hl
          exact ⟨r.1, ha, hon, x, htarget, hne, rfl⟩
  · rintro ⟨a, ha, hon, x, htarget, hne, rfl⟩
    refine ⟨(a, inNormalSense a.type (netOf b a.id)),
      mem_balanceSheetAccounts.mpr ⟨ha, hon, rfl⟩, ?_⟩
    rw [lineOf, htarget]
    exact if_neg hne

theorem length_givenLines_le (b : Books) (ledger : Uuid) (form : OpeningBalancesForm) :
    (givenLines b ledger form).length ≤ b.accounts.length := by
  refine (List.length_filterMap_le _ _).trans ?_
  rw [(balanceSheetAccounts_perm b ledger).length_eq, List.length_map]
  exact List.length_filter_le _ _

theorem hasScale_netOf (b : Books) (account : Uuid) : HasScale 4 (netOf b account) := by
  refine HasScale.list_sum fun x hx => ?_
  obtain ⟨p, -, rfl⟩ := List.mem_map.mp hx
  rw [Posting.signed]
  cases p.direction with
  | debit => exact p.amount_scale
  | credit => exact p.amount_scale.neg

end

/-! ## The claim -/

/-- A writer submits targets of four decimals, dated in an open period, one of them different from
the balance; the ledger has no opening balances yet, and the ids drawn for the rows are new. -/
structure Submitted (db : Db) (req : Request) (user ledger : Uuid) (form : OpeningBalancesForm)
    (l : Ledger) (date : NaiveDate) : Prop where
  writer : db.ensureWriter user ledger = .ok l
  author : ∃ u ∈ db.users, u.id = user
  unrecorded : ¬ OpeningBalancesExist db.books ledger
  dated : form.date = some date
  period : ¬ db.Closed ledger date
  targets : ∀ a ∈ db.books.accounts, OnOpeningForm ledger a → ∀ raw ∈ form.amount a.id,
    ∃ x, raw = some x ∧ HasScale 4 x
  differs : ∃ a ∈ db.books.accounts, OnOpeningForm ledger a ∧ ∃ x ∈ form.target a,
    computeBalances db.books ledger a.id ≠ some x
  account_fresh : req.rowId 0 ∉ db.books.accountIds
  txn_fresh : req.txnId 0 ∉ db.books.txnIds
  postings_fresh : ∀ k ≤ db.books.accounts.length, ∀ p ∈ db.books.postings,
    p.id ≠ req.postingId 0 k
  postings_differ : ∀ k ≤ db.books.accounts.length, ∀ i ≤ db.books.accounts.length,
    req.postingId 0 k = req.postingId 0 i → k = i

/-- The request succeeds, and every account with a target has it as its balance. -/
def HitsTargets (db : Db) (ledger : Uuid) (form : OpeningBalancesForm)
    (r : Except AppError OpeningResponse × Db) : Prop :=
  r.1 = .ok .redirect ∧ ∀ a ∈ db.books.accounts, OnOpeningForm ledger a → ∀ x ∈ form.target a,
    computeBalances r.2.books ledger a.id = some x

/-- The differences do not cancel out, "Opening Balances" has no target itself, and the posting
service accepts the entry. -/
structure Hittable (db : Db) (ledger : Uuid) (form : OpeningBalancesForm) (l : Ledger)
    (date : NaiveDate) : Prop where
  net : openingNet (givenLines db.books ledger form) ≠ 0
  contra : ∀ a ∈ findOpeningAccount db.books ledger, OnOpeningForm ledger a →
    form.target a = none
  number : NumberFree db.books ledger date
  amounts : ∀ line ∈ givenLines db.books ledger form, |line.signedAmount| < 10 ^ 16
  contraAmount : |openingNet (givenLines db.books ledger form)| < 10 ^ 16
  approval : 0 ≤ l.approvalThreshold →
    let total := debits (givenLines db.books ledger form ++
      [contraLine 0 (openingNet (givenLines db.books ledger form))])
    l.approvalThreshold ≤ total → total < 10 ^ 16

section

variable {db : Db} {req : Request} {user ledger : Uuid} {form : OpeningBalancesForm} {l : Ledger}
  {date : NaiveDate}

/-- The contra account is there after the first statement, and nothing else has changed. -/
structure Prepared (db db₁ : Db) (ledger contra : Uuid) : Prop where
  frame : ∃ b₁ : Books, db₁ = { db with books := b₁ }
  transactions : db₁.books.transactions = db.books.transactions
  postings : db₁.books.postings = db.books.postings
  accounts : ∀ a ∈ db.books.accounts, a ∈ db₁.books.accounts
  account : ∃ c ∈ db₁.books.accounts, c.id = contra ∧ c.ledgerId = ledger
  found : ∀ a ∈ db.books.accounts, a.id = contra ↔ a ∈ findOpeningAccount db.books ledger

theorem Submitted.id_eq (h : Submitted db req user ledger form l date) : l.id = ledger := by
  simpa using List.find?_some (Db.ensureWriter_related h.writer).1

theorem Submitted.openingAccount (h : Submitted db req user ledger form l date) :
    ∃ contra db₁, openingAccount db req l = .ok (contra, db₁) ∧ Prepared db db₁ ledger contra := by
  have hid := h.id_eq
  rw [Accounts.openingAccount, hid]
  cases hfound : findOpeningAccount db.books ledger with
  | some c =>
    have hmem := List.mem_of_find?_eq_some hfound
    have hc : c.ledgerId = ledger ∧ c.name = "Opening Balances" := by
      simpa using List.find?_some hfound
    refine ⟨c.id, db, rfl, ⟨db.books, rfl⟩, rfl, rfl, fun a ha => ha, ⟨c, hmem, rfl, hc.1⟩, ?_⟩
    intro a ha
    rw [hfound]
    constructor
    · intro heq
      exact congrArg some (Books.account_eq_of_id_eq ha hmem heq).symm
    · intro heq
      cases heq
      rfl
  | none =>
    have hhas : db.HasLedger l.id :=
      ⟨l, List.mem_of_find?_eq_some (Db.ensureWriter_related h.writer).1, rfl⟩
    have hnew : ∀ c ∈ db.books.accounts,
        ¬ (c.ledgerId = l.id ∧ c.name = "Opening Balances") := by
      intro c hc hsame
      rw [hid] at hsame
      exact absurd (decide_eq_true hsame) (List.find?_eq_none.mp hfound c hc)
    have hinsert : db.insertAccount (newOpeningAccount req l) =
        .ok { db with books := db.books.addAccount (newOpeningAccount req l) h.account_fresh } := by
      have hfresh : (newOpeningAccount req l).id ∉ db.books.accountIds := h.account_fresh
      simp only [Db.insertAccount, bind_eq_ok, ensure_eq_ok]
      refine ⟨(), hhas, (), hnew, ?_⟩
      rw [dif_neg hfresh]
    have hlast : newOpeningAccount req l ∈
        (db.books.addAccount (newOpeningAccount req l) h.account_fresh).accounts :=
      List.mem_append_right _ (List.mem_singleton_self _)
    have hledger : (newOpeningAccount req l).ledgerId = ledger := hid
    refine ⟨req.rowId 0,
      { db with books := db.books.addAccount (newOpeningAccount req l) h.account_fresh }, ?_,
      ⟨_, rfl⟩, rfl, rfl, fun a ha => List.mem_append_left _ ha, ⟨_, hlast, rfl, hledger⟩, ?_⟩
    · rw [hinsert]
      rfl
    · intro a ha
      rw [hfound]
      constructor
      · intro heq
        exact absurd (heq ▸ Books.mem_accountIds ha) h.account_fresh
      · intro hsome
        cases hsome

theorem Submitted.scale (h : Submitted db req user ledger form l date) :
    ∀ line ∈ givenLines db.books ledger form, HasScale 4 line.signedAmount := by
  intro line hline
  obtain ⟨a, ha, hon, x, htarget, -, rfl⟩ := mem_givenLines.mp hline
  rw [signedAmount_openingLine hon]
  obtain ⟨y, hy, hscale⟩ := h.targets a ha hon (some x) (Option.join_eq_some_iff.mp htarget)
  cases hy
  exact hasScale_inNormalSense (sub_eq_add_neg x _ ▸ hscale.add
    (hasScale_inNormalSense (hasScale_netOf db.books a.id)).neg)

theorem Submitted.lines_ne_nil (h : Submitted db req user ledger form l date) :
    givenLines db.books ledger form ≠ [] := by
  obtain ⟨a, ha, hon, x, htarget, hne⟩ := h.differs
  refine List.ne_nil_of_mem (mem_givenLines.mpr ⟨a, ha, hon, x, htarget, ?_, rfl⟩)
  intro hzero
  rw [computeBalances_eq ha hon.1, sub_eq_zero.mp hzero] at hne
  exact hne rfl

theorem Submitted.localEntry (h : Submitted db req user ledger form l date)
    (hnet : openingNet (givenLines db.books ledger form) ≠ 0) (contra : Uuid) :
    LocalEntry (openingTransaction ledger user contra date
      (givenLines db.books ledger form)) where
  standard := rfl
  unnumbered := rfl
  original := rfl
  untaxed := rfl
  lines := by
    have hpos := List.length_pos_of_ne_nil h.lines_ne_nil
    show 2 ≤ (givenLines db.books ledger form ++ [_]).length
    rw [List.length_append, List.length_singleton]
    omega
  plain := by
    intro line hline
    rcases List.mem_append.mp hline with hline | hline
    · obtain ⟨a, -, -, x, -, -, rfl⟩ := mem_givenLines.mp hline
      exact ⟨rfl, rfl, rfl⟩
    · rw [List.mem_singleton.mp hline]
      exact ⟨rfl, rfl, rfl⟩
  scale := by
    intro line hline
    rcases List.mem_append.mp hline with hline | hline
    · exact h.scale line hline
    · rw [List.mem_singleton.mp hline]
      refine HasScale.neg (HasScale.list_sum fun x hx => ?_)
      obtain ⟨line, hline, rfl⟩ := List.mem_map.mp hx
      exact h.scale line hline
  nonzero := by
    intro line hline
    rcases List.mem_append.mp hline with hline | hline
    · obtain ⟨a, -, hon, x, -, hne, rfl⟩ := mem_givenLines.mp hline
      rw [signedAmount_openingLine hon]
      exact fun hzero => hne (inNormalSense_eq_zero_iff.mp hzero)
    · rw [List.mem_singleton.mp hline]
      exact neg_ne_zero.mpr hnet
  balanced := by
    show ((givenLines db.books ledger form ++ [_]).map TxnLineInput.signedAmount).sum = 0
    rw [List.map_append, List.sum_append, List.map_singleton, List.sum_singleton]
    exact add_neg_cancel _

theorem Submitted.placed (h : Submitted db req user ledger form l date) {db₁ : Db}
    {contra : Uuid} (hprepared : Prepared db db₁ ledger contra) :
    Placed db₁ req (openingTransaction ledger user contra date
      (givenLines db.books ledger form)) l := by
  obtain ⟨⟨b₁, rfl⟩, htransactions, hpostings, haccounts, hcontra, -⟩ := hprepared
  have hlength : ∀ k < (openingTransaction ledger user contra date
      (givenLines db.books ledger form)).lines.length, k ≤ db.books.accounts.length := by
    intro k hk
    have hle := length_givenLines_le db.books ledger form
    have hk' : k < (givenLines db.books ledger form ++ [_]).length := hk
    rw [List.length_append, List.length_singleton] at hk'
    omega
  refine ⟨(Db.ensureWriter_related h.writer).1, h.author, h.period, ?_, ?_, ?_, ?_⟩
  · intro line hline
    rcases List.mem_append.mp hline with hline | hline
    · obtain ⟨a, ha, hon, x, -, -, rfl⟩ := mem_givenLines.mp hline
      exact ⟨a, haccounts a ha, rfl, hon.1⟩
    · rw [List.mem_singleton.mp hline]
      exact hcontra
  · show req.txnId 0 ∉ b₁.transactions.map Transaction.id
    rw [htransactions]
    exact h.txn_fresh
  · intro k hk p hp
    rw [hpostings] at hp
    exact h.postings_fresh k (hlength k hk) p hp
  · exact fun k hk i hi => h.postings_differ k (hlength k hk) i (hlength i hi)

/-- Lines that cancel out are refused, and others are posted. -/
theorem Submitted.create_eq (h : Submitted db req user ledger form l date) :
    (openingNet (givenLines db.books ledger form) = 0 →
      (openingBalancesCreate db req (some user) ledger form).1 ≠ .ok .redirect) ∧
    (openingNet (givenLines db.books ledger form) ≠ 0 →
      openingBalancesCreate db req (some user) ledger form =
        postOpening db req user l date (givenLines db.books ledger form)) := by
  have hlines : openingLines form (balanceSheetAccounts db.books ledger) =
      .ok (givenLines db.books ledger form) := by
    refine openingLines_eq fun r hr hnone => ?_
    obtain ⟨ha, hon, -⟩ := mem_balanceSheetAccounts.mp hr
    obtain ⟨x, hx, -⟩ := h.targets r.1 ha hon none hnone
    cases hx
  have hguard : (do
      let user ← okOr (some user) AppError.unauthorized
      let l ← db.ensureWriter user ledger
      Except.ok (user, l) : Except AppError (Uuid × Ledger)) = .ok (user, l) := by
    show (do
      let l ← db.ensureWriter user ledger
      Except.ok (user, l) : Except AppError (Uuid × Ledger)) = .ok (user, l)
    rw [h.writer]
    rfl
  constructor
  · intro hzero hredirect
    rw [openingBalancesCreate, hguard] at hredirect
    dsimp only at hredirect
    rw [if_neg h.unrecorded, h.dated] at hredirect
    dsimp only at hredirect
    rw [hlines] at hredirect
    dsimp only at hredirect
    rw [if_pos (Or.inr hzero)] at hredirect
    cases hredirect
  · intro hne
    rw [openingBalancesCreate, hguard]
    dsimp only
    rw [if_neg h.unrecorded, h.dated]
    dsimp only
    rw [hlines]
    dsimp only
    rw [if_neg (not_or.mpr ⟨h.lines_ne_nil, hne⟩)]

/-- After the entry an account has its target, and the contra account that less the net. -/
theorem Submitted.balance_eq (h : Submitted db req user ledger form l date)
    (hnet : openingNet (givenLines db.books ledger form) ≠ 0) {db₁ db₂ : Db} {contra : Uuid}
    (hprepared : Prepared db db₁ ledger contra) {created : CreatedTransaction}
    (hcreate : PostingService.create db₁ req (openingTransaction ledger user contra date
      (givenLines db.books ledger form)) = (.ok created, db₂))
    {a : Account} (ha : a ∈ db.books.accounts) (hon : OnOpeningForm ledger a) {x : ℚ}
    (htarget : form.target a = some x) :
    computeBalances db₂.books ledger a.id = some (if contra = a.id then
      x - inNormalSense a.type (openingNet (givenLines db.books ledger form)) else x) := by
  obtain ⟨haccounts, hgain⟩ :=
    PostingService.netOf_of_create (h.localEntry hnet contra) hcreate
  have ha₂ : a ∈ db₂.books.accounts := haccounts ▸ hprepared.accounts a ha
  have hnet₁ : netOf db₁.books a.id = netOf db.books a.id := by
    rw [netOf, netOf, Books.netWhere, Books.netWhere, hprepared.postings]
  have hsum : (((openingTransaction ledger user contra date
      (givenLines db.books ledger form)).lines.filter fun l => l.accountId = a.id).map
        TxnLineInput.signedAmount).sum =
      inNormalSense a.type (x - inNormalSense a.type (netOf db.books a.id)) +
        if contra = a.id then -openingNet (givenLines db.books ledger form) else 0 := by
    have hgiven := @sum_givenLines db.books ledger form a ha hon
    rw [signedDelta, htarget] at hgiven
    show (((givenLines db.books ledger form ++ ([_] : List TxnLineInput)).filter
      fun l => l.accountId = a.id).map TxnLineInput.signedAmount).sum = _
    rw [List.filter_append, List.map_append, List.sum_append, hgiven]
    by_cases heq : contra = a.id
    · simp [contraLine, heq]
    · simp [contraLine, heq]
  rw [computeBalances_eq ha₂ hon.1, hgain, hnet₁, hsum]
  congr 1
  simp only [inNormalSense_add, inNormalSense_inNormalSense]
  split
  · rw [inNormalSense_neg]
    ring
  · rw [Reports.inNormalSense_zero]
    ring

/-- The entry is posted exactly if its number is free and its amounts fit the columns. -/
theorem Submitted.posted_iff (h : Submitted db req user ledger form l date)
    (hnet : openingNet (givenLines db.books ledger form) ≠ 0) {db₁ : Db} {contra : Uuid}
    (hprepared : Prepared db db₁ ledger contra) :
    (PostingService.create db₁ req (openingTransaction ledger user contra date
        (givenLines db.books ledger form))).1.isOk = true ↔
      NumberFree db.books ledger date ∧
      ((∀ line ∈ givenLines db.books ledger form, |line.signedAmount| < 10 ^ 16) ∧
        |openingNet (givenLines db.books ledger form)| < 10 ^ 16) ∧
      (0 ≤ l.approvalThreshold →
        let total := debits (givenLines db.books ledger form ++
          [contraLine 0 (openingNet (givenLines db.books ledger form))])
        l.approvalThreshold ≤ total → total < 10 ^ 16) := by
  refine (PostingService.create_isOk_iff_local (h.localEntry hnet contra)
    (h.placed hprepared)).trans (and_congr ?_ (and_congr ?_ ?_))
  · show NumberFree db₁.books ledger date ↔ _
    simp only [NumberFree, PostingService.drawnNumber, hprepared.transactions]
  · simp only [openingTransaction, List.forall_mem_append, List.forall_mem_singleton, contraLine,
      abs_neg]
  · -- The total of the debits does not depend on the account of the contra leg.
    simp only [debits, openingTransaction, List.map_append]
    rfl

/-- The targets are hit exactly when the differences do not cancel out, "Opening Balances" has no
target itself, and the posting service accepts the entry. -/
theorem hitsTargets_iff (h : Submitted db req user ledger form l date) :
    HitsTargets db ledger form (openingBalancesCreate db req (some user) ledger form) ↔
      Hittable db ledger form l date := by
  obtain ⟨hrefused, hposted⟩ := h.create_eq
  by_cases hnet : openingNet (givenLines db.books ledger form) = 0
  · exact ⟨fun hhits => absurd hhits.1 (hrefused hnet), fun hable => absurd hnet hable.net⟩
  obtain ⟨contra, db₁, hcontra, hprepared⟩ := h.openingAccount
  have haccepted := h.posted_iff hnet hprepared
  rw [hposted hnet, postOpening, hcontra, h.id_eq]
  dsimp only
  cases hcreate : PostingService.create db₁ req (openingTransaction ledger user contra date
      (givenLines db.books ledger form)) with
  | mk answer db₂ =>
    rw [hcreate] at haccepted
    cases answer with
    | error e =>
      constructor
      · exact fun hhits => nomatch hhits.1
      · intro hable
        cases haccepted.mpr ⟨hable.number, ⟨hable.amounts, hable.contraAmount⟩, hable.approval⟩
    | ok created =>
      have hbalance := fun {a : Account} => h.balance_eq hnet hprepared hcreate (a := a)
      obtain ⟨hfree, ⟨hfits, hcontraFits⟩, happroval⟩ := haccepted.mp rfl
      constructor
      · intro hhits
        refine ⟨hnet, ?_, hfree, hfits, hcontraFits, happroval⟩
        intro a hfound hon
        have ha := List.mem_of_find?_eq_some hfound
        cases htarget : form.target a with
        | none => rfl
        | some x =>
          -- The other side of the entry moves the account away from its target.
          have hmoved := (hbalance ha hon htarget).symm.trans (hhits.2 a ha hon x htarget)
          rw [if_pos ((hprepared.found a ha).mpr hfound).symm] at hmoved
          have hzero := sub_eq_self.mp (Option.some.inj hmoved)
          exact absurd (inNormalSense_eq_zero_iff.mp hzero) hnet
      · intro hable
        refine ⟨rfl, fun a ha hon x htarget => ?_⟩
        refine (hbalance ha hon htarget).trans (congrArg some (if_neg fun heq => ?_))
        have hnone := hable.contra a ((hprepared.found a ha).mp heq.symm) hon
        cases htarget.symm.trans hnone

end

end Accounts

/-! ## A ledger that starts with its owner's capital -/

namespace Sample

def capital : Uuid := 13

/-- The ledger with cash, capital and the contra account. -/
def openingDb : Db :=
  { db with
    books := .ofChart
      [{ id := cash, ledgerId := ledgerId, name := "Cash on Hand", type := .asset,
         subtype := .currentAsset, subtype_valid := AccountType.currentAsset_valid },
       { id := capital, ledgerId := ledgerId, name := "Capital", type := .equity,
         subtype := .equity, subtype_valid := AccountType.equity_valid },
       { id := 14, ledgerId := ledgerId, name := "Opening Balances", type := .equity,
         subtype := .equity, subtype_valid := AccountType.equity_valid }] (by decide) }

/-- Targets of 100 for cash and, if `full`, for capital. -/
def openingForm (full : Bool) : Accounts.OpeningBalancesForm where
  date := some (march 1)
  amount id :=
    if id = cash then some (some 100) else if id = capital ∧ full then some (some 100) else none

theorem openingForm_submitted (full : Bool) :
    Accounts.Submitted openingDb (request 1) owner ledgerId (openingForm full)
      { id := ledgerId, ownerId := owner } (march 1) where
  writer := rfl
  author := ⟨{ id := owner }, List.mem_cons_self, rfl⟩
  unrecorded := by
    rintro ⟨t, ht, -⟩
    cases ht
  dated := rfl
  period := by decide
  targets := by
    intro a _ _ raw hraw
    have hscale : Rounding.HasScale 4 (100 : ℚ) := by decide +kernel
    rw [openingForm] at hraw
    dsimp only at hraw
    split at hraw
    · cases hraw
      exact ⟨100, rfl, hscale⟩
    · split at hraw
      · cases hraw
        exact ⟨100, rfl, hscale⟩
      · cases hraw
  differs := ⟨_, List.mem_cons_self, by decide, 100, rfl, by decide +kernel⟩
  account_fresh := by decide
  txn_fresh := by
    intro h
    cases h
  postings_fresh := by
    intro k _ p hp
    cases hp
  postings_differ := by
    show ∀ k ≤ 3, ∀ i ≤ 3, (request 1).postingId 0 k = (request 1).postingId 0 i → k = i
    decide

end Sample

namespace Accounts

open Sample (openingDb openingForm ledgerId owner march)

/-- A target for cash alone. -/
theorem hitsTargets_iff_cash :
    HitsTargets openingDb ledgerId (openingForm false) (openingBalancesCreate openingDb
        (Sample.request 1) (some owner) ledgerId (openingForm false)) ↔
      Hittable openingDb ledgerId (openingForm false) { id := ledgerId, ownerId := owner }
        (march 1) :=
  hitsTargets_iff (Sample.openingForm_submitted false)

/-- Cash of 100 and capital of 100 are no change to the form. -/
theorem not_hitsTargets : ¬ ∀ (db : Db) (req : Request) (user ledger : Uuid)
    (form : OpeningBalancesForm) (l : Ledger) (date : NaiveDate),
    Submitted db req user ledger form l date →
      HitsTargets db ledger form (openingBalancesCreate db req (some user) ledger form) := by
  intro h
  have hhits := (h _ _ _ _ _ _ _ (Sample.openingForm_submitted true)).1
  revert hhits
  decide +kernel

end Accounts

end OpenAccounting
