import OpenAccounting.Handlers.RulesApply
import OpenAccounting.Lib.Passes
import OpenAccounting.System.JournalOps

/-!
# Rules applied to transactions, and what the dry run says

Of the rules that hold of a transaction, with its amount in cents and its currency, the one of the
lowest priority should decide, and each change of the dry run should move one posting.

The rule that decides is the first one in the order of the rows, and it is compared with a line
without a currency, whose amount is the sum of the debits less the credits.  An update moves every
posting on the account of the largest income or expense leg, and one is run for every time the
transaction is selected.  `follows_iff` says for which selections this comes to the same.
-/

namespace OpenAccounting.RulesApply

open Commit ReconciliationRules Passes

section

variable {Number : Type} (env : Environment Number)

/-! ## What should happen -/

def Holds (line : Line) (r : StoredRule Number) : Prop :=
  evaluatePredicate env.toLibraries r.predicate line = true

instance (line : Line) (r : StoredRule Number) : Decidable (Holds env line r) := by
  unfold Holds
  infer_instance

/-- The line of a transaction with its amount in cents and its currency.  The amount is rounded as
`suggest_rule` rounds that of a statement line. -/
def fullLine (b : Books) (t : Transaction) : Line where
  description := t.description ++ " " ++ t.payee.getD ""
  amountCents := Rounding.roundHalfEven (Posting.sumOn .debit (b.postingsOf t.id) * 100)
  currency := t.currency

/-- The rule has the lowest priority of those that hold. -/
structure Lowest (rules : List (StoredRule Number)) (line : Line) (r : StoredRule Number) :
    Prop where
  mem : r ∈ rules
  holds : Holds env line r
  least : ∀ q ∈ rules, Holds env line q → r.priority ≤ q.priority

/-- The rule that is reported is the lowest one, and none is reported only if none holds. -/
def ReportsLowest (rules : List (StoredRule Number)) (line : Line) :
    Option (Rule Number × AppliedAction) → Prop
  | some (rule, _) => ∃ r, Lowest env rules line r ∧ r.rebuild = rule
  | none => ∀ r ∈ rules, ¬ Holds env line r

def accountColumn : Column Posting Uuid where
  get := Posting.accountId
  put account p := { p with accountId := account }
  get_put _ _ := rfl
  put_put _ _ _ := rfl
  put_get _ := rfl

/-- Exactly one posting of the transaction changes its account, as it is listed. -/
def Moves (before after : Books) (c : Change) : Prop :=
  ∃ old, c.oldAccount = some old ∧
    MovesOne accountColumn (before.postingsOf c.transactionId) (after.postingsOf c.transactionId)
      old c.newAccount

variable (rules : RuleTable Number) (db : Db) (auth : Option Uuid) (ledger : Uuid)
  (form : ApplyRulesForm)

/-- The lowest rule is reported for every selected transaction, and the mode `apply` does what the
dry run lists. -/
structure Follows : Prop where
  rule : ∀ ids, checkSelection env db auth ledger form = .ok ids → ∀ txn ∈ ids,
    ∀ t, db.books.findTxnIn txn ledger = some t →
      ReportsLowest env (categorizeRules rules ledger) (fullLine db.books t)
        (ruleFor env rules db.books ledger t)
  moves : ∀ changes,
    (applyRules env rules db auth ledger { form with mode := "" }).1 = .ok (.dryRun changes) →
      ∀ c ∈ changes, Moves db.books
        (applyRules env rules db auth ledger { form with mode := "apply" }).2.books c

/-! ## When it does -/

/-- The first rule, in the order of the rows, that holds of the bare line. -/
def firstRule (b : Books) (t : Transaction) : Option (StoredRule Number) :=
  (categorizeRules rules ledger).find? fun r => Holds env (lineOf env b t) r

/-- That rule holds of the full line, and none of a lower priority does. -/
def FirstIsLowest (t : Transaction) : Prop :=
  match firstRule env rules ledger db.books t with
  | some r => Holds env (fullLine db.books t) r ∧
      ∀ q ∈ categorizeRules rules ledger, q.priority < r.priority →
        ¬ Holds env (fullLine db.books t) q
  | none => ∀ q ∈ categorizeRules rules ledger, ¬ Holds env (fullLine db.books t) q

/-- One posting is on the account of the largest income or expense leg, and can be moved to `new`.
If the transaction is selected more than once, nothing is left for the next update. -/
structure SingleLeg (ids : List Uuid) (txn new old : Uuid) : Prop where
  found : contraAccount env db.books txn = some old
  single : ((db.books.postingsOf txn).filter fun p => accountColumn.get p = old).length = 1
  once : ids.count txn = 1 ∨ ∀ a ∈ contraOf env db.books.accounts
    (moveAll accountColumn [old] new (db.books.postingsOf txn)), a = new
  account : new ∈ db.books.accountIds
  balance : db.balanceTrigger = true → Db.checkPostingBalance db.books txn = .ok ()

/-- What is asked of a selected transaction. -/
structure Orderly (ids : List Uuid) (t : Transaction) : Prop where
  rule : FirstIsLowest env rules db ledger t
  leg : ∀ r new, firstRule env rules ledger db.books t = some r →
    AppliedAction.from env.toLibraries r.action = .categorize new →
      contraAccount env db.books t.id ≠ some new → ∃ old, SingleLeg env db ids t.id new old

end

/-! ## The rule that is taken -/

section Rule

variable {Number : Type} {env : Environment Number}

theorem firstMatch_rebuild (rules : List (StoredRule Number)) (line : Line) :
    firstMatch env.toLibraries (rules.map StoredRule.rebuild) line =
      (rules.find? fun r => Holds env line r).map fun r =>
        (r.rebuild, AppliedAction.from env.toLibraries r.action) := by
  have hactive : (rules.map StoredRule.rebuild).filter Rule.isActive =
      rules.map StoredRule.rebuild := by
    rw [List.filter_eq_self]
    intro q hq
    obtain ⟨r, -, rfl⟩ := List.mem_map.mp hq
    rfl
  have hsorted : Relational.orderBy Rule.priority (rules.map StoredRule.rebuild) =
      rules.map StoredRule.rebuild := by
    refine List.Pairwise.insertionSort_eq (List.pairwise_map.mpr ?_)
    exact List.pairwise_of_forall fun r q => le_refl (0 : ℤ)
  rw [firstMatch, hactive, hsorted, List.find?_map, Option.map_map]
  congr 1
  refine congrArg (List.find? · rules) (funext fun r => Bool.eq_iff_iff.mpr ?_)
  rw [decide_eq_true_iff]
  exact Iff.rfl

variable (rules : RuleTable Number) (db : Db) (ledger : Uuid)

theorem ruleFor_eq (t : Transaction) : ruleFor env rules db.books ledger t =
    (firstRule env rules ledger db.books t).map fun r =>
      (r.rebuild, AppliedAction.from env.toLibraries r.action) :=
  firstMatch_rebuild _ _

/-- The lowest rule is reported exactly if the first one that is found is the lowest. -/
theorem reportsLowest_iff (t : Transaction) :
    ReportsLowest env (categorizeRules rules ledger) (fullLine db.books t)
      (ruleFor env rules db.books ledger t) ↔ FirstIsLowest env rules db ledger t := by
  rw [ruleFor_eq, FirstIsLowest]
  cases hfirst : firstRule env rules ledger db.books t with
  | none => exact Iff.rfl
  | some r =>
    have hmem : r ∈ categorizeRules rules ledger := List.mem_of_find?_eq_some hfirst
    constructor
    · rintro ⟨q, hlowest, hrebuild⟩
      -- The id tells the rows apart.
      have hid : q.rebuild.id = r.rebuild.id := congrArg Rule.id hrebuild
      obtain rfl : q = r := List.inj_on_of_nodup_map rules.ids_nodup
        (List.mem_of_mem_filter hlowest.mem) (List.mem_of_mem_filter hmem) hid
      exact ⟨hlowest.holds, fun p hp hlt hholds =>
        absurd (hlowest.least p hp hholds) (not_le.mpr hlt)⟩
    · rintro ⟨hholds, hlower⟩
      exact ⟨r, ⟨hmem, hholds, fun q hq hq' => not_lt.mp fun hlt => hlower q hq hlt hq'⟩, rfl⟩

end Rule

/-! ## The updates -/

section Updates

variable {Number : Type} {env : Environment Number}

theorem contraOf_mem {accounts : List Account} {legs : List Posting} {account : Uuid}
    (h : contraOf env accounts legs = some account) :
    ∃ p ∈ legs, accountColumn.get p = account := by
  obtain ⟨p, hp, rfl⟩ := Option.map_eq_some_iff.mp h
  exact ⟨p, List.mem_of_mem_filter (List.mem_of_mem_filter (List.mem_of_getElem? hp)), rfl⟩

theorem postingsOf_redirect (b : Books) (txn old new s : Uuid) (h : new ∈ b.accountIds) :
    (redirect b txn old new h).postingsOf s =
      if s = txn then moveAll accountColumn [old] new (b.postingsOf s) else b.postingsOf s := by
  have hkept : ∀ p : Posting,
      (if p.transactionId = txn ∧ p.accountId = old then { p with accountId := new } else
        p).transactionId = p.transactionId := by
    intro p
    split <;> rfl
  have hmap : (redirect b txn old new h).postingsOf s = (b.postingsOf s).map fun p =>
      if p.transactionId = txn ∧ p.accountId = old then { p with accountId := new } else p := by
    rw [Books.postingsOf, redirect, List.filter_map, Books.postingsOf]
    congr 1
    exact List.filter_congr fun p _ => by rw [Function.comp_apply, hkept]
  rw [hmap]
  split
  · next hs =>
      refine List.map_congr_left fun p hp => ?_
      have htxn : p.transactionId = txn := by
        rw [← hs]
        simpa using (List.mem_filter.mp hp).2
      simp [htxn, accountColumn]
  · next hs =>
      refine (List.map_congr_left fun p hp => if_neg ?_).trans (List.map_id' _)
      have htxn : p.transactionId = s := by simpa using (List.mem_filter.mp hp).2
      rw [htxn]
      exact fun h => hs h.1

theorem checkPostingBalance_redirect (b : Books) (txn old new s : Uuid) (h : new ∈ b.accountIds) :
    Db.checkPostingBalance (redirect b txn old new h) s = Db.checkPostingBalance b s := by
  have hlegs : ∀ d legs, Posting.sumOn d (moveAll accountColumn [old] new legs) =
      Posting.sumOn d legs := by
    intro d legs
    rw [Posting.sumOn, Posting.sumOn, moveAll, Relational.updateWhere, List.map_map]
    refine congrArg List.sum (List.map_congr_left fun p _ => ?_)
    rw [Function.comp_apply]
    split <;> rfl
  rw [Db.checkPostingBalance, Db.checkPostingBalance, postingsOf_redirect]
  split
  · rw [hlegs, hlegs, moveAll, Relational.updateWhere, List.length_map]
  · rfl

/-- The database after updates, apart from the postings of single transactions. -/
structure Recategorized (db db' : Db) : Prop where
  accounts : db'.books.accounts = db.books.accounts
  trigger : db'.balanceTrigger = db.balanceTrigger
  balance : ∀ s, Db.checkPostingBalance db'.books s = Db.checkPostingBalance db.books s

/-- A posting of the transaction can be moved to the account. -/
def Movable (db : Db) (txn new : Uuid) : Prop :=
  new ∈ db.books.accountIds ∧
    (db.balanceTrigger = true → Db.checkPostingBalance db.books txn = .ok ())

variable {db : Db} {changes : List Change}

theorem Recategorized.movable_iff {db' : Db} (h : Recategorized db db') {txn new : Uuid} :
    Movable db' txn new ↔ Movable db txn new := by
  rw [Movable, Movable, h.trigger, h.balance, Books.accountIds, h.accounts, Books.accountIds]

/-- An update passes the postings on the contra account to the new one, and no others. -/
theorem recategorize_spec {db' : Db} {txn new : Uuid} (h : recategorize env db txn new = .ok db') :
    Recategorized db db' ∧ (∀ s, db'.books.postingsOf s =
      if s = txn then
        pass accountColumn (contraOf env db.books.accounts) new (db.books.postingsOf s)
      else db.books.postingsOf s) ∧
    (contraAccount env db.books txn ≠ none → Movable db txn new) := by
  rw [recategorize] at h
  split at h
  · next hnone =>
      cases h
      refine ⟨⟨rfl, rfl, fun _ => rfl⟩, fun s => ?_, fun hne => absurd hnone hne⟩
      split
      · next hs =>
          rw [hs, pass_of_done]
          intro c hc
          rw [contraAccount] at hnone
          rw [hnone] at hc
          cases hc
      · rfl
  · next old hold =>
      split at h
      · next hnew =>
          simp only [bind_eq_ok] at h
          obtain ⟨_, hcheck, h⟩ := h
          cases h
          refine ⟨⟨rfl, rfl, fun s => checkPostingBalance_redirect _ _ _ _ s hnew⟩, fun s => ?_,
            fun _ => ⟨hnew, fun htrigger => ?_⟩⟩
          · rw [postingsOf_redirect]
            split
            · next hs =>
                rw [hs, pass_of_some (by rwa [contraAccount] at hold)]
            · rfl
          · rw [fireTrigger, if_pos htrigger, checkPostingBalance_redirect] at hcheck
            exact hcheck
      · cases h

theorem exists_recategorize {txn new : Uuid} (h : Movable db txn new) :
    ∃ db', recategorize env db txn new = .ok db' := by
  rw [recategorize]
  split
  · exact ⟨db, rfl⟩
  · next old hold =>
      have hfire : fireTrigger db (redirect db.books txn old new h.1) txn = .ok () := by
        rw [fireTrigger, checkPostingBalance_redirect]
        split
        · next htrigger => exact h.2 htrigger
        · rfl
      rw [dif_pos h.1]
      dsimp only
      rw [hfire]
      exact ⟨_, rfl⟩

/-- The postings of a transaction after all updates.  There is one pass for each of its changes. -/
theorem writeChanges_spec {db' : Db} (h : writeChanges env db changes = .ok db') :
    Recategorized db db' ∧ ∀ s new, (∀ c ∈ changes, c.transactionId = s → c.newAccount = new) →
      db'.books.postingsOf s =
        (pass accountColumn (contraOf env db.books.accounts) new)^[changes.countP
          fun c => c.transactionId = s] (db.books.postingsOf s) := by
  induction changes generalizing db with
  | nil =>
    cases h
    exact ⟨⟨rfl, rfl, fun _ => rfl⟩, fun _ _ _ => rfl⟩
  | cons c changes ih =>
    simp only [writeChanges, bind_eq_ok] at h
    obtain ⟨db₁, hc, hrest⟩ := h
    obtain ⟨hfirst, hpostings, -⟩ := recategorize_spec hc
    obtain ⟨hthen, hpasses⟩ := ih hrest
    refine ⟨⟨hthen.accounts.trans hfirst.accounts, hthen.trigger.trans hfirst.trigger,
      fun s => (hthen.balance s).trans (hfirst.balance s)⟩, fun s new hnew => ?_⟩
    rw [hpasses s new (fun d hd => hnew d (List.mem_cons_of_mem _ hd)), hpostings,
      hfirst.accounts, List.countP_cons]
    by_cases hs : c.transactionId = s
    · rw [if_pos hs.symm, hnew c List.mem_cons_self hs]
      simp [hs, Function.iterate_succ_apply]
    · rw [if_neg fun h => hs h.symm]
      simp [hs]

theorem exists_writeChanges (h : ∀ c ∈ changes, Movable db c.transactionId c.newAccount) :
    ∃ db', writeChanges env db changes = .ok db' := by
  induction changes generalizing db with
  | nil => exact ⟨db, rfl⟩
  | cons c changes ih =>
    obtain ⟨db₁, hc⟩ : ∃ db₁, recategorize env db c.transactionId c.newAccount = .ok db₁ :=
      exists_recategorize (h c List.mem_cons_self)
    obtain ⟨db', hrest⟩ := ih fun d hd =>
      (recategorize_spec hc).1.movable_iff.mpr (h d (List.mem_cons_of_mem _ hd))
    exact ⟨db', by rw [writeChanges, hc]; exact hrest⟩

theorem movable_of_writeChanges {db' : Db} (h : writeChanges env db changes = .ok db')
    {c : Change} (hc : c ∈ changes)
    (hsame : ∀ d ∈ changes, d.transactionId = c.transactionId → d.newAccount = c.newAccount)
    (hfound : contraAccount env db.books c.transactionId ≠ none) :
    Movable db c.transactionId c.newAccount := by
  induction changes generalizing db with
  | nil => cases hc
  | cons d changes ih =>
    simp only [writeChanges, bind_eq_ok] at h
    obtain ⟨db₁, hd, hrest⟩ := h
    obtain ⟨hfirst, hpostings, hmovable⟩ := recategorize_spec hd
    by_cases htxn : d.transactionId = c.transactionId
    · rw [← htxn, ← hsame d List.mem_cons_self htxn]
      exact hmovable (by rwa [htxn])
    · have hlater : c ∈ changes := by
        rcases List.mem_cons.mp hc with rfl | hlater
        · exact absurd rfl htxn
        · exact hlater
      have hkept : contraAccount env db₁.books c.transactionId =
          contraAccount env db.books c.transactionId := by
        rw [contraAccount, hpostings, if_neg fun h => htxn h.symm, hfirst.accounts, contraAccount]
      exact hfirst.movable_iff.mp (ih hrest hlater
        (fun e he => hsame e (List.mem_cons_of_mem _ he)) (by rwa [hkept]))

end Updates

/-! ## The list of the dry run -/

section Listed

variable {Number : Type} {env : Environment Number} {rules : RuleTable Number} {db : Db}
  {ledger : Uuid} {ids : List Uuid}
variable {c : Change}

/-- A change is listed if the first rule categorizes to another account. -/
theorem changeOf_eq_some {txn : Uuid} :
    changeOf env rules db.books ledger txn = some c ↔
      ∃ t r new, db.books.findTxnIn txn ledger = some t ∧
        firstRule env rules ledger db.books t = some r ∧
        AppliedAction.from env.toLibraries r.action = .categorize new ∧
        contraAccount env db.books txn ≠ some new ∧
        c = { transactionId := txn, oldAccount := contraAccount env db.books txn, newAccount := new,
              rule := r.name } := by
  rw [changeOf]
  cases hfind : db.books.findTxnIn txn ledger with
  | none => simp
  | some t =>
    dsimp only
    rw [ruleFor_eq]
    cases hfirst : firstRule env rules ledger db.books t with
    | none => simp [hfirst]
    | some r =>
      rw [Option.map_some]
      cases haction : AppliedAction.from env.toLibraries r.action with
      | categorize new =>
        have hunique : ∀ t' r' new', some t = some t' →
            firstRule env rules ledger db.books t' = some r' →
            AppliedAction.from env.toLibraries r'.action = .categorize new' →
            r = r' ∧ new = new' := by
          intro t' r' new' ht hr' hnew'
          cases ht
          rw [hfirst] at hr'
          cases hr'
          rw [haction] at hnew'
          cases hnew'
          exact ⟨rfl, rfl⟩
        dsimp only
        split
        · next hsame =>
            simp only [reduceCtorEq, false_iff]
            rintro ⟨t', r', new', ht, hr', hnew', hne, -⟩
            obtain ⟨rfl, rfl⟩ := hunique t' r' new' ht hr' hnew'
            exact hne hsame
        · next hne =>
            constructor
            · intro h
              exact ⟨t, r, new, rfl, hfirst, haction, hne, (Option.some.inj h).symm⟩
            · rintro ⟨t', r', new', ht, hr', hnew', -, rfl⟩
              obtain ⟨rfl, rfl⟩ := hunique t' r' new' ht hr' hnew'
              rfl
      | «match» => simp [hfirst, haction]
      | flag => simp [hfirst, haction]

theorem changeOf_transactionId {txn : Uuid} (h : changeOf env rules db.books ledger txn = some c) :
    c.transactionId = txn := by
  rw [changeOf_eq_some] at h
  obtain ⟨t, r, new, -, -, -, -, rfl⟩ := h
  rfl

theorem mem_listChanges : c ∈ listChanges env rules db.books ledger ids ↔
    c.transactionId ∈ ids ∧ changeOf env rules db.books ledger c.transactionId = some c := by
  rw [listChanges, List.mem_filterMap]
  constructor
  · rintro ⟨txn, htxn, hc⟩
    rw [changeOf_transactionId hc]
    exact ⟨htxn, hc⟩
  · rintro ⟨htxn, hc⟩
    exact ⟨_, htxn, hc⟩

theorem countP_listChanges {txn : Uuid} (h : changeOf env rules db.books ledger txn = some c) :
    (listChanges env rules db.books ledger ids).countP (fun d => d.transactionId = txn) =
      ids.count txn := by
  induction ids with
  | nil => rfl
  | cons id ids ih =>
    rw [listChanges] at ih ⊢
    rw [List.filterMap_cons, List.count_cons]
    by_cases hid : id = txn
    · subst hid
      rw [h]
      simp [ih, changeOf_transactionId h]
    · cases hd : changeOf env rules db.books ledger id with
      | none => simp [ih, hid]
      | some d =>
        have hdid : d.transactionId = id := changeOf_transactionId hd
        simp [ih, hid, hdid]

theorem newAccount_eq {d : Change} (hc : c ∈ listChanges env rules db.books ledger ids)
    (hd : d ∈ listChanges env rules db.books ledger ids)
    (htxn : d.transactionId = c.transactionId) : d.newAccount = c.newAccount := by
  rw [mem_listChanges] at hc hd
  have hsome := hd.2
  rw [htxn, hc.2] at hsome
  rw [Option.some.inj hsome]

/-! ## Writing the list -/

/-- The database after the mode `apply`. -/
def written (env : Environment Number) (rules : RuleTable Number) (db : Db) (ledger : Uuid)
    (ids : List Uuid) : Db :=
  (commit db do
    let db ← mapError AppError.db
      (writeChanges env db (listChanges env rules db.books ledger ids))
    .ok ((), db)).2

theorem written_of_ok {db' : Db}
    (h : writeChanges env db (listChanges env rules db.books ledger ids) = .ok db') :
    written env rules db ledger ids = db' := by
  simp [written, h, commit, mapError, bind, Except.bind]

theorem written_of_error {e : SqlError}
    (h : writeChanges env db (listChanges env rules db.books ledger ids) = .error e) :
    written env rules db ledger ids = db := by
  simp [written, h, commit, mapError, bind, Except.bind]

theorem oldAccount_eq (hc : c ∈ listChanges env rules db.books ledger ids) :
    c.oldAccount = contraAccount env db.books c.transactionId ∧
      contraAccount env db.books c.transactionId ≠ some c.newAccount := by
  rw [mem_listChanges, changeOf_eq_some] at hc
  obtain ⟨-, t, r, new, -, -, -, hne, hfields⟩ := hc
  rw [hfields] at hne ⊢
  exact ⟨rfl, hne⟩

theorem movesOne_written_iff {old : Uuid} {db' : Db}
    (hc : c ∈ listChanges env rules db.books ledger ids)
    (hold : contraAccount env db.books c.transactionId = some old)
    (hwritten : writeChanges env db (listChanges env rules db.books ledger ids) = .ok db') :
    MovesOne accountColumn (db.books.postingsOf c.transactionId)
        (db'.books.postingsOf c.transactionId) old c.newAccount ↔
      ((db.books.postingsOf c.transactionId).filter fun p =>
          accountColumn.get p = old).length = 1 ∧
        (ids.count c.transactionId = 1 ∨ ∀ a ∈ contraOf env db.books.accounts
          (moveAll accountColumn [old] c.newAccount (db.books.postingsOf c.transactionId)),
            a = c.newAccount) := by
  have hlisted := hc
  rw [mem_listChanges] at hlisted
  obtain ⟨hmem, hchange⟩ := hlisted
  obtain ⟨-, hpasses⟩ := writeChanges_spec hwritten
  rw [hpasses c.transactionId c.newAccount (fun d hd htxn => newAccount_eq hc hd htxn),
    countP_listChanges hchange]
  refine movesOne_iterate_iff contraOf_mem hold (fun heq => ?_) (List.count_pos_iff.mpr hmem)
  exact (oldAccount_eq hc).2 (by rw [hold, heq])

/-- The changes of the list are made as listed if and only if each has a single leg. -/
theorem forall_moves_iff :
    (∀ c ∈ listChanges env rules db.books ledger ids,
        Moves db.books (written env rules db ledger ids).books c) ↔
      ∀ c ∈ listChanges env rules db.books ledger ids,
        ∃ old, SingleLeg env db ids c.transactionId c.newAccount old := by
  constructor
  · intro hmoves c hc
    obtain ⟨old, hlisted, hmove⟩ := hmoves c hc
    rw [(oldAccount_eq hc).1] at hlisted
    cases hwritten : writeChanges env db (listChanges env rules db.books ledger ids) with
    | error e =>
      rw [written_of_error hwritten] at hmove
      exact absurd hmove (not_movesOne_self _ _ _)
    | ok db' =>
      rw [written_of_ok hwritten] at hmove
      obtain ⟨hsingle, honce⟩ := (movesOne_written_iff hc hlisted hwritten).mp hmove
      obtain ⟨haccount, hbalance⟩ := movable_of_writeChanges hwritten hc
        (fun d hd htxn => newAccount_eq hc hd htxn) (by simp [hlisted])
      exact ⟨old, hlisted, hsingle, honce, haccount, hbalance⟩
  · intro hlegs c hc
    obtain ⟨old, hleg⟩ := hlegs c hc
    have hmovable : ∀ d ∈ listChanges env rules db.books ledger ids,
        Movable db d.transactionId d.newAccount := by
      intro d hd
      obtain ⟨_, hd⟩ := hlegs d hd
      exact ⟨hd.account, hd.balance⟩
    obtain ⟨db', hwritten⟩ :
        ∃ db', writeChanges env db (listChanges env rules db.books ledger ids) = .ok db' :=
      exists_writeChanges hmovable
    rw [written_of_ok hwritten]
    exact ⟨old, (oldAccount_eq hc).1.trans hleg.found,
      (movesOne_written_iff hc hleg.found hwritten).mpr ⟨hleg.single, hleg.once⟩⟩

end Listed

/-! ## The handler -/

section Handler

variable {Number : Type} (env : Environment Number) (rules : RuleTable Number) (db : Db)
  (auth : Option Uuid) (ledger : Uuid) (form : ApplyRulesForm)

theorem applyRules_dryRun {changes : List Change} :
    (applyRules env rules db auth ledger { form with mode := "" }).1 = .ok (.dryRun changes) ↔
      ∃ ids, checkSelection env db auth ledger form = .ok ids ∧
        changes = listChanges env rules db.books ledger ids := by
  have hcheck : checkSelection env db auth ledger { form with mode := "" } =
      checkSelection env db auth ledger form := rfl
  rw [applyRules, hcheck]
  cases checkSelection env db auth ledger form with
  | error e => simp
  | ok ids =>
    dsimp only
    rw [if_pos (by decide)]
    constructor
    · intro h
      cases h
      exact ⟨ids, rfl, rfl⟩
    · rintro ⟨_, h, rfl⟩
      cases h
      rfl

theorem applyRules_apply {ids : List Uuid}
    (h : checkSelection env db auth ledger form = .ok ids) :
    (applyRules env rules db auth ledger { form with mode := "apply" }).2 =
      written env rules db ledger ids := by
  have hcheck : checkSelection env db auth ledger { form with mode := "apply" } =
      checkSelection env db auth ledger form := rfl
  rw [applyRules, hcheck, h]
  simp only [ne_eq, not_true_eq_false, if_false]
  cases hwritten : writeChanges env db (listChanges env rules db.books ledger ids) with
  | error e =>
    rw [written_of_error hwritten]
    simp [commit, mapError, bind, Except.bind]
  | ok db' =>
    rw [written_of_ok hwritten]
    simp [commit, mapError, bind, Except.bind]

/-- The rules are followed if and only if every selected transaction is orderly. -/
theorem follows_iff : Follows env rules db auth ledger form ↔
    ∀ ids, checkSelection env db auth ledger form = .ok ids → ∀ txn ∈ ids, ∀ t,
      db.books.findTxnIn txn ledger = some t → Orderly env rules db ledger ids t := by
  have hid : ∀ {txn t}, db.books.findTxnIn txn ledger = some t → t.id = txn :=
    fun ht => (Books.findTxnIn_spec ht).2.1
  constructor
  · rintro ⟨hrule, hmoves⟩ ids hids txn htxn t ht
    refine ⟨(reportsLowest_iff rules db ledger t).mp (hrule ids hids txn htxn t ht),
      fun r new hr haction hne => ?_⟩
    rw [hid ht] at hne ⊢
    have hlisted := List.mem_filterMap.mpr ⟨txn, htxn,
      changeOf_eq_some.mpr ⟨t, r, new, ht, hr, haction, hne, rfl⟩⟩
    have hall := hmoves _ ((applyRules_dryRun env rules db auth ledger form).mpr ⟨ids, hids, rfl⟩)
    rw [applyRules_apply env rules db auth ledger form hids] at hall
    exact forall_moves_iff.mp hall _ hlisted
  · intro horderly
    refine ⟨fun ids hids txn htxn t ht =>
      (reportsLowest_iff rules db ledger t).mpr (horderly ids hids txn htxn t ht).rule,
      fun changes hchanges => ?_⟩
    obtain ⟨ids, hids, rfl⟩ := (applyRules_dryRun env rules db auth ledger form).mp hchanges
    rw [applyRules_apply env rules db auth ledger form hids]
    refine forall_moves_iff.mpr fun c hc => ?_
    obtain ⟨htxn, hchange⟩ := mem_listChanges.mp hc
    obtain ⟨t, r, new, ht, hr, haction, hne, hfields⟩ := changeOf_eq_some.mp hchange
    have hleg := (horderly ids hids _ htxn t ht).leg r new hr haction
    rw [hid ht] at hleg
    rw [hfields]
    exact hleg hne

end Handler

/-! ## Two rules and a split -/

namespace Sample

open OpenAccounting.Sample

def travel : Uuid := 21
def office : Uuid := 22
def meals : Uuid := 23
def splitTxn : Uuid := 1000

/-- The numbers of JSON are integers here, and the ids above are all that is parsed. -/
def environment : Environment ℤ where
  regex := { bounds := fun _ => none, compile := fun _ => none }
  asI64 := some
  parseUuid s := [travel, office, meals, splitTxn].find? fun id => id.hyphenated = s
  decodeI64 _ := none
  tie _ := 0

/-- Everything goes to the office account. -/
def everything : StoredRule ℤ where
  id := 51
  name := "Everything"
  kind := .categorize
  priority := 20
  predicate := .object []
  action := .object [("gl_account_id", .string office.hyphenated)]
  isActive := true
  ledgerId := ledgerId

/-- More than ten goes to the account for meals. -/
def large : StoredRule ℤ where
  id := 52
  name := "Large amounts"
  kind := .categorize
  priority := 10
  predicate := .object [("amount_cents_gt", .number 1000)]
  action := .object [("gl_account_id", .string meals.hyphenated)]
  isActive := true
  ledgerId := ledgerId

def table : RuleTable ℤ where
  rows := [everything, large]
  ids_nodup := by decide

theorem fifty_pos : (0 : ℚ) < 50 := by norm_num

theorem fifty_scale : Rounding.HasScale 4 50 := by decide +kernel

/-- A bill of fifty, in two legs of the travel account. -/
def bill : Db :=
  { OpenAccounting.Sample.db with
    books :=
      { accounts :=
          [{ id := cash, ledgerId := ledgerId, name := "Cash", type := .asset,
             subtype := .currentAsset, subtype_valid := AccountType.currentAsset_valid },
           { id := travel, ledgerId := ledgerId, name := "Travel", type := .expense,
             subtype := .operatingExpense, subtype_valid := AccountType.operatingExpense_valid },
           { id := office, ledgerId := ledgerId, name := "Office", type := .expense,
             subtype := .operatingExpense, subtype_valid := AccountType.operatingExpense_valid },
           { id := meals, ledgerId := ledgerId, name := "Meals", type := .expense,
             subtype := .operatingExpense, subtype_valid := AccountType.operatingExpense_valid }]
        transactions :=
          [{ id := splitTxn, ledgerId := ledgerId, txnDate := march 10, description := "Bill",
             currency := "USD", kind := .standard, createdBy := owner }]
        postings :=
          [{ id := 1, transactionId := splitTxn, accountId := travel, amount := 30,
             direction := .debit },
           { id := 2, transactionId := splitTxn, accountId := travel, amount := 20,
             direction := .debit },
           { id := 3, transactionId := splitTxn, accountId := cash, amount := 50,
             direction := .credit, amount_pos := fifty_pos, amount_scale := fifty_scale }] } }

/-- The id of the bill as the form sends it. -/
def splitText : String := "00000000-0000-0000-0000-0000000003e8"

def form : ApplyRulesForm where
  transactionIds := [splitText]

theorem checkSelection_form :
    checkSelection environment bill (some owner) ledgerId form = .ok [splitTxn] := by
  have htrim : RustStr.trim splitText = splitText :=
    RustStr.trim_eq_self (RustStr.forall_chars rfl)
  have hparse : environment.parseUuid splitText = some splitTxn := by decide +kernel
  have hids : (form.transactionIds.filterMap fun s => environment.parseUuid (RustStr.trim s)) =
      [splitTxn] := by
    rw [form, List.filterMap_cons, htrim, hparse]
    rfl
  have hopen : ∀ txn ∈ [splitTxn], ¬ InClosedYear bill txn := by
    rintro txn - ⟨t, -, -, c, hc, -⟩
    cases hc
  rw [checkSelection, hids]
  simp only [bind_eq_ok, okOr_eq_ok, ensure_eq_ok]
  exact ⟨owner, rfl, _, rfl, (), by decide, (), hopen, trivial⟩

end Sample

open RulesApply.Sample in
/-- The rule of the lower priority holds of the bill, the other one is reported, and both legs of
the bill are moved. -/
theorem not_follows_split :
    listChanges environment table bill.books OpenAccounting.Sample.ledgerId [splitTxn] =
        [{ transactionId := splitTxn, oldAccount := some travel, newAccount := office,
           rule := "Everything" }] ∧
      (written environment table bill OpenAccounting.Sample.ledgerId [splitTxn]).books.postings.map
        Posting.accountId = [office, office, OpenAccounting.Sample.cash] ∧
      ¬ Follows environment table bill (some OpenAccounting.Sample.owner)
        OpenAccounting.Sample.ledgerId form := by
  refine ⟨by decide +kernel, by decide +kernel, fun hfollows => ?_⟩
  have hsearch : (bill.books.findTxnIn splitTxn OpenAccounting.Sample.ledgerId).isSome := by
    decide +kernel
  obtain ⟨t, ht⟩ := Option.isSome_iff_exists.mp hsearch
  have hreports := hfollows.rule _ checkSelection_form splitTxn List.mem_cons_self t ht
  have hid : (ruleFor environment table bill.books OpenAccounting.Sample.ledgerId t).map
      (fun r => r.1.id) = some everything.id := by
    have hall : ∀ t ∈ bill.books.transactions, (ruleFor environment table bill.books
        OpenAccounting.Sample.ledgerId t).map (fun r => r.1.id) = some everything.id := by
      decide +kernel
    exact hall t (Books.findTxnIn_spec ht).1
  have hlarge : ∀ t ∈ bill.books.transactions,
      Holds environment (fullLine bill.books t) large := by decide +kernel
  obtain ⟨⟨rule, action⟩, hrule, hruleId⟩ := Option.map_eq_some_iff.mp hid
  rw [hrule] at hreports
  obtain ⟨r, hlowest, rfl⟩ := hreports
  have hmem : large ∈ categorizeRules table OpenAccounting.Sample.ledgerId := by
    simp [categorizeRules, table, large]
  have hleast : r.priority ≤ 10 := hlowest.least large hmem (hlarge t (Books.findTxnIn_spec ht).1)
  have hrows : r = everything ∨ r = large := by
    simpa [table] using List.mem_of_mem_filter hlowest.mem
  rcases hrows with rfl | rfl
  · exact absurd hleast (by decide)
  · have hother : large.rebuild.id ≠ everything.id := by decide
    exact hother hruleId

end OpenAccounting.RulesApply
