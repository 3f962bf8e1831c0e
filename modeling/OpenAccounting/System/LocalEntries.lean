import OpenAccounting.System.PeriodOverride
import OpenAccounting.System.Reversals

/-!
# Entries in base currency

Most callers of the posting service hand it lines in base currency, of four decimals, without
dimensions and taxes.  For such an entry, on accounts of the ledger and dated in an open period,
the service has few reasons left to refuse it (`create_isOk_iff_local`), and once it is in, every
account has gained what the lines say (`netOf_of_create`).
-/

namespace OpenAccounting

open Calendar Commit Rounding

namespace PostingService

open Transactions.Stepwise (Succeeds create_isOk_iff_succeeds)
open Stepwise (Committable Gated allDone)

/-- The lines are amounts of four decimals in base currency, with no tag and no tax, and cancel
out. -/
structure LocalEntry (new : NewTransaction) : Prop where
  standard : new.kind = some "standard"
  unnumbered : new.number = none
  original : new.reversesId = none
  untaxed : new.taxLinks = []
  lines : 2 ≤ new.lines.length
  plain : ∀ l ∈ new.lines, l.foreign = none ∧ l.costCenterId = none ∧ l.projectId = none
  scale : ∀ l ∈ new.lines, HasScale 4 l.signedAmount
  nonzero : ∀ l ∈ new.lines, l.signedAmount ≠ 0
  balanced : (new.lines.map TxnLineInput.signedAmount).sum = 0

/-- The entry is on accounts of its ledger, in an open period, by a user, and the ids drawn for it
are new. -/
structure Placed (db : Db) (req : Request) (new : NewTransaction) (ledger : Ledger) : Prop where
  ledger : db.findLedger new.ledgerId = some ledger
  author : ∃ u ∈ db.users, u.id = new.createdBy
  period : ¬ db.Closed new.ledgerId new.txnDate
  accounts : ∀ l ∈ new.lines, ∃ a ∈ db.books.accounts,
    a.id = l.accountId ∧ a.ledgerId = new.ledgerId
  txn_fresh : req.txnId 0 ∉ db.books.txnIds
  postings_fresh : ∀ k < new.lines.length, ∀ p ∈ db.books.postings, p.id ≠ req.postingId 0 k
  postings_differ : ∀ k < new.lines.length, ∀ i < new.lines.length,
    req.postingId 0 k = req.postingId 0 i → k = i

/-- The number the service draws. -/
def drawnNumber (b : Books) (ledger : Uuid) (date : NaiveDate) : String :=
  toString date.year ++ "-" ++ RustStr.padZero 6 ((b.transactions.filter fun t =>
    t.ledgerId = ledger ∧ Transaction.numberYear t.txnDate = date.year).length + 1)

/-- No transaction of the ledger and the year has that number. -/
def NumberFree (b : Books) (ledger : Uuid) (date : NaiveDate) : Prop :=
  ∀ t ∈ b.transactions, ¬ (t.ledgerId = ledger ∧
    Transaction.numberYear t.txnDate = Transaction.numberYear date ∧
    t.number = some (drawnNumber b ledger date))

instance (b : Books) (ledger : Uuid) (date : NaiveDate) : Decidable (NumberFree b ledger date) := by
  unfold NumberFree
  infer_instance

def debits (lines : List TxnLineInput) : ℚ := debitTotal (lines.map TxnLineInput.signedAmount)

/-! ## Lines and their rows -/

section

variable {req : Request}

/-- A condition that does not depend on the position holds of the rows when it holds of the
lines. -/
theorem forall_lineRows {P : PostingRow → Prop} {Q : TxnLineInput → Prop} :
    ∀ {k : ℕ} {ls : List TxnLineInput},
      (∀ l ∈ ls, ∀ i, P (lineRow req i l l.signedAmount) ↔ Q l) →
        ((∀ r ∈ lineRows req k ls (ls.map TxnLineInput.signedAmount), P r) ↔ ∀ l ∈ ls, Q l)
  | _, [], _ => by simp [lineRows]
  | k, l :: ls, h => by
    have ih := forall_lineRows (P := P) (Q := Q) (k := k + 1)
      fun m hm => h m (List.mem_cons_of_mem _ hm)
    rw [List.map_cons, lineRows, List.forall_mem_cons, List.forall_mem_cons, ih,
      h l List.mem_cons_self k]

theorem map_id_lineRows : ∀ (k : ℕ) (ls : List TxnLineInput),
    (lineRows req k ls (ls.map TxnLineInput.signedAmount)).map PostingRow.id =
      (List.range' k ls.length).map (req.postingId 0)
  | _, [] => rfl
  | k, l :: ls => by
    rw [List.map_cons, lineRows, List.map_cons, map_id_lineRows (k + 1) ls, List.length_cons,
      List.range'_succ, List.map_cons]
    rfl

theorem amountColumn_isSome_iff {x : ℚ} (hx : HasScale 4 x) :
    (amountColumn x).isSome ↔ |x| < 10 ^ 16 := by
  have hpow : (10 : ℚ) ^ (20 - 4) = 10 ^ 16 := rfl
  rw [amountColumn, numeric, roundDp_of_hasScale hx, hpow]
  split
  · next h => simpa using h
  · next h => simpa using h

theorem lineRow_fitsColumns {l : TxnLineInput} (hscale : HasScale 4 l.signedAmount)
    (hnonzero : l.signedAmount ≠ 0) (hlocal : l.foreign = none) (k : ℕ) :
    (lineRow req k l l.signedAmount).FitsColumns ↔ |l.signedAmount| < 10 ^ 16 := by
  have hiff := amountColumn_isSome_iff hscale.abs
  rw [abs_abs] at hiff
  rw [← hiff]
  constructor
  · exact fun h => h.amount
  · intro h
    refine ⟨h, ?_, ?_⟩
    · show 0 < roundDp 4 |l.signedAmount|
      rw [roundDp_of_hasScale hscale.abs]
      exact abs_pos.mpr hnonzero
    · intro x hx
      rw [lineRow, hlocal] at hx
      cases hx

theorem hasScale_debits {ls : List TxnLineInput} (h : ∀ l ∈ ls, HasScale 4 l.signedAmount) :
    HasScale 4 (debits ls) := by
  refine HasScale.list_sum fun x hx => ?_
  obtain ⟨a, ha, rfl⟩ := List.mem_map.mp hx
  obtain ⟨l, hl, rfl⟩ := List.mem_map.mp ha
  split
  · exact h l hl
  · exact hasScale_zero 4

theorem debits_nonneg (ls : List TxnLineInput) : 0 ≤ debits ls := by
  refine List.sum_nonneg fun x hx => ?_
  obtain ⟨a, -, rfl⟩ := List.mem_map.mp hx
  split
  · assumption
  · exact le_rfl

end

/-! ## When the service accepts the entry -/

section

variable {db : Db} {req : Request} {new : NewTransaction} {ledger : Ledger}

/-- The legs can be inserted if and only if their amounts fit the column. -/
theorem Placed.legsInsertable_iff (h : Placed db req new ledger) (hnew : LocalEntry new) :
    Db.LegsInsertable { db with balanceTrigger := false } []
        (lineRows req 0 new.lines (new.lines.map TxnLineInput.signedAmount)) ↔
      ∀ l ∈ new.lines, |l.signedAmount| < 10 ^ 16 := by
  have hfits : (∀ r ∈ lineRows req 0 new.lines (new.lines.map TxnLineInput.signedAmount),
      r.FitsColumns) ↔ ∀ l ∈ new.lines, |l.signedAmount| < 10 ^ 16 :=
    forall_lineRows fun l hl i =>
      lineRow_fitsColumns (hnew.scale l hl) (hnew.nonzero l hl) (hnew.plain l hl).1 i
  have haccounts : (∀ r ∈ lineRows req 0 new.lines (new.lines.map TxnLineInput.signedAmount),
      r.accountId ∈ db.books.accountIds) ↔ ∀ l ∈ new.lines, l.accountId ∈ db.books.accountIds :=
    forall_lineRows (P := fun r => r.accountId ∈ db.books.accountIds) fun _ _ _ => Iff.rfl
  have hids : ∀ {id : Uuid}, id ∈ (lineRows req 0 new.lines
      (new.lines.map TxnLineInput.signedAmount)).map PostingRow.id →
        ∃ k < new.lines.length, req.postingId 0 k = id := by
    intro id hid
    rw [map_id_lineRows] at hid
    obtain ⟨k, hk, rfl⟩ := List.mem_map.mp hid
    exact ⟨k, by simpa using List.mem_range'_1.mp hk, rfl⟩
  constructor
  · exact fun hlegs => hfits.mp hlegs.columns
  · intro hall
    refine ⟨hfits.mpr hall, haccounts.mpr ?_, ?_, ?_, nofun⟩
    · intro l hl
      obtain ⟨a, ha, hid, -⟩ := h.accounts l hl
      exact List.mem_map.mpr ⟨a, ha, hid⟩
    · intro r hr p hp
      obtain ⟨k, hk, hid⟩ := hids (List.mem_map_of_mem hr)
      rw [← hid]
      exact h.postings_fresh k hk p hp
    · rw [map_id_lineRows]
      refine List.Nodup.map_on ?_ List.nodup_range'
      intro k hk i hi heq
      exact h.postings_differ k (by simpa using List.mem_range'_1.mp hk) i
        (by simpa using List.mem_range'_1.mp hi) heq

theorem LocalEntry.resolveAmounts_eq (hnew : LocalEntry new) (db : Db) (req : Request) :
    resolveAmounts db req new = .ok (new.lines.map TxnLineInput.signedAmount) := by
  have hany : new.lines.any (fun l => l.foreign.isSome) = false := by
    rw [List.any_eq_false]
    intro l hl
    simp [(hnew.plain l hl).1]
  rw [resolveAmounts, hany]
  rfl

theorem LocalEntry.resolveNumber_eq (hnew : LocalEntry new) (b : Books) :
    resolveNumber b new = .ok (some (drawnNumber b new.ledgerId new.txnDate)) := by
  rw [resolveNumber, hnew.unnumbered]
  rfl

/-- The kind the service writes: the maker-checker gate may make the journal pending. -/
theorem fromDb_makerChecker (ledger : Ledger) (total : ℚ) :
    ∃ kind, TxnKind.fromDb (makerChecker ledger "standard" false total).1 = some kind := by
  rw [makerChecker]
  split
  · exact ⟨.pending, rfl⟩
  · exact ⟨.standard, rfl⟩

/-- The service accepts the entry exactly when the number it draws is free, the amounts fit their
columns, and so does the total that an approval would record. -/
theorem create_isOk_iff_local (hnew : LocalEntry new) (h : Placed db req new ledger) :
    (create db req new).1.isOk = true ↔ NumberFree db.books new.ledgerId new.txnDate ∧
      (∀ l ∈ new.lines, |l.signedAmount| < 10 ^ 16) ∧
      (0 ≤ ledger.approvalThreshold → ledger.approvalThreshold ≤ debits new.lines →
        debits new.lines < 10 ^ 16) := by
  have hsame : (create db req new).1.isOk =
      (Stepwise.create Decimal.exact allDone db req new).1.isOk := by
    rw [Stepwise.create, Stepwise.createWithKind_exact, create, failAs]
    cases (createWithKind db req new false).1 <;> rfl
  have hamounts : Stepwise.resolveAmounts Decimal.exact allDone db req new =
      .ok (new.lines.map TxnLineInput.signedAmount) := by
    have hany : new.lines.any (fun l => l.foreign.isSome) = false := by
      rw [List.any_eq_false]
      intro l hl
      simp [(hnew.plain l hl).1]
    rw [Stepwise.resolveAmounts, hany]
    rfl
  have htotal := Stepwise.debitTotal_exact (new.lines.map TxnLineInput.signedAmount)
  -- The gate looks at the threshold alone.
  have hgated : Gated Decimal.exact ledger new (new.lines.map TxnLineInput.signedAmount) ↔
      0 ≤ ledger.approvalThreshold ∧ ledger.approvalThreshold ≤ debits new.lines := by
    rw [Gated, htotal, hnew.standard, makerChecker, debits]
    split
    · next hgate => exact ⟨fun _ => hgate.2.2, fun _ => rfl⟩
    · next hgate =>
        refine ⟨(fun h => by cases h), fun hthreshold => ?_⟩
        exact absurd ⟨rfl, Or.inl rfl, hthreshold⟩ hgate
  have hcolumn : (amountColumn (Stepwise.debitTotal Decimal.exact
      (new.lines.map TxnLineInput.signedAmount))).isSome ↔ debits new.lines < 10 ^ 16 := by
    rw [htotal]
    refine (amountColumn_isSome_iff (hasScale_debits hnew.scale)).trans ?_
    rw [abs_of_nonneg (debits_nonneg new.lines)]
  rw [hsame, create_isOk_iff_succeeds]
  constructor
  · rintro ⟨effective, ledger', number, kind, hc, -, happroval⟩
    cases hamounts.symm.trans hc.amounts
    cases h.ledger.symm.trans hc.ledger_found
    cases (hnew.resolveNumber_eq db.books).symm.trans hc.number_resolved
    refine ⟨?_, (h.legsInsertable_iff hnew).mp hc.legs, ?_⟩
    · intro t ht htaken
      exact (hc.header.unique t ht).1 ⟨rfl, htaken⟩
    · intro hzero hle
      exact hcolumn.mp (happroval (hgated.mpr ⟨hzero, hle⟩)).2
  · rintro ⟨hfree, hfits, happroval⟩
    obtain ⟨kind, hkind⟩ := fromDb_makerChecker ledger (debits new.lines)
    have hhas : db.HasLedger new.ledgerId :=
      ⟨ledger, List.mem_of_find?_eq_some h.ledger, by simpa using List.find?_some h.ledger⟩
    refine ⟨new.lines.map TxnLineInput.signedAmount, ledger,
      some (drawnNumber db.books new.ledgerId new.txnDate), kind, ?_, rfl, ?_⟩
    · exact
        { lines := hnew.lines
          amounts := hamounts
          balance := by
            rw [htotal, Stepwise.creditTotal_exact, balanced_iff_sum]
            exact hnew.balanced
          answered := fun _ _ => rfl
          ledger_found := h.ledger
          period := Or.inr h.period
          accounts := h.accounts
          costCenters := by
            intro l hl id hid
            rw [(hnew.plain l hl).2.1] at hid
            cases hid
          projects := by
            intro l hl id hid
            rw [(hnew.plain l hl).2.2] at hid
            cases hid
          number_resolved := hnew.resolveNumber_eq db.books
          kind_valid := by
            rw [htotal, hnew.standard]
            exact hkind
          header :=
            { ledger := hhas
              creator := h.author
              reverses := by
                rw [txnRow, hnew.original]
                rfl
              template := rfl
              unique := fun t ht =>
                ⟨fun hsame => hfree t ht hsame.2, fun hsame => by cases hsame.1⟩
              fresh := h.txn_fresh }
          legs := (h.legsInsertable_iff hnew).mpr hfits
          taxes := by
            rw [hnew.untaxed]
            constructor <;> simp }
    · intro hgate
      obtain ⟨hzero, hle⟩ := hgated.mp hgate
      exact ⟨rfl, hcolumn.mpr (happroval hzero hle)⟩

/-! ## What the accounts gain -/

theorem net_filter_of_written {req : Request} {account : Uuid} :
    ∀ {k : ℕ} {ls : List TxnLineInput} {ps : List Posting},
      (∀ l ∈ ls, HasScale 4 l.signedAmount) →
      List.Forall₂ PostingRow.Written
        (lineRows req k ls (ls.map TxnLineInput.signedAmount)) ps →
      Posting.net (ps.filter fun p => p.accountId = account) =
        ((ls.filter fun l => l.accountId = account).map TxnLineInput.signedAmount).sum
  | _, [], ps, _, h => by
    cases h
    rfl
  | k, l :: ls, ps, hscale, h => by
    rw [List.map_cons, lineRows] at h
    cases h with
    | cons hrow hrest =>
      rename_i p qs
      have ih : Posting.net (qs.filter fun p => p.accountId = account) = _ :=
        net_filter_of_written (fun m hm => hscale m (List.mem_cons_of_mem _ hm)) hrest
      have hsigned : p.signed = l.signedAmount := by
        have hamount : p.amount = |l.signedAmount| :=
          hrow.stored.amount.trans (roundDp_of_hasScale (hscale l List.mem_cons_self).abs)
        have hdirection : p.direction = .ofSigned l.signedAmount := hrow.stored.direction
        rw [Posting.signed, hdirection, hamount]
        by_cases hsign : 0 ≤ l.signedAmount
        · simp [Direction.ofSigned, hsign, abs_of_nonneg hsign]
        · simp [Direction.ofSigned, hsign, abs_of_neg (not_le.mp hsign)]
      have haccount : p.accountId = l.accountId := hrow.stored.accountId
      by_cases heq : l.accountId = account
      · simp [haccount, heq, hsigned, ih]
      · simp [haccount, heq, ih]

/-- An accepted entry leaves the accounts, and every account gains what the lines say. -/
theorem netOf_of_create (hnew : LocalEntry new) {created : CreatedTransaction} {db' : Db}
    (h : create db req new = (.ok created, db')) :
    db'.books.accounts = db.books.accounts ∧ ∀ account,
      Reports.netOf db'.books account = Reports.netOf db.books account +
        ((new.lines.filter fun l => l.accountId = account).map
          TxnLineInput.signedAmount).sum := by
  obtain ⟨effective, l, kind, ps, hamounts, -, -, hposts, hwritten⟩ := createWithKind_written h
  cases (hnew.resolveAmounts_eq db req).symm.trans hamounts
  refine ⟨hposts.accounts, fun account => ?_⟩
  rw [Reports.netOf, Reports.netOf, Books.netWhere, Books.netWhere, hposts.postings,
    List.filter_append, Posting.net_append, net_filter_of_written hnew.scale hwritten]

end

end PostingService

end OpenAccounting
