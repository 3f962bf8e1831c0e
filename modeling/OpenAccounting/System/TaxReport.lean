import OpenAccounting.Handlers.Taxes
import OpenAccounting.System.TaxLinks
import OpenAccounting.System.TaxedEntries
import Mathlib.Algebra.Group.Prod

/-!
# The tax report and the books

An entry keeps its tax attribution when it is reversed: a reversal writes no tax links, and the
report goes on showing the original.

`followsBooks_iff` says when the report would agree with the books all the same.  The query has no
condition on the kind of a transaction, so the links of drafts and pending journals count.  The
dates are compared after the outer joins, where a rate without a link has no date to compare, so a
bounded report leaves it out.
-/

namespace OpenAccounting

open Calendar Commit Relational Rounding

namespace Taxes

/-! ## The joined rows -/

/-- The keys the joins go over. -/
structure Keyed (db : Db) : Prop where
  rate_ids : (db.taxRates.map TaxRate.id).Nodup
  posting_ids : (db.books.postings.map Posting.id).Nodup
  posting_fk : ∀ x ∈ db.postingTaxes, ∃ p ∈ db.books.postings, p.id = x.postingId

/-- The transaction of a tax link. -/
def transactionOf (b : Books) (x : PostingTax) : Option Transaction :=
  (b.postings.find? fun p => p.id = x.postingId).bind fun p => b.findTxn p.transactionId

/-- The links on a rate whose transaction is in the range. -/
def linksOn (db : Db) (fromDate toDate : Option NaiveDate) (r : TaxRate) : List PostingTax :=
  db.postingTaxes.filter fun x =>
    x.taxRateId = r.id ∧ inRange fromDate toDate (transactionOf db.books x)

/-- No date was given. -/
def Unbounded (fromDate toDate : Option NaiveDate) : Prop := fromDate = none ∧ toDate = none

instance (fromDate toDate : Option NaiveDate) : Decidable (Unbounded fromDate toDate) := by
  unfold Unbounded
  infer_instance

/-- A row without a transaction passes only when there is no date to compare. -/
theorem inRange_none {fromDate toDate : Option NaiveDate} :
    inRange fromDate toDate none = true ↔ Unbounded fromDate toDate := by
  cases fromDate <;> cases toDate <;> simp [inRange, Unbounded]

theorem inRange_of_unbounded {fromDate toDate : Option NaiveDate}
    (h : Unbounded fromDate toDate) (t : Option Transaction) : inRange fromDate toDate t = true := by
  obtain ⟨rfl, rfl⟩ := h
  rfl

section Rows

variable {db : Db} {ledger : Uuid} {fromDate toDate : Option NaiveDate}

/-- The rates with their links. -/
abbrev rateRows (db : Db) : List (TaxRate × Option PostingTax) :=
  leftJoin (fun (r : TaxRate) (x : PostingTax) => x.taxRateId = r.id) db.taxRates db.postingTaxes

theorem joinedRows_eq (hkeys : Keyed db) : joinedRows db = (rateRows db).map fun r =>
    ((r, r.2.bind fun x => db.books.postings.find? fun p => p.id = x.postingId),
      r.2.bind (transactionOf db.books)) := by
  have htransactions : ∀ rows : List ((TaxRate × Option PostingTax) × Option Posting),
      leftJoin (fun r (t : Transaction) => r.2.map Posting.transactionId = some t.id) rows
        db.books.transactions =
      rows.map fun r => (r, (r.2.map Posting.transactionId).bind db.books.findTxn) :=
    fun _ => leftJoin_on_key db.books.txn_ids_nodup fun _ _ => Iff.rfl
  have hpostings : leftJoin (fun r (p : Posting) => r.2.map PostingTax.postingId = some p.id)
        (rateRows db) db.books.postings =
      (rateRows db).map fun r => (r, (r.2.map PostingTax.postingId).bind fun id =>
        db.books.postings.find? fun p => p.id = id) :=
    leftJoin_on_key hkeys.posting_ids fun _ _ => Iff.rfl
  rw [joinedRows, htransactions, hpostings, List.map_map]
  refine List.map_congr_left fun r _ => ?_
  obtain ⟨rate, tax⟩ := r
  cases tax with
  | none => rfl
  | some x =>
    simp only [Function.comp_apply, Option.map_some, Option.bind_some, transactionOf]
    rw [Option.bind_map]
    rfl

theorem selectedRows_eq (hkeys : Keyed db) : selectedRows db ledger fromDate toDate =
    ((rateRows db).filter fun r => r.1.ledgerId = ledger ∧
      inRange fromDate toDate (r.2.bind (transactionOf db.books))).map fun r =>
        ((r, r.2.bind fun x => db.books.postings.find? fun p => p.id = x.postingId),
          r.2.bind (transactionOf db.books)) := by
  rw [selectedRows, joinedRows_eq hkeys, List.filter_map]
  rfl

/-- The rates with a row: all of the ledger, or those with a link in the range. -/
theorem mem_selected_rates (hkeys : Keyed db) {r : TaxRate} :
    r ∈ (selectedRows db ledger fromDate toDate).map (fun r => r.1.1.1) ↔
      r ∈ db.taxRates ∧ r.ledgerId = ledger ∧
        (Unbounded fromDate toDate ∨ linksOn db fromDate toDate r ≠ []) := by
  have hrow : r ∈ (selectedRows db ledger fromDate toDate).map (fun r => r.1.1.1) ↔
      ∃ x, (r, x) ∈ rateRows db ∧ r.ledgerId = ledger ∧
        inRange fromDate toDate (x.bind (transactionOf db.books)) = true := by
    rw [selectedRows_eq hkeys, List.map_map]
    constructor
    · intro h
      obtain ⟨⟨rate, x⟩, hmem, rfl⟩ := List.mem_map.mp h
      obtain ⟨hmem, hwhere⟩ := List.mem_filter.mp hmem
      exact ⟨x, hmem, (of_decide_eq_true hwhere).1, (of_decide_eq_true hwhere).2⟩
    · rintro ⟨x, hmem, hledger, hrange⟩
      exact List.mem_map.mpr
        ⟨(r, x), List.mem_filter.mpr ⟨hmem, decide_eq_true ⟨hledger, hrange⟩⟩, rfl⟩
  rw [hrow]
  constructor
  · rintro ⟨x, hmem, hledger, hrange⟩
    have hfst : r ∈ (rateRows db).map Prod.fst := List.mem_map_of_mem (f := Prod.fst) hmem
    have hr : r ∈ db.taxRates := mem_map_fst_leftJoin.mp hfst
    refine ⟨hr, hledger, ?_⟩
    cases x with
    | none => exact Or.inl (inRange_none.mp hrange)
    | some x =>
      obtain ⟨-, hx, hon⟩ := mem_leftJoin_some.mp hmem
      have hlink : x ∈ linksOn db fromDate toDate r :=
        List.mem_filter.mpr ⟨hx, decide_eq_true ⟨hon, hrange⟩⟩
      exact Or.inr (List.ne_nil_of_mem hlink)
  · rintro ⟨hr, hledger, hunbounded | hlinks⟩
    · have hfst : r ∈ (rateRows db).map Prod.fst := mem_map_fst_leftJoin.mpr hr
      obtain ⟨⟨rate, x⟩, hmem, rfl⟩ := List.mem_map.mp hfst
      exact ⟨x, hmem, hledger, inRange_of_unbounded hunbounded _⟩
    · obtain ⟨x, hx⟩ := List.exists_mem_of_ne_nil _ hlinks
      obtain ⟨hx, hwhere⟩ := List.mem_filter.mp hx
      obtain ⟨hon, hrange⟩ := of_decide_eq_true hwhere
      exact ⟨some x, mem_leftJoin_some.mpr ⟨hr, hx, hon⟩, hledger, hrange⟩

/-- The links that are joined to a rate are those in the range. -/
theorem group_links (hkeys : Keyed db) {r : TaxRate} (hr : r ∈ db.taxRates)
    (hledger : r.ledgerId = ledger) :
    ((selectedRows db ledger fromDate toDate).filter fun row => row.1.1.1 = r).filterMap
      (fun row => row.1.1.2) = linksOn db fromDate toDate r := by
  have hone : (db.taxRates.filter fun rate => rate = r) = [r] := by
    have hnodup : (db.taxRates.map id).Nodup := by
      rw [List.map_id]
      exact List.Nodup.of_map _ hkeys.rate_ids
    have hself := filter_key hnodup hr fun _ => True
    simpa using hself
  have hpartners : ((rateRows db).filter fun row => row.1 = r).filterMap Prod.snd =
      db.postingTaxes.filter fun x => x.taxRateId = r.id := by
    rw [rateRows, filter_leftJoin (p := fun rate => rate = r), hone, leftJoin,
      List.flatMap_singleton, filterMap_snd_leftMatches]
  rw [selectedRows_eq hkeys, List.filter_map, List.filterMap_map, linksOn]
  have hswap : (((rateRows db).filter fun row => row.1.ledgerId = ledger ∧
      inRange fromDate toDate (row.2.bind (transactionOf db.books))).filter
        fun row => row.1 = r).filterMap Prod.snd =
      (db.postingTaxes.filter fun x => x.taxRateId = r.id).filter fun x =>
        inRange fromDate toDate (transactionOf db.books x) := by
    rw [List.filter_comm, filterMap_snd_filter (q := fun x =>
      inRange fromDate toDate (transactionOf db.books x)), hpartners]
    intro row hrow x hx
    have hrate : row.1 = r := by simpa using (List.mem_filter.mp hrow).2
    rw [hrate, hx]
    simp [hledger]
  refine hswap.trans ?_
  rw [List.filter_filter]
  refine List.filter_congr fun x _ => ?_
  simp [Bool.and_comm]

theorem mem_report (hkeys : Keyed db) {s : TaxSummary} :
    s ∈ report db ledger fromDate toDate ↔ ∃ r ∈ db.taxRates, r.ledgerId = ledger ∧
      (Unbounded fromDate toDate ∨ linksOn db fromDate toDate r ≠ []) ∧
      s = summarize r (linksOn db fromDate toDate r) := by
  rw [report, mem_orderBy, List.mem_map]
  constructor
  · rintro ⟨g, hg, rfl⟩
    obtain ⟨hrate, hrows⟩ := mem_groupBy.mp hg
    obtain ⟨hr, hledger, hshown⟩ := (mem_selected_rates hkeys).mp hrate
    exact ⟨g.1, hr, hledger, hshown, by rw [hrows, group_links hkeys hr hledger]⟩
  · rintro ⟨r, hr, hledger, hshown, rfl⟩
    refine ⟨(r, (selectedRows db ledger fromDate toDate).filter fun row => row.1.1.1 = r),
      mem_groupBy.mpr ⟨(mem_selected_rates hkeys).mpr ⟨hr, hledger, hshown⟩, rfl⟩, ?_⟩
    rw [group_links hkeys hr hledger]

end Rows

/-! ## Totals -/

/-- `total_base` and `total_tax` of a rate, zero for one that the rows leave out. -/
def totals (rows : List TaxSummary) (rate : Uuid) : ℚ × ℚ :=
  match rows.find? fun s => s.id = rate with
  | some s => (s.totalBase, s.totalTax)
  | none => (0, 0)

section Totals

variable {db : Db} {ledger : Uuid} {fromDate toDate : Option NaiveDate}

theorem totals_report (hkeys : Keyed db) {r : TaxRate} (hr : r ∈ db.taxRates)
    (hledger : r.ledgerId = ledger) : totals (report db ledger fromDate toDate) r.id =
      (((linksOn db fromDate toDate r).map PostingTax.baseAmount).sum,
        ((linksOn db fromDate toDate r).map PostingTax.taxAmount).sum) := by
  rw [totals]
  split
  · next s hs =>
      obtain ⟨hmem, hid⟩ := mem_of_find?_key hs
      obtain ⟨r', hr', -, -, rfl⟩ := (mem_report hkeys).mp hmem
      rw [List.inj_on_of_nodup_map hkeys.rate_ids hr' hr hid]
      rfl
  · next hnone =>
      have hnil : linksOn db fromDate toDate r = [] := by
        by_contra hlinks
        have hmem := (mem_report hkeys).mpr ⟨r, hr, hledger, Or.inr hlinks, rfl⟩
        exact absurd (decide_eq_true rfl) (List.find?_eq_none.mp hnone _ hmem)
      rw [hnil]
      rfl

theorem totals_report_of_not (hkeys : Keyed db) {rate : Uuid}
    (hnot : ∀ r ∈ db.taxRates, r.ledgerId = ledger → r.id ≠ rate) :
    totals (report db ledger fromDate toDate) rate = (0, 0) := by
  rw [totals]
  split
  · next s hs =>
      obtain ⟨hmem, hid⟩ := mem_of_find?_key hs
      obtain ⟨r, hr, hledger, -, rfl⟩ := (mem_report hkeys).mp hmem
      exact absurd hid (hnot r hr hledger)
  · rfl

end Totals

/-! ## What an entry adds -/

section Entered

variable {db db' : Db} {xs : List PostingTax} {ledger : Uuid}
  {fromDate toDate : Option NaiveDate}

theorem transactionOf_appends {b b' : Books} (h : b.Appends b') {x : PostingTax}
    (hx : ∃ p ∈ b.postings, p.id = x.postingId) : transactionOf b' x = transactionOf b x := by
  obtain ⟨ps, hps⟩ := h.postings
  obtain ⟨ts, hts⟩ := h.transactions
  obtain ⟨p, hfind⟩ : ∃ p, b.postings.find? (fun p => p.id = x.postingId) = some p := by
    rw [← Option.isSome_iff_exists, List.find?_isSome]
    obtain ⟨p, hp, hid⟩ := hx
    exact ⟨p, hp, decide_eq_true hid⟩
  obtain ⟨t, ht, hid⟩ := List.mem_map.mp
    (b.posting_txn_fk p (List.mem_of_find?_eq_some hfind))
  have hfound : b.findTxn p.transactionId = some t := by
    rw [← hid]
    exact Books.findTxn_of_mem ht
  rw [transactionOf, transactionOf, hps, List.find?_append, hfind]
  simp only [Option.some_or, Option.bind_some]
  rw [hfound, ← hid]
  exact Books.findTxn_of_mem (h.mem_transactions ht)

theorem Keyed.enters (hkeys : Keyed db) (h : db.Enters db' xs)
    (hxs : ∀ x ∈ xs, ∃ p ∈ db'.books.postings, p.id = x.postingId) : Keyed db' where
  rate_ids := by
    rw [h.taxRates]
    exact hkeys.rate_ids
  posting_ids := h.appends.posting_ids hkeys.posting_ids
  posting_fk := by
    intro x hx
    rw [h.postingTaxes, List.mem_append] at hx
    rcases hx with hx | hx
    · obtain ⟨p, hp, hid⟩ := hkeys.posting_fk x hx
      exact ⟨p, h.appends.mem_postings hp, hid⟩
    · exact hxs x hx

theorem linksOn_enters (hkeys : Keyed db) (h : db.Enters db' xs)
    (hrange : ∀ x ∈ xs, inRange fromDate toDate (transactionOf db'.books x) = true)
    (r : TaxRate) : linksOn db' fromDate toDate r =
      linksOn db fromDate toDate r ++ xs.filter fun x => x.taxRateId = r.id := by
  rw [linksOn, h.postingTaxes, List.filter_append, linksOn]
  congr 1
  · refine List.filter_congr fun x hx => ?_
    rw [transactionOf_appends h.appends (hkeys.posting_fk x hx)]
  · refine List.filter_congr fun x hx => ?_
    simp [hrange x hx]

theorem transactionOf_entered (hkeys : Keyed db') {t : Transaction}
    (ht : t ∈ db'.books.transactions) {x : PostingTax}
    (hx : ∃ p ∈ db'.books.postings, p.id = x.postingId ∧ p.transactionId = t.id) :
    transactionOf db'.books x = some t := by
  obtain ⟨p, hp, hid, htxn⟩ := hx
  rw [transactionOf, ← hid, find?_key_eq_some hkeys.posting_ids hp, Option.bind_some, htxn]
  exact Books.findTxn_of_mem ht

end Entered

/-- What the links of a request add to a rate, as the table keeps them. -/
def linkTotals (links : List TaxLink) (rate : Uuid) : ℚ × ℚ :=
  (((links.filter fun l => l.taxRateId = rate).map fun l => roundDp 4 l.baseAmount).sum,
    ((links.filter fun l => l.taxRateId = rate).map fun l => roundDp 4 l.taxAmount).sum)

theorem linkTotals_of_stored {links : List TaxLink} {xs : List PostingTax} (rate : Uuid)
    (h : List.Forall₂ TaxLink.Stored links xs) :
    (((xs.filter fun x => x.taxRateId = rate).map PostingTax.baseAmount).sum,
      ((xs.filter fun x => x.taxRateId = rate).map PostingTax.taxAmount).sum) =
      linkTotals links rate := by
  rw [linkTotals]
  induction h with
  | nil => rfl
  | @cons link x links xs hx _ ih =>
    obtain ⟨hbase, htax⟩ := Prod.mk.inj ih
    rw [List.filter_cons, List.filter_cons, hx.taxRateId]
    by_cases hrate : link.taxRateId = rate
    · simp [hrate, hbase, htax, hx.baseAmount, hx.taxAmount]
    · simp [hrate, hbase, htax]

/-! ## Following the books -/

/-- The links on a rate in the range that belong to reportable transactions. -/
def reportableLinks (db : Db) (fromDate toDate : Option NaiveDate) (r : TaxRate) :
    List PostingTax :=
  (linksOn db fromDate toDate r).filter fun x =>
    (transactionOf db.books x).any fun t => t.kind.reportable

/-- What the report should do, where `db'` is the database after an entry and its reversal. -/
structure FollowsBooks (db db' : Db) (ledger : Uuid) (fromDate toDate : Option NaiveDate) :
    Prop where
  /-- Only links of reportable transactions count. -/
  reportable : ∀ s ∈ report db ledger fromDate toDate, ∃ r ∈ db.taxRates,
    s = summarize r (reportableLinks db fromDate toDate r)
  /-- The entry and its reversal cancel. -/
  cancelled : ∀ rate, totals (report db' ledger fromDate toDate) rate =
    totals (report db ledger fromDate toDate) rate
  /-- A rate without a link in the range is there, with zeros. -/
  complete : ∀ r ∈ db.taxRates, r.ledgerId = ledger → linksOn db fromDate toDate r = [] →
    summarize r [] ∈ report db ledger fromDate toDate

/-- When it does, for an entry with these links. -/
structure Clean (db : Db) (links : List TaxLink) (ledger : Uuid)
    (fromDate toDate : Option NaiveDate) : Prop where
  /-- No draft and no pending journal in the range has a link. -/
  reportable : ∀ r ∈ db.taxRates, r.ledgerId = ledger → ∀ x ∈ linksOn db fromDate toDate r,
    (transactionOf db.books x).any (fun t => t.kind.reportable) = true
  /-- The links of the entry add nothing to any rate. -/
  links : ∀ r ∈ db.taxRates, r.ledgerId = ledger → linkTotals links r.id = (0, 0)
  /-- There is no date, or every rate has a link in the range. -/
  range : Unbounded fromDate toDate ∨
    ∀ r ∈ db.taxRates, r.ledgerId = ledger → linksOn db fromDate toDate r ≠ []

section Follows

variable {db db₁ db' : Db} {ledger : Uuid} {fromDate toDate : Option NaiveDate}

theorem mem_report_reportable (hkeys : Keyed db)
    (hall : ∀ r ∈ db.taxRates, r.ledgerId = ledger → ∀ x ∈ linksOn db fromDate toDate r,
      (transactionOf db.books x).any (fun t => t.kind.reportable) = true) {s : TaxSummary} :
    s ∈ report db ledger fromDate toDate ↔ ∃ r ∈ db.taxRates, r.ledgerId = ledger ∧
      (Unbounded fromDate toDate ∨ reportableLinks db fromDate toDate r ≠ []) ∧
      s = summarize r (reportableLinks db fromDate toDate r) := by
  rw [mem_report hkeys]
  refine exists_congr fun r => and_congr_right fun hr => and_congr_right fun hledger => ?_
  rw [reportableLinks, List.filter_eq_self.mpr (hall r hr hledger)]

theorem reportable_iff (hkeys : Keyed db) :
    (∀ s ∈ report db ledger fromDate toDate, ∃ r ∈ db.taxRates,
      s = summarize r (reportableLinks db fromDate toDate r)) ↔
    ∀ r ∈ db.taxRates, r.ledgerId = ledger → ∀ x ∈ linksOn db fromDate toDate r,
      (transactionOf db.books x).any (fun t => t.kind.reportable) = true := by
  constructor
  · intro hall r hr hledger x hx
    obtain ⟨r', hr', hsame⟩ := hall _ ((mem_report hkeys).mpr
      ⟨r, hr, hledger, Or.inr (List.ne_nil_of_mem hx), rfl⟩)
    obtain rfl := List.inj_on_of_nodup_map hkeys.rate_ids hr hr' (congrArg TaxSummary.id hsame)
    have hcount : ((linksOn db fromDate toDate r).map PostingTax.postingId).dedup.length =
        ((reportableLinks db fromDate toDate r).map PostingTax.postingId).dedup.length :=
      congrArg TaxSummary.txnCount hsame
    have hsubset : ((reportableLinks db fromDate toDate r).map PostingTax.postingId).dedup ⊆
        ((linksOn db fromDate toDate r).map PostingTax.postingId).dedup := by
      intro id hid
      rw [List.mem_dedup] at hid ⊢
      exact List.map_subset _ (List.filter_subset_self _) hid
    have hperm := (List.subperm_of_subset (List.nodup_dedup _) hsubset).perm_of_length_le
      hcount.le
    have hmem : x.postingId ∈
        ((reportableLinks db fromDate toDate r).map PostingTax.postingId).dedup :=
      hperm.mem_iff.mpr (List.mem_dedup.mpr (List.mem_map_of_mem hx))
    obtain ⟨y, hy, hid⟩ := List.mem_map.mp (List.mem_dedup.mp hmem)
    have htransaction : transactionOf db.books x = transactionOf db.books y := by
      rw [transactionOf, transactionOf, hid]
    rw [htransaction]
    exact (List.mem_filter.mp hy).2
  · intro hall s hs
    obtain ⟨r, hr, -, -, hsum⟩ := (mem_report_reportable hkeys hall).mp hs
    exact ⟨r, hr, hsum⟩

/-- A bounded report shows a rate exactly when it has a link in the range. -/
theorem complete_iff_range (hkeys : Keyed db) :
    (∀ r ∈ db.taxRates, r.ledgerId = ledger → linksOn db fromDate toDate r = [] →
      summarize r [] ∈ report db ledger fromDate toDate) ↔
    Unbounded fromDate toDate ∨
      ∀ r ∈ db.taxRates, r.ledgerId = ledger → linksOn db fromDate toDate r ≠ [] := by
  constructor
  · intro hall
    by_contra hnot
    rw [not_or] at hnot
    obtain ⟨hbounded, hempty⟩ := hnot
    refine hempty fun r hr hledger hnil => ?_
    obtain ⟨r', hr', -, hshown, hsame⟩ := (mem_report hkeys).mp (hall r hr hledger hnil)
    obtain rfl := List.inj_on_of_nodup_map hkeys.rate_ids hr hr' (congrArg TaxSummary.id hsame)
    rcases hshown with hunbounded | hlinks
    · exact hbounded hunbounded
    · exact hlinks hnil
  · rintro (hunbounded | hall) r hr hledger hnil
    · exact (mem_report hkeys).mpr ⟨r, hr, hledger, Or.inl hunbounded, by rw [hnil]⟩
    · exact absurd hnil (hall r hr hledger)

section Reversed

variable {req req' : Request} {new : NewTransaction} {isDraft : Bool} {created : CreatedTransaction}
  {op : Reversal} {r : Uuid} {t : Transaction}

/-- What an entry in the range adds to a rate stays after its reversal. -/
theorem totals_reversed (hkeys : Keyed db)
    (hcreate : PostingService.createWithKind db req new isDraft = (.ok created, db₁))
    (ht : db₁.books.findTxnIn t.id ledger = some t) (hid : t.id = created.id)
    (hrange : inRange fromDate toDate (some t) = true)
    (hreversed : op.Did db₁ db' req' ledger t r) {rate : TaxRate} (hrate : rate ∈ db.taxRates)
    (hledger : rate.ledgerId = ledger) :
    totals (report db' ledger fromDate toDate) rate.id =
      totals (report db ledger fromDate toDate) rate.id + linkTotals new.taxLinks rate.id := by
  obtain ⟨s, xs, hs, hsid, -, henters, hstored, hpostings⟩ :=
    PostingService.createWithKind_enters hcreate
  obtain rfl : s = t :=
    Books.txn_eq_of_id_eq hs (Books.findTxnIn_spec ht).1 (hsid.trans hid.symm)
  have hkeys₁ : Keyed db₁ := hkeys.enters henters fun x hx => by
    obtain ⟨p, hp, hpid, -⟩ := hpostings x hx
    exact ⟨p, hp, hpid⟩
  have hleft := hreversed.enters
  have hkeys' : Keyed db' := hkeys₁.enters hleft nofun
  have hlinks : linksOn db' fromDate toDate rate =
      linksOn db fromDate toDate rate ++ xs.filter fun x => x.taxRateId = rate.id := by
    rw [linksOn_enters hkeys₁ hleft nofun, linksOn_enters hkeys henters, List.filter_nil,
      List.append_nil]
    intro x hx
    rw [transactionOf_entered hkeys₁ hs (hpostings x hx)]
    exact hrange
  have hrate' : rate ∈ db'.taxRates := by
    rw [hleft.taxRates, henters.taxRates]
    exact hrate
  rw [totals_report hkeys hrate hledger, totals_report hkeys' hrate' hledger, hlinks,
    ← linkTotals_of_stored rate.id hstored]
  simp

theorem totals_reversed_of_not (hkeys : Keyed db)
    (hcreate : PostingService.createWithKind db req new isDraft = (.ok created, db₁))
    (hreversed : op.Did db₁ db' req' ledger t r) {rate : Uuid}
    (hnot : ∀ r ∈ db.taxRates, r.ledgerId = ledger → r.id ≠ rate) :
    totals (report db' ledger fromDate toDate) rate = (0, 0) := by
  obtain ⟨s, xs, -, -, -, henters, -, hpostings⟩ := PostingService.createWithKind_enters hcreate
  have hkeys₁ : Keyed db₁ := hkeys.enters henters fun x hx => by
    obtain ⟨p, hp, hpid, -⟩ := hpostings x hx
    exact ⟨p, hp, hpid⟩
  have hleft := hreversed.enters
  refine totals_report_of_not (hkeys₁.enters hleft nofun) ?_
  rw [hleft.taxRates, henters.taxRates]
  exact hnot

/-- The entry and its reversal cancel when the entry has nothing to attribute. -/
theorem cancelled_iff (hkeys : Keyed db)
    (hcreate : PostingService.createWithKind db req new isDraft = (.ok created, db₁))
    (ht : db₁.books.findTxnIn t.id ledger = some t) (hid : t.id = created.id)
    (hrange : inRange fromDate toDate (some t) = true)
    (hreversed : op.Did db₁ db' req' ledger t r) :
    (∀ rate, totals (report db' ledger fromDate toDate) rate =
      totals (report db ledger fromDate toDate) rate) ↔
    ∀ rate ∈ db.taxRates, rate.ledgerId = ledger → linkTotals new.taxLinks rate.id = (0, 0) := by
  constructor
  · intro hall rate hrate hledger
    have hsum := totals_reversed hkeys hcreate ht hid hrange hreversed hrate hledger
    rw [hall] at hsum
    exact left_eq_add.mp hsum
  · intro hzero rate
    by_cases hknown : ∃ r ∈ db.taxRates, r.ledgerId = ledger ∧ r.id = rate
    · obtain ⟨r, hr, hledger, rfl⟩ := hknown
      rw [totals_reversed hkeys hcreate ht hid hrange hreversed hr hledger, hzero r hr hledger]
      exact add_zero _
    · have hnot : ∀ r ∈ db.taxRates, r.ledgerId = ledger → r.id ≠ rate :=
        fun r hr hledger heq => hknown ⟨r, hr, hledger, heq⟩
      rw [totals_report_of_not hkeys hnot, totals_reversed_of_not hkeys hcreate hreversed hnot]

/-- The report follows the books exactly when no link is of a draft or a pending journal, the
entry has no links to cancel, and no rate is left out for its dates. -/
theorem followsBooks_iff (hkeys : Keyed db)
    (hcreate : PostingService.createWithKind db req new isDraft = (.ok created, db₁))
    (ht : db₁.books.findTxnIn t.id ledger = some t) (hid : t.id = created.id)
    (hrange : inRange fromDate toDate (some t) = true)
    (hreversed : op.Did db₁ db' req' ledger t r) :
    FollowsBooks db db' ledger fromDate toDate ↔
      Clean db new.taxLinks ledger fromDate toDate := by
  have hcancelled := cancelled_iff hkeys hcreate ht hid hrange hreversed
  constructor
  · intro hfollows
    exact
      { reportable := (reportable_iff hkeys).mp hfollows.reportable
        links := hcancelled.mp hfollows.cancelled
        range := (complete_iff_range hkeys).mp hfollows.complete }
  · intro hclean
    exact
      { reportable := (reportable_iff hkeys).mpr hclean.reportable
        cancelled := hcancelled.mpr hclean.links
        complete := (complete_iff_range hkeys).mpr hclean.range }

end Reversed

end Follows

/-- As long as only reportable transactions have links, the rows of the report are the rates with
the sums of these links.  An entry that is reversed keeps its attribution, and without dates every
rate is listed. -/
theorem report_keeps_attribution {db db₁ db' : Db} {req req' : Request} {new : NewTransaction}
    {isDraft : Bool} {created : CreatedTransaction} {op : Reversal} {ledger r : Uuid}
    {t : Transaction} {fromDate toDate : Option NaiveDate} (hkeys : Keyed db)
    (hcreate : PostingService.createWithKind db req new isDraft = (.ok created, db₁))
    (ht : db₁.books.findTxnIn t.id ledger = some t) (hid : t.id = created.id)
    (hrange : inRange fromDate toDate (some t) = true)
    (hreversed : op.Did db₁ db' req' ledger t r) :
    ((∀ rate ∈ db.taxRates, rate.ledgerId = ledger → ∀ x ∈ linksOn db fromDate toDate rate,
        (transactionOf db.books x).any (fun t => t.kind.reportable) = true) →
      ∀ s, s ∈ report db ledger fromDate toDate ↔ ∃ rate ∈ db.taxRates, rate.ledgerId = ledger ∧
        (Unbounded fromDate toDate ∨ reportableLinks db fromDate toDate rate ≠ []) ∧
        s = summarize rate (reportableLinks db fromDate toDate rate)) ∧
    (∀ rate ∈ db.taxRates, rate.ledgerId = ledger →
      totals (report db' ledger fromDate toDate) rate.id =
        totals (report db ledger fromDate toDate) rate.id + linkTotals new.taxLinks rate.id) ∧
    (Unbounded fromDate toDate → ∀ rate ∈ db.taxRates, rate.ledgerId = ledger →
      linksOn db fromDate toDate rate = [] →
        summarize rate [] ∈ report db ledger fromDate toDate) :=
  ⟨fun hall _ => mem_report_reportable hkeys hall,
    fun _ hrate hledger => totals_reversed hkeys hcreate ht hid hrange hreversed hrate hledger,
    fun hunbounded => (complete_iff_range hkeys).mpr (Or.inl hunbounded)⟩

end Taxes

namespace Sample

/-- The cash sale of 100.00 with its VAT, as the form hands it over. -/
def vatSale : NewTransaction where
  ledgerId := ledgerId
  txnDate := march 10
  description := "Sale"
  createdBy := owner
  lines := [{ accountId := cash, signedAmount := 110 }, { accountId := sales, signedAmount := -100 },
    { accountId := vatPayable, signedAmount := -10 }]
  taxLinks := [{ postingIdx := 1, taxRateId := 51, baseAmount := 100, taxAmount := 10 }]

def vatBooked : Db := (PostingService.createWithKind vatDb (request 1) vatSale false).2

def vatRow : Transaction :=
  PostingService.txnRow (request 1) { id := ledgerId, ownerId := owner } vatSale .standard
    (some "2026-000001")

/-- The ledger after its reversal. -/
def vatReversed : Db :=
  (TransactionsEdit.reverse vatBooked (request 2) (some owner) ledgerId 1000).2

theorem keyed_vatDb : Taxes.Keyed vatDb where
  rate_ids := by decide
  posting_ids := List.nodup_nil
  posting_fk := nofun

theorem vatSale_created : PostingService.createWithKind vatDb (request 1) vatSale false =
    (.ok { id := 1000, kind := .standard, number := some "2026-000001" }, vatBooked) :=
  Prod.ext (by decide +kernel) rfl

theorem vatRow_found : vatBooked.books.findTxnIn vatRow.id ledgerId = some vatRow := by
  decide +kernel

theorem vatSale_reversed : (Reversal.reverse (some owner)).Did vatBooked vatReversed (request 2)
    ledgerId vatRow 2000 :=
  ⟨Prod.ext (by decide +kernel) rfl, by decide +kernel⟩

example : Taxes.totals (Taxes.report vatReversed ledgerId none none) 51 = (100, 10) := by
  decide +kernel

end Sample

namespace Taxes

/-- The taxed sale and its reversal, in a report without dates. -/
theorem report_keeps_attribution_sale :
    totals (report Sample.vatReversed Sample.ledgerId none none) 51 =
      totals (report Sample.vatDb Sample.ledgerId none none) 51 + (100, 10) := by
  obtain ⟨-, htotals, -⟩ := @report_keeps_attribution _ _ _ _ _ _ _ _ _ _ _ _ none none
    Sample.keyed_vatDb Sample.vatSale_created Sample.vatRow_found rfl rfl Sample.vatSale_reversed
  have hlinks : linkTotals Sample.vatSale.taxLinks 51 = (100, 10) := by decide +kernel
  rw [← hlinks]
  exact htotals Sample.vat List.mem_cons_self rfl

/-- The base and the tax of a reversed sale stay in the report. -/
theorem not_followsBooks :
    ¬ ∀ (db db₁ db' : Db) (req req' : Request) (new : NewTransaction) (isDraft : Bool)
        (created : CreatedTransaction) (op : Reversal) (ledger r : Uuid) (t : Transaction)
        (fromDate toDate : Option NaiveDate), Keyed db →
      PostingService.createWithKind db req new isDraft = (.ok created, db₁) →
      db₁.books.findTxnIn t.id ledger = some t → t.id = created.id →
      inRange fromDate toDate (some t) = true → op.Did db₁ db' req' ledger t r →
      FollowsBooks db db' ledger fromDate toDate := by
  intro hall
  have hfollows := hall Sample.vatDb Sample.vatBooked Sample.vatReversed (Sample.request 1)
    (Sample.request 2) Sample.vatSale false _ (.reverse (some Sample.owner)) Sample.ledgerId 2000
    Sample.vatRow none none Sample.keyed_vatDb Sample.vatSale_created Sample.vatRow_found rfl rfl
    Sample.vatSale_reversed
  have hlinks := (cancelled_iff Sample.keyed_vatDb Sample.vatSale_created Sample.vatRow_found rfl
    rfl Sample.vatSale_reversed).mp hfollows.cancelled Sample.vat List.mem_cons_self rfl
  exact absurd hlinks (by decide +kernel)

end Taxes

end OpenAccounting
