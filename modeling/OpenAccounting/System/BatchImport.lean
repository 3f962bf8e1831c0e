import OpenAccounting.Handlers.Import
import OpenAccounting.System.JournalOps

/-!
# Imports that are all or nothing

The rows that can be read are inserted while those that cannot are still being collected.  Both ways
out of the loop end the database transaction: `insertRows_allOrNothing` says that either every row
that is not skipped has its entry, in order, or nothing has changed.  The column of an amount keeps
four decimals.
-/

namespace OpenAccounting.Import

open Calendar Commit Rounding

/-- A transaction with a debit and a credit. -/
structure Entry where
  txn : Transaction
  debit : Posting
  credit : Posting

/-- The rows that are not skipped as duplicates. -/
def taken (b : Batch) (rows : List ParsedRow) : List ParsedRow :=
  rows.filter fun row => ¬ (b.skipDuplicates && row.isDuplicate)

/-- The amount of a row, and the accounts of its debit and its credit: cash out is credited to the
cash account and cash in is debited to it. -/
inductive Moves (lib : RowReaders) (b : Batch) (cash : Uuid) (row : ParsedRow) :
    ℚ → Uuid → Uuid → Prop where
  | cashOut {a : ℚ} : RustStr.trim row.debit ≠ "" → RustStr.trim row.credit = "" →
      lib.parseDecimal (RustStr.trim row.debit) = .ok a →
      Moves lib b cash row a (otherAccount lib b row) cash
  | cashIn {a : ℚ} : RustStr.trim row.debit = "" → RustStr.trim row.credit ≠ "" →
      lib.parseDecimal (RustStr.trim row.credit) = .ok a →
      Moves lib b cash row a cash (otherAccount lib b row)

/-- The entry of a row, whose amount is stored as `stored` says. -/
structure EntryOf (stored : ℚ → ℚ) (lib : RowReaders) (b : Batch) (cash : Uuid) (row : ParsedRow)
    (e : Entry) : Prop where
  ledger : e.txn.ledgerId = b.ledgerId
  date : lib.parseDate row.date = .ok e.txn.txnDate
  description : e.txn.description = row.description
  owned : e.debit.transactionId = e.txn.id ∧ e.credit.transactionId = e.txn.id
  directions : e.debit.direction = .debit ∧ e.credit.direction = .credit
  amounts : ∃ a, 0 < a ∧ e.debit.amount = stored a ∧ e.credit.amount = stored a ∧
    Moves lib b cash row a e.debit.accountId e.credit.accountId

/-- These entries, and nothing else, have been added. -/
structure Added (db db' : Db) (entries : List Entry) : Prop where
  rest : db' = { db with books := db'.books }
  accounts : db'.books.accounts = db.books.accounts
  transactions : db'.books.transactions = db.books.transactions ++ entries.map Entry.txn
  postings : db'.books.postings = db.books.postings ++ entries.flatMap fun e => [e.debit, e.credit]

theorem Added.refl (db : Db) : Added db db [] := by
  constructor <;> simp

theorem Added.trans {db db' db'' : Db} {es es' : List Entry} (h : Added db db' es)
    (h' : Added db' db'' es') : Added db db'' (es ++ es') where
  rest := by
    rw [h'.rest, h.rest]
  accounts := h'.accounts.trans h.accounts
  transactions := by
    rw [h'.transactions, h.transactions, List.map_append, List.append_assoc]
  postings := by
    rw [h'.postings, h.postings, List.flatMap_append, List.append_assoc]

/-- Either all rows that are not skipped have been inserted, or nothing has. -/
def AllOrNothing (stored : ℚ → ℚ) (lib : RowReaders) (req : Request) (b : Batch) (out : Outages)
    (db : Db) (rows : List ParsedRow) : Prop :=
  match insertRows lib req b out db rows with
  | (.ok n, db') => n = (taken b rows).length ∧ ∃ entries, Added db db' entries ∧
      List.Forall₂ (EntryOf stored lib b (cashAccount b db)) (taken b rows) entries
  | (.error _, db') => db' = db

theorem cashAccount_mem {b : Batch} {db : Db} (h : b.cashFallbackId ∈ db.books.accountIds) :
    cashAccount b db ∈ db.books.accountIds := by
  rw [cashAccount]
  generalize hfound : Option.or _ _ = found
  cases found with
  | none => exact h
  | some a =>
    have hmem : a ∈ Relational.orderBy Account.codeKey
        (db.books.accounts.filter fun a => a.ledgerId = b.ledgerId ∧ a.type = .asset) := by
      rcases Option.or_eq_some_iff.mp hfound with hcash | ⟨-, hname⟩
      · exact List.mem_of_find?_eq_some hcash
      · exact List.mem_of_find?_eq_some hname
    exact List.mem_map_of_mem (List.mem_of_mem_filter (Relational.mem_orderBy.mp hmem))

/-! ## One row -/

section

variable {lib : RowReaders} {req : Request} {b : Batch} {out : Outages} {cash : Uuid}
  {row : ParsedRow}

theorem readRow_ok {m : Movement} (h : readRow lib row = .ok m) :
    0 < m.amount ∧ lib.parseDate row.date = .ok m.date ∧
      Moves lib b cash row m.amount (sides lib b cash row m).1 (sides lib b cash row m).2 := by
  simp only [readRow, bind_eq_ok, ensure_eq_ok] at h
  obtain ⟨-, -, -, hset, -, hone, a, hamount, -, hpos, d, hdate, h⟩ := h
  cases h
  refine ⟨hpos, mapError_eq_ok.mp hdate, ?_⟩
  by_cases hdebit : RustStr.trim row.debit = ""
  · rw [readAmount, if_pos hdebit, mapError_eq_ok] at hamount
    simp only [sides, hdebit, ne_eq, not_true_eq_false, decide_false, Bool.false_eq_true, if_false]
    exact .cashIn hdebit (fun hcredit => hset ⟨hdebit, hcredit⟩) hamount
  · rw [readAmount, if_neg hdebit, mapError_eq_ok] at hamount
    simp only [sides, hdebit, ne_eq, not_false_eq_true, decide_true, if_true]
    exact .cashOut hdebit (hone.resolve_left hdebit) hamount

/-- A turn that notes nothing passes over a duplicate or writes the entry of the row. -/
theorem insertRow_spec {p p' : Progress} (h : insertRow lib req b out cash p row = .ok p')
    (hfailed : p'.failed = []) : p.failed = [] ∧
      p'.created = p.created + (taken b [row]).length ∧ ∃ entries, Added p.db p'.db entries ∧
        List.Forall₂ (EntryOf (roundDp 4) lib b cash) (taken b [row]) entries := by
  rw [insertRow] at h
  split at h
  · next hskip =>
      cases h
      have htaken : taken b [row] = [] := by simpa [taken] using hskip
      rw [htaken]
      exact ⟨hfailed, rfl, [], .refl _, .nil⟩
  · next hskip =>
      have htaken : taken b [row] = [row] := List.filter_eq_self.mpr fun r hr => by
        rw [List.mem_singleton.mp hr, decide_eq_true_eq]
        exact hskip
      rw [htaken]
      split at h
      · cases h
        simp at hfailed
      · next m hread =>
          simp only [bind_eq_ok, ensure_eq_ok, mapError_eq_ok] at h
          obtain ⟨-, -, -, -, db', hinsert, h⟩ := h
          cases h
          obtain ⟨hpos, hdate, hmoves⟩ : 0 < m.amount ∧ lib.parseDate row.date = .ok m.date ∧
              Moves lib b cash row m.amount (sides lib b cash row m).1 (sides lib b cash row m).2 :=
            readRow_ok hread
          have howned : ∀ r ∈ rowLegs lib req b cash p.created row m,
              r.transactionId = (rowTxn req b p.created row m.date).id := by
            intro r hr
            simp only [rowLegs, List.mem_cons, List.not_mem_nil, or_false] at hr
            rcases hr with rfl | rfl <;> rfl
          obtain ⟨b', ps, rfl, hposts, hwritten⟩ := Db.insertEntry_written howned hinsert
          cases hwritten with
          | cons hdebit hwritten =>
          cases hwritten with
          | cons hcredit hwritten =>
          cases hwritten
          next debit credit =>
          refine ⟨hfailed, rfl, [⟨rowTxn req b p.created row m.date, debit, credit⟩],
            ⟨rfl, hposts.accounts, hposts.transactions, hposts.postings⟩, .cons ?_ .nil⟩
          exact {
            ledger := rfl
            date := hdate
            description := rfl
            owned := ⟨hdebit.stored.transactionId, hcredit.stored.transactionId⟩
            directions := ⟨hdebit.stored.direction, hcredit.stored.direction⟩
            amounts := ⟨m.amount, hpos, hdebit.stored.amount, hcredit.stored.amount,
              hdebit.stored.accountId ▸ hcredit.stored.accountId ▸ hmoves⟩ }

/-- A run in which no row fails has one entry for each row that is not skipped. -/
theorem insertRow_run {p p' : Progress} {rows : List ParsedRow}
    (h : rows.foldlM (insertRow lib req b out cash) p = .ok p') (hfailed : p'.failed = []) :
    p.failed = [] ∧ p'.created = p.created + (taken b rows).length ∧
      ∃ entries, Added p.db p'.db entries ∧
        List.Forall₂ (EntryOf (roundDp 4) lib b cash) (taken b rows) entries := by
  induction rows generalizing p with
  | nil =>
    cases h
    exact ⟨hfailed, rfl, [], .refl _, .nil⟩
  | cons row rows ih =>
    rw [List.foldlM_cons] at h
    obtain ⟨p₁, hrow, hrest⟩ := bind_eq_ok.mp h
    obtain ⟨hfailed₁, hcreated, entries, hadded, hentries⟩ := ih hrest
    obtain ⟨hfailed₀, hcreated₀, first, hfirst, hfirsts⟩ := insertRow_spec hrow hfailed₁
    have htaken : taken b (row :: rows) = taken b [row] ++ taken b rows :=
      List.filter_append [row] rows
    refine ⟨hfailed₀, ?_, first ++ entries, hfirst.trans hadded, ?_⟩
    · rw [hcreated, hcreated₀, htaken, List.length_append, Nat.add_assoc]
    · rw [htaken]
      exact List.rel_append hfirsts hentries

end

/-- An import is all or nothing, with the amounts as their column keeps them. -/
theorem insertRows_allOrNothing (lib : RowReaders) (req : Request) (b : Batch) (out : Outages)
    (db : Db) (rows : List ParsedRow) : AllOrNothing (roundDp 4) lib req b out db rows := by
  rw [AllOrNothing]
  cases hrun : insertRows lib req b out db rows with
  | mk answer db' =>
    obtain ⟨⟨e, rfl⟩, rfl⟩ | ⟨n, rfl, hbody⟩ := commit_eq hrun
    · rfl
    · simp only [bind_eq_ok, ensure_eq_ok] at hbody
      obtain ⟨p, hloop, -, hfailed, -, -, hbody⟩ := hbody
      cases hbody
      obtain ⟨-, hcreated, hentries⟩ := insertRow_run hloop hfailed
      exact ⟨by simpa using hcreated, hentries⟩

namespace Sample

open OpenAccounting.Sample

/-- The texts of the row below, read as the libraries read them. -/
def readers : RowReaders where
  parseDate s := if s = "2026-03-10" then .ok (march 10) else .error "premature end of input"
  parseDecimal s := if s = "1.00005" then .ok (100005 / 100000) else .error "Invalid decimal: empty"
  parseUuid _ := none

def batch : Batch where
  ledgerId := ledgerId
  userId := owner
  cashFallbackId := cash
  expenseAccountId := sales
  skipDuplicates := true

def interest : ParsedRow where
  date := "2026-03-10"
  description := "Interest"
  debit := ""
  credit := "1.00005"

def movement : Movement where
  date := march 10
  amount := 100005 / 100000
  cashOut := false

theorem readRow_interest : readRow readers interest = .ok movement := by
  have hparse : readers.parseDecimal "1.00005" = .ok (100005 / 100000) := rfl
  have hamount : readAmount readers interest = .ok (100005 / 100000) := by
    rw [readAmount, if_pos (by decide)]
    exact congrArg (mapError _) hparse
  have hpos : (0 : ℚ) < 100005 / 100000 := by norm_num
  rw [readRow, hamount]
  simp only [ok_bind, ensure, if_pos hpos]
  rfl

section

variable {account : Uuid} (haccount : account ∈ db.books.accountIds)

theorem fits_interest : ∀ r ∈ rowLegs readers (request 1) batch account 0 interest movement,
    r.FitsColumns := by
  have htwo : (amountColumn 2).isSome := by
    rw [amountColumn, numeric, roundDp_of_hasScale ⟨20000, by norm_num⟩, if_pos (by norm_num)]
    rfl
  have hamount : (amountColumn movement.amount).isSome :=
    numeric_isSome_of_abs_le (by norm_num [movement, abs_of_pos]) htwo
  have hpositive : 0 < roundDp 4 movement.amount :=
    (roundDp_pos_iff (by norm_num [movement])).mpr (by norm_num [movement])
  intro r hr
  simp only [rowLegs, List.mem_cons, List.not_mem_nil, or_false] at hr
  rcases hr with rfl | rfl
  · exact ⟨hamount, hpositive, fun _ hx => by cases hx⟩
  · exact ⟨hamount, hpositive, fun _ hx => by cases hx⟩

include haccount

theorem insertEntry_interest : ∃ db',
    db.insertEntry (rowTxn (request 1) batch 0 interest (march 10))
      (rowLegs readers (request 1) batch account 0 interest movement) = .ok db' := by
  have hlegs : ∀ r ∈ rowLegs readers (request 1) batch account 0 interest movement,
      r.transactionId = (request 1).txnId 0 ∧ r.accountId ∈ db.books.accountIds := by
    intro r hr
    simp only [rowLegs, List.mem_cons, List.not_mem_nil, or_false] at hr
    rcases hr with rfl | rfl
    · exact ⟨rfl, haccount⟩
    · have hsales : sales ∈ db.books.accountIds := by decide
      exact ⟨rfl, hsales⟩
  refine (Db.insertEntry_ok_iff fun r hr => (hlegs r hr).1).mpr
    ⟨⟨by decide, by decide, by decide, by decide, by decide, by decide⟩,
      fits_interest, fun r hr => (hlegs r hr).2, fun _ _ p hp => (nomatch hp), ?_, fun _ => ?_⟩
  · have hids : [(request 1).postingId 0 0, (request 1).postingId 0 1].Nodup := by decide
    exact hids
  · exact (Db.triggerPasses_take_iff fits_interest le_rfl).mpr ⟨rfl, by
      simp [rowLegs, PostingRow.sumOn]⟩

end

theorem insertRows_interest : ∃ db', (insertRows readers (request 1) batch {} db [interest]) =
    (.ok 1, db') := by
  have haccount : cashAccount batch db ∈ db.books.accountIds := cashAccount_mem (by decide)
  obtain ⟨db', hdb⟩ := insertEntry_interest haccount
  have hstep : insertRow readers (request 1) batch {} (cashAccount batch db) { db := db } interest =
      .ok { created := 1, db := db' } := by
    have hstorable : Storable interest (march 10) := by decide
    rw [insertRow, if_neg (by decide), readRow_interest]
    simp only [bind_eq_ok, ensure_eq_ok, mapError_eq_ok]
    exact ⟨(), trivial, (), hstorable, db', hdb, rfl⟩
  refine ⟨db', ?_⟩
  rw [insertRows, commit_eq_ok, List.foldlM_cons, hstep]
  rfl

/-- The amount of a row with five decimals is not that of its postings. -/
theorem not_allOrNothing_interest :
    ¬ AllOrNothing (fun a => a) readers (request 1) batch {} db [interest] := by
  obtain ⟨db', hrun⟩ := insertRows_interest
  rw [AllOrNothing, hrun]
  rintro ⟨-, entries, -, hentries⟩
  obtain ⟨e, -, hentry, -, -⟩ := List.forall₂_cons_left_iff.mp hentries
  obtain ⟨a, -, hdebit, -, hmoves⟩ := hentry.amounts
  have hread : readers.parseDecimal (RustStr.trim interest.credit) = .ok (100005 / 100000) := rfl
  have ha : a = 100005 / 100000 := by
    generalize e.debit.accountId = d at hmoves
    generalize e.credit.accountId = c at hmoves
    cases hmoves with
    | cashOut hne => exact absurd (by decide) hne
    | cashIn _ _ hparse => exact Except.ok.inj (hparse.symm.trans hread)
  obtain ⟨k, hk⟩ := e.debit.amount_scale
  rw [hdebit, ha] at hk
  have hdouble : (2 * k : ℚ) = 20001 := by
    norm_num at hk
    linarith
  have hint : 2 * k = 20001 := by exact_mod_cast hdouble
  omega

end Sample

end OpenAccounting.Import
