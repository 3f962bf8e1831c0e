import OpenAccounting.Domain.PostingStatements
import OpenAccounting.System.JournalOps

/-!
# Four ways to write the same journal

A journal of positive debits and credits can reach the books through `create` of the posting
service, through the API, as the corrected entry of an edit and as an occurrence of a template.
The first two compare the totals in code.  The first disables the trigger for its own rows and
leaves it disabled; the others insert row by row under the trigger as they find it, which tests
every prefix of two rows or more.

So the API, the edit and the template take two lines at most while the trigger is enabled, and
the edit and the template take any lines while it is disabled.  `accepted_iff` says when all four
accept exactly the journals that balance.
-/

namespace OpenAccounting

open Calendar Commit Rounding

/-- A line of a journal. -/
structure Leg where
  accountId : Uuid
  direction : Direction
  amount : ℚ
  amount_pos : 0 < amount := by decide +kernel
  /-- At most four decimals. -/
  amount_scale : HasScale 4 amount := by decide +kernel

/-- A journal before it is written. -/
structure JournalEntry where
  ledgerId : Uuid
  date : NaiveDate
  description : String
  payee : Option String := none
  reference : Option String := none
  legs : List Leg

namespace Leg

/-- The sum of one side. -/
def sumOn (d : Direction) (legs : List Leg) : ℚ :=
  (legs.map fun l => if l.direction = d then l.amount else 0).sum

/-- The amount with the sign of its side. -/
def signed (l : Leg) : ℚ := if l.direction = .debit then l.amount else -l.amount

/-- The line as the posting service takes it. -/
def lineInput (l : Leg) : TxnLineInput where
  accountId := l.accountId
  signedAmount := l.signed

/-- The line in the body of an API request. -/
def postingBody (l : Leg) : Api.Transactions.PostingBody where
  accountId := l.accountId
  amount := l.amount
  direction := l.direction.asStr

/-- The line in the edit form. -/
def parsedLine (l : Leg) : TransactionsEdit.ParsedLine where
  accountId := some l.accountId
  amount := some l.amount
  directionText := l.direction.asStr
  direction := some l.direction

/-- The line of a template. -/
def templatePosting (template : Uuid) (l : Leg) : TemplatePosting where
  templateId := template
  accountId := l.accountId
  direction := l.direction
  amount := l.amount
  amount_scale := l.amount_scale

/-- The posting of the `k`-th line, in the `n`-th transaction of the request. -/
def row (req : Request) (n k : ℕ) (l : Leg) : PostingRow where
  id := req.postingId n k
  transactionId := req.txnId n
  accountId := l.accountId
  amount := l.amount
  direction := l.direction

/-- The postings of the lines, numbered from `k` on. -/
def rows (req : Request) (n : ℕ) : ℕ → List Leg → List PostingRow
  | _, [] => []
  | k, l :: ls => l.row req n k :: rows req n (k + 1) ls

end Leg

namespace JournalEntry

def Balanced (j : JournalEntry) : Prop := Leg.sumOn .debit j.legs = Leg.sumOn .credit j.legs

instance (j : JournalEntry) : Decidable j.Balanced := by
  unfold Balanced
  infer_instance

/-- The journal for the posting service. -/
def newTransaction (j : JournalEntry) (user : Uuid) : NewTransaction where
  ledgerId := j.ledgerId
  txnDate := j.date
  description := j.description
  payee := j.payee
  reference := j.reference
  createdBy := user
  lines := j.legs.map Leg.lineInput

/-- The journal as the body of an API request. -/
def body (j : JournalEntry) : Api.Transactions.CreateTransactionBody where
  date := j.date
  description := j.description
  payee := j.payee
  reference := j.reference
  lines := j.legs.map Leg.postingBody

def form (j : JournalEntry) : TransactionsEdit.EditForm where
  date := some j.date
  description := j.description
  payee := j.payee
  reference := j.reference
  lines := j.legs.map Leg.parsedLine

def occurrence (j : JournalEntry) (template : Uuid) : TemplateRun.Occurrence where
  templateId := template
  ledgerId := j.ledgerId
  description := j.description
  payee := j.payee
  reference := j.reference
  dueDate := j.date

end JournalEntry

/-! ## The rows are the same -/

namespace Leg

theorem abs_signed (l : Leg) : |l.signed| = l.amount := by
  rw [signed]
  split
  · exact abs_of_pos l.amount_pos
  · rw [abs_neg, abs_of_pos l.amount_pos]

theorem ofSigned_signed (l : Leg) : Direction.ofSigned l.signed = l.direction := by
  have hpos := l.amount_pos
  rw [signed, Direction.ofSigned]
  cases hd : l.direction with
  | debit => simp [hpos.le]
  | credit => simp [hpos]

theorem lineRows_eq (req : Request) : ∀ (k : ℕ) (legs : List Leg),
    PostingService.lineRows req k (legs.map lineInput) (legs.map signed) = rows req 0 k legs
  | _, [] => rfl
  | k, l :: legs => by
    rw [List.map_cons, List.map_cons, PostingService.lineRows, lineRows_eq req (k + 1) legs, rows]
    simp [PostingService.lineRow, lineInput, row, abs_signed, ofSigned_signed]

theorem insertLines_eq (req : Request) : ∀ (k : ℕ) (db : Db) (legs : List Leg),
    Api.Transactions.insertLines req k db (legs.map postingBody) =
      db.insertPostingsEach (rows req 0 k legs)
  | _, _, [] => rfl
  | k, db, l :: legs => by
    have hread : Direction.fromDb l.direction.asStr = some l.direction := by
      cases l.direction with
      | debit => rfl
      | credit => rfl
    rw [List.map_cons, Api.Transactions.insertLines, rows, Db.insertPostingsEach]
    simp only [postingBody, hread, insertLines_eq req (k + 1)]
    rfl

theorem correctedLines_eq (req : Request) : ∀ (k : ℕ) (legs : List Leg),
    TransactionsEdit.correctedLines req k (legs.map lineInput) = rows req 1 k legs
  | _, [] => rfl
  | k, l :: legs => by
    rw [List.map_cons, TransactionsEdit.correctedLines, correctedLines_eq req (k + 1) legs, rows]
    simp [TransactionsEdit.correctedLine, lineInput, row, abs_signed, ofSigned_signed]

theorem postingRows_eq (req : Request) (template : Uuid) : ∀ (k : ℕ) (legs : List Leg),
    TemplateRun.postingRows req k (legs.map (templatePosting template)) = rows req 0 k legs
  | _, [] => rfl
  | k, l :: legs => by
    rw [List.map_cons, TemplateRun.postingRows, postingRows_eq req template (k + 1) legs, rows]
    rfl

/-- The lines of the edit form are read as the posting service takes them. -/
theorem parseLines_eq (legs : List Leg) :
    TransactionsEdit.parseLines (legs.map parsedLine) = .ok (legs.map lineInput) := by
  induction legs with
  | nil => rfl
  | cons l legs ih =>
    rw [List.map_cons, TransactionsEdit.parseLines, ih]
    rfl

/-! ## When the rows can be written -/

theorem rows_length (req : Request) (n : ℕ) :
    ∀ (k : ℕ) (legs : List Leg), (rows req n k legs).length = legs.length
  | _, [] => rfl
  | k, _ :: legs => by rw [rows, List.length_cons, List.length_cons, rows_length req n (k + 1) legs]

variable {n : ℕ} {req : Request}

theorem rows_transactionId :
    ∀ {k : ℕ} {legs : List Leg}, ∀ r ∈ rows req n k legs, r.transactionId = req.txnId n
  | _, [], r, hr => by cases hr
  | k, l :: legs, r, hr => by
    rw [rows] at hr
    rcases List.mem_cons.mp hr with rfl | hr
    · rfl
    · exact rows_transactionId r hr

theorem rows_ids (req : Request) (n : ℕ) : ∀ (k : ℕ) (legs : List Leg),
    (rows req n k legs).map PostingRow.id = (List.range' k legs.length).map (req.postingId n)
  | _, [] => rfl
  | k, l :: legs => by
    rw [rows, List.map_cons, rows_ids req n (k + 1) legs, List.length_cons, List.range'_succ]
    rfl

theorem mem_rows {r : PostingRow} :
    ∀ {k : ℕ} {legs : List Leg}, r ∈ rows req n k legs → ∃ l ∈ legs, ∃ i, r = l.row req n i
  | _, [], hr => by cases hr
  | k, l :: legs, hr => by
    rw [rows] at hr
    rcases List.mem_cons.mp hr with rfl | hr
    · exact ⟨l, List.mem_cons_self, k, rfl⟩
    · obtain ⟨m, hm, hrow⟩ := mem_rows hr
      exact ⟨m, List.mem_cons_of_mem l hm, hrow⟩

theorem exists_row {l : Leg} :
    ∀ {k : ℕ} {legs : List Leg}, l ∈ legs → ∃ i, l.row req n i ∈ rows req n k legs
  | _, [], hl => by cases hl
  | k, m :: legs, hl => by
    rw [rows]
    rcases List.mem_cons.mp hl with rfl | hl
    · exact ⟨k, List.mem_cons_self⟩
    · obtain ⟨i, hi⟩ := exists_row hl
      exact ⟨i, List.mem_cons_of_mem _ hi⟩

theorem rows_sumOn (req : Request) (n : ℕ) (d : Direction) : ∀ (k : ℕ) (legs : List Leg),
    PostingRow.sumOn d (rows req n k legs) = sumOn d legs
  | _, [] => rfl
  | k, l :: legs => by
    have ih := rows_sumOn req n d (k + 1) legs
    rw [rows, PostingRow.sumOn_cons, ih]
    simp only [row, roundDp_of_hasScale l.amount_scale, sumOn, List.map_cons, List.sum_cons]

/-- The amount fits the column `NUMERIC(20,4)`. -/
def Fits (l : Leg) : Prop := (amountColumn l.amount).isSome

instance (l : Leg) : Decidable l.Fits := by
  unfold Fits
  infer_instance

theorem fits_iff (l : Leg) : l.Fits ↔ l.amount < 10 ^ 16 := by
  have hpow : (10 : ℚ) ^ (20 - 4) = 10 ^ 16 := rfl
  rw [Fits, amountColumn, numeric, roundDp_of_hasScale l.amount_scale, abs_of_pos l.amount_pos,
    hpow]
  split
  · next h => simpa using h
  · next h => simpa using h

theorem row_fitsColumns {k : ℕ} {l : Leg} : (l.row req n k).FitsColumns ↔ l.Fits := by
  constructor
  · exact fun h => h.amount
  · intro h
    refine ⟨h, ?_, ?_⟩
    · rw [row, roundDp_of_hasScale l.amount_scale]
      exact l.amount_pos
    · intro x hx
      cases hx

theorem amount_le_sumOn {l : Leg} {legs : List Leg} (hl : l ∈ legs) :
    l.amount ≤ sumOn l.direction legs := by
  have hnonneg : ∀ x ∈ legs.map (fun m => if m.direction = l.direction then m.amount else 0),
      0 ≤ x := by
    intro x hx
    obtain ⟨m, -, rfl⟩ := List.mem_map.mp hx
    split
    · exact m.amount_pos.le
    · exact le_rfl
  refine List.single_le_sum hnonneg _ (List.mem_map.mpr ⟨l, hl, ?_⟩)
  rw [if_pos rfl]

theorem debitTotal_signed (legs : List Leg) :
    PostingService.debitTotal (legs.map signed) = sumOn .debit legs := by
  induction legs with
  | nil => rfl
  | cons l legs ih =>
    have hpos := l.amount_pos
    simp only [PostingService.debitTotal, sumOn, List.map_cons, List.sum_cons] at ih ⊢
    rw [ih]
    cases hd : l.direction with
    | debit => simp [signed, hd, hpos.le]
    | credit => simp [signed, hd, hpos]

theorem creditTotal_signed (legs : List Leg) :
    PostingService.creditTotal (legs.map signed) = sumOn .credit legs := by
  induction legs with
  | nil => rfl
  | cons l legs ih =>
    have hpos := l.amount_pos
    simp only [PostingService.creditTotal, sumOn, List.map_cons, List.sum_cons] at ih ⊢
    rw [ih]
    cases hd : l.direction with
    | debit => simp [signed, hd, hpos.le]
    | credit => simp [signed, hd, hpos]

theorem sideTotal_eq (d : Direction) (legs : List Leg) :
    Api.Transactions.sideTotal d.asStr (legs.map postingBody) = sumOn d legs := by
  induction legs with
  | nil => rfl
  | cons l legs ih =>
    have hread : Direction.fromDb l.direction.asStr = some l.direction := by
      cases l.direction with
      | debit => rfl
      | credit => rfl
    simp only [Api.Transactions.sideTotal, sumOn] at ih ⊢
    simp only [List.map_cons, List.filter_cons, postingBody,
      Api.Transactions.eqIgnoreAsciiCase_of_fromDb hread, List.sum_cons, ← ih]
    by_cases hd : l.direction = d
    · simp [hd]
    · simp [hd]

/-- Row by row, the lines go in when they fit and the trigger, while enabled, sees two lines that
balance. -/
theorem legsInsertable_iff {db : Db} {legs : List Leg} (hlen : 2 ≤ legs.length)
    (haccounts : ∀ l ∈ legs, l.accountId ∈ db.books.accountIds)
    (hnew : ∀ k < legs.length, ∀ p ∈ db.books.postings, p.id ≠ req.postingId n k)
    (hdistinct : ∀ k < legs.length, ∀ i < legs.length,
      req.postingId n k = req.postingId n i → k = i) :
    db.LegsInsertable [] (rows req n 0 legs) ↔ (∀ l ∈ legs, l.Fits) ∧
      (db.balanceTrigger = true → legs.length = 2 ∧ sumOn .debit legs = sumOn .credit legs) := by
  have hlength := rows_length req n 0 legs
  have hfits : (∀ r ∈ rows req n 0 legs, r.FitsColumns) ↔ ∀ l ∈ legs, l.Fits := by
    constructor
    · intro h l hl
      obtain ⟨i, hi⟩ := exists_row hl
      exact row_fitsColumns.mp (h _ hi)
    · intro h r hr
      obtain ⟨l, hl, i, rfl⟩ := mem_rows hr
      exact row_fitsColumns.mpr (h l hl)
  have hprefixes : (∀ r ∈ rows req n 0 legs, r.FitsColumns) →
      ((∀ k < (rows req n 0 legs).length,
          PostingRow.TriggerPasses ((rows req n 0 legs).take (k + 1))) ↔
        legs.length = 2 ∧ sumOn .debit legs = sumOn .credit legs) := by
    intro h
    rw [Db.triggerPasses_take_iff h (hlength ▸ hlen), hlength, rows_sumOn, rows_sumOn]
  constructor
  · intro h
    exact ⟨hfits.mp h.columns, fun hon => (hprefixes h.columns).mp fun k hk => h.balances hon k hk⟩
  · rintro ⟨hall, htrigger⟩
    have hcolumns := hfits.mpr hall
    refine ⟨hcolumns, ?_, ?_, ?_, fun hon => (hprefixes hcolumns).mpr (htrigger hon)⟩
    · intro r hr
      obtain ⟨l, hl, i, rfl⟩ := mem_rows hr
      exact haccounts l hl
    · intro r hr p hp
      have hid : r.id ∈ (List.range' 0 legs.length).map (req.postingId n) := by
        rw [← rows_ids]
        exact List.mem_map_of_mem hr
      obtain ⟨k, hk, hkr⟩ := List.mem_map.mp hid
      rw [← hkr]
      exact hnew k (by simpa using List.mem_range'_1.mp hk) p hp
    · rw [rows_ids]
      refine List.Nodup.map_on ?_ List.nodup_range'
      intro k hk i hi heq
      exact hdistinct k (by simpa using List.mem_range'_1.mp hk) i
        (by simpa using List.mem_range'_1.mp hi) heq

end Leg

/-! ## What is given -/

/-- The first `count` ids drawn for each of two transactions are new and differ. -/
structure FreshIds (db : Db) (req : Request) (count : ℕ) : Prop where
  txns : ∀ n < 2, req.txnId n ∉ db.books.txnIds
  txns_differ : req.txnId 0 ≠ req.txnId 1
  postings : ∀ n < 2, ∀ k < count, ∀ p ∈ db.books.postings, p.id ≠ req.postingId n k
  postings_differ : ∀ n < 2, ∀ m < 2, ∀ k < count, ∀ i < count,
    req.postingId n k = req.postingId m i → n = m ∧ k = i

/-- The journal is on accounts of the ledger, dated in an open period and below the approval
threshold, and its authors exist. -/
structure JournalEntry.Ready (j : JournalEntry) (db : Db) (req : Request) (user : Uuid)
    (l : Ledger) (count : ℕ) : Prop where
  ledger : db.findLedger j.ledgerId = some l
  author : ∃ u ∈ db.users, u.id = user
  owner : ∃ u ∈ db.users, u.id = l.ownerId
  legs : 2 ≤ j.legs.length
  accounts : ∀ leg ∈ j.legs, ∃ a ∈ db.books.accounts,
    a.id = leg.accountId ∧ a.ledgerId = j.ledgerId
  period : ¬ db.Closed j.ledgerId j.date
  below : Leg.sumOn .debit j.legs < l.approvalThreshold
  /-- The column of the threshold is `NUMERIC(20,4)`. -/
  threshold_column : l.approvalThreshold < 10 ^ 16
  ids : FreshIds db req count
  counted : j.legs.length ≤ count

/-- The user may edit the transaction, and its reversal has been written. -/
structure JournalEntry.Editing (j : JournalEntry) (db db₁ : Db) (req : Request) (user txn : Uuid)
    (count : ℕ) : Prop where
  described : RustStr.trim j.description ≠ ""
  writer : ∃ l, db.ensureWriter user j.ledgerId = .ok l ∧ l.appendOnly = false
  original : ∃ t, db.books.findTxnIn txn j.ledgerId = some t ∧ t.kind ≠ .reversing ∧
    ¬ db.Closed j.ledgerId t.txnDate ∧ (db.books.postingsOf t.id).length ≤ count ∧
    TransactionsEdit.insertReversal db req user j.ledgerId t = .ok db₁

/-- The template has the lines of the journal and is due at its date. -/
structure JournalEntry.Due (j : JournalEntry) (db : Db) (template : Uuid) : Prop where
  lines : TemplateRun.templatePostingsOf db template = j.legs.map (Leg.templatePosting template)
  scheduled : ∃ t next, db.templates.find? (fun t => t.id = template) = some t ∧
    TemplateRun.advanceFrequency j.date t.frequency = some next
  unposted : ¬ TemplateRun.AlreadyPosted db.books (j.occurrence template)

namespace JournalEntry

/-- The number `create` draws for a journal without one. -/
def nextNumber (j : JournalEntry) (b : Books) : String :=
  toString j.date.year ++ "-" ++ RustStr.padZero 6 ((b.transactions.filter fun t =>
    t.ledgerId = j.ledgerId ∧ Transaction.numberYear t.txnDate = j.date.year).length + 1)

/-- No transaction of the ledger and the year has that number. -/
def NumberFree (j : JournalEntry) (b : Books) : Prop :=
  ∀ t ∈ b.transactions, ¬ (t.ledgerId = j.ledgerId ∧
    Transaction.numberYear t.txnDate = Transaction.numberYear j.date ∧
    t.number = some (j.nextNumber b))

instance (j : JournalEntry) (b : Books) : Decidable (j.NumberFree b) := by
  unfold NumberFree
  infer_instance

/-- All four paths accept the journal exactly when it balances. -/
structure Accepted (j : JournalEntry) (db : Db) (req : Request) (user owner txn template : Uuid) :
    Prop where
  create : (PostingService.create db req (j.newTransaction user)).1.isOk = true ↔ j.Balanced
  apiCreate : (Api.Transactions.create db req owner j.ledgerId j.body).1.isOk = true ↔ j.Balanced
  edit : (TransactionsEdit.edit db req (some user) j.ledgerId txn j.form).1.isOk = true ↔
    j.Balanced
  runOccurrence : (TemplateRun.runOccurrence db req (j.occurrence template)).1 = .ok true ↔
    j.Balanced

/-! ## Each path -/

section

variable {j : JournalEntry} {db db₁ : Db} {req : Request} {user txn template : Uuid} {l : Ledger}
  {count : ℕ}

/-- Debits below the threshold fit their column, and so do the credits that balance them. -/
theorem Ready.fits (h : j.Ready db req user l count) (hb : j.Balanced) : ∀ m ∈ j.legs, m.Fits := by
  intro m hm
  have hside : Leg.sumOn m.direction j.legs = Leg.sumOn .debit j.legs := by
    cases m.direction with
    | debit => rfl
    | credit => exact hb.symm
  have hle := Leg.amount_le_sumOn hm
  have hbelow := h.below
  have hcolumn := h.threshold_column
  rw [Leg.fits_iff]
  linarith

theorem Ready.accountIds (h : j.Ready db req user l count) :
    ∀ m ∈ j.legs, m.accountId ∈ db.books.accountIds := by
  intro m hm
  obtain ⟨a, ha, hid, -⟩ := h.accounts m hm
  exact List.mem_map.mpr ⟨a, ha, hid⟩

theorem Ready.legsInsertable_iff (h : j.Ready db req user l count) (trigger : Bool) :
    Db.LegsInsertable { db with balanceTrigger := trigger } [] (Leg.rows req 0 0 j.legs) ↔
      (∀ m ∈ j.legs, m.Fits) ∧ (trigger = true → j.legs.length = 2 ∧ j.Balanced) := by
  refine Leg.legsInsertable_iff h.legs h.accountIds ?_ ?_
  · intro k hk
    exact h.ids.postings 0 (by decide) k (hk.trans_le h.counted)
  · intro k hk i hi heq
    exact (h.ids.postings_differ 0 (by decide) 0 (by decide) k (hk.trans_le h.counted) i
      (hi.trans_le h.counted) heq).2

theorem Ready.hasLedger (h : j.Ready db req user l count) : db.HasLedger j.ledgerId :=
  ⟨l, List.mem_of_find?_eq_some h.ledger, by simpa using List.find?_some h.ledger⟩

/-- `create` accepts a journal that balances when the number it draws is free. -/
theorem Ready.create_iff (h : j.Ready db req user l count) :
    (PostingService.create db req (j.newTransaction user)).1.isOk = true ↔
      j.Balanced ∧ j.NumberFree db.books := by
  have hforeign : (j.newTransaction user).lines.any (fun l => l.foreign.isSome) = false := by
    simp [newTransaction, Leg.lineInput]
  have hamounts : PostingService.Stepwise.resolveAmounts Decimal.exact
      PostingService.Stepwise.allDone db req (j.newTransaction user) =
        .ok (j.legs.map Leg.signed) := by
    rw [PostingService.Stepwise.resolveAmounts, hforeign]
    simp only [newTransaction, List.map_map]
    rfl
  have hdebits := PostingService.Stepwise.debitTotal_exact (j.legs.map Leg.signed)
  have hcredits := PostingService.Stepwise.creditTotal_exact (j.legs.map Leg.signed)
  rw [Leg.debitTotal_signed] at hdebits
  rw [Leg.creditTotal_signed] at hcredits
  have hgate : PostingService.makerChecker l "standard" false (Leg.sumOn .debit j.legs) =
      ("standard", false) := by
    rw [PostingService.makerChecker, if_neg]
    rintro ⟨-, -, -, hle⟩
    exact absurd h.below (not_lt.mpr hle)
  rw [PostingService.Stepwise.create_isOk_iff]
  · constructor
    · rintro ⟨effective, ledger, number, kind, hc⟩
      cases hamounts.symm.trans hc.amounts
      have hbalance := hc.balance
      rw [hdebits, hcredits] at hbalance
      refine ⟨hbalance, ?_⟩
      have hnumber : some (j.nextNumber db.books) = number := by
        have hresolved := hc.number_resolved
        cases hresolved
        rfl
      subst hnumber
      intro t ht hsame
      exact (hc.header.unique t ht).1 ⟨rfl, hsame⟩
    · rintro ⟨hbalance, hfree⟩
      refine ⟨j.legs.map Leg.signed, l, some (j.nextNumber db.books), .standard, ?_⟩
      exact
        { lines := by simpa [newTransaction] using h.legs
          amounts := hamounts
          balance := by rw [hdebits, hcredits]; exact hbalance
          answered := fun _ _ => rfl
          ledger_found := h.ledger
          period := Or.inr h.period
          accounts := by
            intro m hm
            obtain ⟨leg, hleg, rfl⟩ := List.mem_map.mp hm
            exact h.accounts leg hleg
          costCenters := by
            intro m hm id hid
            obtain ⟨leg, hleg, rfl⟩ := List.mem_map.mp hm
            cases hid
          projects := by
            intro m hm id hid
            obtain ⟨leg, hleg, rfl⟩ := List.mem_map.mp hm
            cases hid
          number_resolved := rfl
          kind_valid := by
            rw [hdebits]
            show TxnKind.fromDb (PostingService.makerChecker l "standard" false _).1 = _
            rw [hgate]
            rfl
          header :=
            { ledger := h.hasLedger
              creator := h.author
              reverses := rfl
              template := rfl
              unique := fun t ht => ⟨fun hsame => hfree t ht hsame.2, fun hsame => nomatch hsame.1⟩
              fresh := h.ids.txns 0 (by decide) }
          legs := by
            show Db.LegsInsertable _ [] (PostingService.lineRows req 0 (j.legs.map Leg.lineInput) _)
            rw [Leg.lineRows_eq, h.legsInsertable_iff]
            exact ⟨h.fits hbalance, fun hon => nomatch hon⟩
          taxes := ⟨nofun, nofun, nofun, nofun, nofun, List.nodup_nil⟩ }
  · intro effective ledger number kind hc
    cases hamounts.symm.trans hc.amounts
    cases h.ledger.symm.trans hc.ledger_found
    rw [hdebits]
    show (PostingService.makerChecker l "standard" false _).2 = false
    rw [hgate]

theorem Ready.insertEntry_iff (h : j.Ready db req user l count) {t : Transaction}
    (htxn : db.TxnInsertable t) (hid : t.id = req.txnId 0) :
    (∃ db', db.insertEntry t (Leg.rows req 0 0 j.legs) = .ok db') ↔ (∀ m ∈ j.legs, m.Fits) ∧
      (db.balanceTrigger = true → j.legs.length = 2 ∧ j.Balanced) := by
  rw [Db.insertEntry_ok_iff (fun r hr => (Leg.rows_transactionId r hr).trans hid.symm)]
  have hlegs := h.legsInsertable_iff db.balanceTrigger
  constructor
  · exact fun hall => hlegs.mp hall.2
  · exact fun hall => ⟨htxn, hlegs.mpr hall⟩

/-- The API accepts a journal that balances when its rows pass the trigger. -/
theorem Ready.apiCreate_iff (h : j.Ready db req user l count) :
    (Api.Transactions.create db req l.ownerId j.ledgerId j.body).1.isOk = true ↔
      j.Balanced ∧ (db.balanceTrigger = true → j.legs.length = 2) := by
  have hid : l.id = j.ledgerId := by simpa using List.find?_some h.ledger
  have htxn : db.TxnInsertable (Api.Transactions.txnRow req l.ownerId l j.body .standard) :=
    { ledger := by
        show db.HasLedger l.id
        rw [hid]
        exact h.hasLedger
      creator := h.owner
      reverses := rfl
      template := rfl
      unique := fun t _ => ⟨fun hsame => (nomatch hsame.1), fun hsame => (nomatch hsame.1)⟩
      fresh := h.ids.txns 0 (by decide) }
  have hentry := h.insertEntry_iff htxn rfl
  have haccounts : ∀ {ls : List Leg}, (∀ m ∈ ls, m ∈ j.legs) →
      Api.Transactions.checkAccounts db.books j.ledgerId (ls.map Leg.postingBody) = .ok () := by
    intro ls hls
    induction ls with
    | nil => rfl
    | cons m ls ih =>
      obtain ⟨hm, hls⟩ := List.forall_mem_cons.mp hls
      rw [List.map_cons, Api.Transactions.checkAccounts, ih hls]
      exact bind_eq_ok.mpr ⟨(), ensure_eq_ok.mpr (h.accounts m hm), rfl⟩
  have hbalance : Api.Transactions.sideTotal "DEBIT" j.body.lines =
      Api.Transactions.sideTotal "CREDIT" j.body.lines ↔ j.Balanced := by
    have hdebit := Leg.sideTotal_eq .debit j.legs
    have hcredit := Leg.sideTotal_eq .credit j.legs
    rw [show Direction.debit.asStr = "DEBIT" from rfl] at hdebit
    rw [show Direction.credit.asStr = "CREDIT" from rfl] at hcredit
    rw [body, hdebit, hcredit, Balanced]
  rw [Api.Transactions.create, commit_isOk]
  simp only [Api.Transactions.execute, bind_eq_ok, okOr_eq_ok, ensure_eq_ok, mapError_eq_ok,
    hbalance]
  simp only [Db.insertEntry, bind_eq_ok] at hentry
  constructor
  · rintro ⟨r, db', -, -, -, -, -, hb, -, -, l', hl', kind, hkind, db₁, hinsert, db₂, hlines, -⟩
    cases h.ledger.symm.trans hl'
    cases hkind
    rw [body, Leg.insertLines_eq] at hlines
    have hrows := hentry.mp ⟨db₂, db₁, hinsert, hlines⟩
    exact ⟨hb, fun hon => (hrows.2 hon).1⟩
  · rintro ⟨hb, htwo⟩
    obtain ⟨db₂, db₁, hinsert, hlines⟩ :=
      hentry.mpr ⟨h.fits hb, fun hon => ⟨htwo hon, hb⟩⟩
    rw [← Leg.insertLines_eq] at hlines
    have howned : Api.ensureOwned db l.ownerId j.ledgerId = .ok () :=
      ensure_eq_ok.mpr ⟨l, List.mem_of_find?_eq_some h.ledger, hid, rfl⟩
    refine ⟨_, db₂, (), howned, (), ?_, (), hb, (),
      haccounts (fun m hm => hm), l, h.ledger, .standard, rfl, db₁, hinsert, db₂, hlines, rfl⟩
    simpa [body] using h.legs

/-- The template run accepts every journal whose rows pass the trigger. -/
theorem Ready.runOccurrence_iff (h : j.Ready db req user l count) (hdue : j.Due db template) :
    (TemplateRun.runOccurrence db req (j.occurrence template)).1 = .ok true ↔
      (∀ m ∈ j.legs, m.Fits) ∧ (db.balanceTrigger = true → j.legs.length = 2 ∧ j.Balanced) := by
  obtain ⟨t, next, hfind, hnext⟩ := hdue.scheduled
  have htemplate : t ∈ db.templates ∧ t.id = template :=
    ⟨List.mem_of_find?_eq_some hfind, by simpa using List.find?_some hfind⟩
  have htxn : db.TxnInsertable (TemplateRun.txnRow req l (j.occurrence template)) :=
    { ledger := h.hasLedger
      creator := h.owner
      reverses := rfl
      template := by simpa [TemplateRun.txnRow, occurrence] using ⟨t, htemplate⟩
      unique := fun s hs => ⟨fun hsame => (nomatch hsame.1),
        fun hsame => hdue.unposted ⟨s, hs, hsame.2⟩⟩
      fresh := h.ids.txns 0 (by decide) }
  have hentry := h.insertEntry_iff htxn rfl
  have hactor : TemplateRun.actorLedger db (j.occurrence template) = .ok l := by
    have hlines : 2 ≤ (TemplateRun.templatePostingsOf db template).length := by
      rw [hdue.lines, List.length_map]
      exact h.legs
    rw [TemplateRun.actorLedger]
    exact bind_eq_ok.mpr ⟨(), ensure_eq_ok.mpr hlines, okOr_eq_ok.mpr h.ledger⟩
  have hrows : TemplateRun.postingRows req 0 (TemplateRun.templatePostingsOf db template) =
      Leg.rows req 0 0 j.legs := by
    rw [hdue.lines, Leg.postingRows_eq]
  rw [TemplateRun.runOccurrence, hactor]
  dsimp only
  rw [if_neg hdue.unposted, ← hentry]
  constructor
  · intro hok
    obtain ⟨a, s', hbody⟩ := commit_isOk.mp (show (commit db _).1.isOk = true by rw [hok]; rfl)
    simp only [TemplateRun.postOccurrence, bind_eq_ok, mapError_eq_ok] at hbody
    obtain ⟨db₁, hinsert, -⟩ := hbody
    rw [show (j.occurrence template).templateId = template from rfl, hrows] at hinsert
    exact ⟨db₁, hinsert⟩
  · rintro ⟨db₁, hinsert⟩
    obtain ⟨-, b', ps, rfl, -, -, -⟩ :=
      Db.insertEntry_spec (fun r hr => Leg.rows_transactionId r hr) hinsert
    have hbody : TemplateRun.postOccurrence db req l (j.occurrence template) =
        .ok (true, TemplateRun.setNextDate { db with books := b' } template next) := by
      simp only [TemplateRun.postOccurrence, bind_eq_ok, mapError_eq_ok, okOr_eq_ok]
      refine ⟨{ db with books := b' }, ?_, t, hfind, next, hnext, rfl⟩
      rw [show (j.occurrence template).templateId = template from rfl, hrows]
      exact hinsert
    rw [hbody]
    rfl

/-- After the reversal of another transaction the corrected entry goes in when its rows do. -/
theorem Ready.corrected_iff (h : j.Ready db req user l count) (hid : l.id = j.ledgerId)
    {original : Transaction} (hcount : (db.books.postingsOf original.id).length ≤ count)
    (hreversal : TransactionsEdit.insertReversal db req user j.ledgerId original = .ok db₁) :
    (∃ db₂, db₁.insertEntry (TransactionsEdit.correctedRow req user l j.form j.date)
        (Leg.rows req 1 0 j.legs) = .ok db₂) ↔ (∀ m ∈ j.legs, m.Fits) ∧
      (db.balanceTrigger = true → j.legs.length = 2 ∧ j.Balanced) := by
  -- The reversal has used the ids of the first transaction.
  simp only [TransactionsEdit.insertReversal, bind_eq_ok, okOr_eq_ok, mapError_eq_ok] at hreversal
  obtain ⟨l₁, hl₁, hreversal⟩ := hreversal
  obtain ⟨ps, hpostings, hids⟩ := Db.insertEntry_ids hreversal
  obtain ⟨-, b', ps', rfl, hposts, -, -⟩ :=
    Db.insertEntry_spec (fun r hr => flippedRows_transactionId r hr) hreversal
  rw [flippedRows_ids] at hids
  have hpostings : b'.postings = db.books.postings ++ ps := hpostings
  have haccounts : b'.accountIds = db.books.accountIds := by
    rw [Books.accountIds, hposts.accounts, Books.accountIds]
  have htxns : b'.txnIds = db.books.txnIds ++ [req.txnId 0] := hposts.txnIds
  have htxn : Db.TxnInsertable { db with books := b' }
      (TransactionsEdit.correctedRow req user l j.form j.date) :=
    { ledger := by
        show db.HasLedger l.id
        rw [hid]
        exact h.hasLedger
      creator := h.author
      reverses := rfl
      template := rfl
      unique := fun s _ => ⟨fun hsame => (nomatch hsame.1), fun hsame => (nomatch hsame.1)⟩
      fresh := by
        show req.txnId 1 ∉ b'.txnIds
        rw [htxns, List.mem_append, List.mem_singleton]
        rintro (hold | heq)
        · exact h.ids.txns 1 (by decide) hold
        · exact h.ids.txns_differ heq.symm }
  have hlegs : Db.LegsInsertable { db with books := b' } [] (Leg.rows req 1 0 j.legs) ↔
      (∀ m ∈ j.legs, m.Fits) ∧ (db.balanceTrigger = true → j.legs.length = 2 ∧ j.Balanced) := by
    refine Leg.legsInsertable_iff h.legs ?_ ?_ ?_
    · intro m hm
      show m.accountId ∈ b'.accountIds
      rw [haccounts]
      exact h.accountIds m hm
    · intro k hk p hp heq
      have hk := hk.trans_le h.counted
      rcases List.mem_append.mp (hpostings ▸ hp) with hp | hp
      · exact h.ids.postings 1 (by decide) k hk p hp heq
      · have hid : p.id ∈ (List.range' 0 (db.books.postingsOf original.id).length).map
            (req.postingId 0) := hids ▸ List.mem_map_of_mem hp
        obtain ⟨i, hi, hip⟩ := List.mem_map.mp hid
        have hi : i < count := (by simpa using List.mem_range'_1.mp hi : i < _).trans_le hcount
        exact absurd (h.ids.postings_differ 0 (by decide) 1 (by decide) i hi k hk
          (hip.trans heq)).1 (by decide)
    · intro k hk i hi heq
      exact (h.ids.postings_differ 1 (by decide) 1 (by decide) k (hk.trans_le h.counted) i
        (hi.trans_le h.counted) heq).2
  rw [Db.insertEntry_ok_iff (fun r hr => Leg.rows_transactionId r hr), ← hlegs]
  exact ⟨fun hall => hall.2, fun hall => ⟨htxn, hall⟩⟩

/-- The edit is accepted if the amounts fit and the trigger, if on, finds two balanced legs. -/
theorem Ready.edit_iff (h : j.Ready db req user l count)
    (hediting : j.Editing db db₁ req user txn count) :
    (TransactionsEdit.edit db req (some user) j.ledgerId txn j.form).1.isOk = true ↔
      (∀ m ∈ j.legs, m.Fits) ∧ (db.balanceTrigger = true → j.legs.length = 2 ∧ j.Balanced) := by
  obtain ⟨l', hwriter, hplain⟩ := hediting.writer
  obtain ⟨t, hfind, hkind, hopen, hcount, hreversal⟩ := hediting.original
  have hid : l.id = j.ledgerId := by simpa using List.find?_some h.ledger
  have htitle := hediting.described
  have hrows : TransactionsEdit.correctedLines req 0 (j.legs.map Leg.lineInput) =
      Leg.rows req 1 0 j.legs := Leg.correctedLines_eq req 0 j.legs
  have hcorrected : (∃ db₂, db₁.insertEntry (TransactionsEdit.correctedRow req user l j.form j.date)
      (Leg.rows req 1 0 j.legs) = .ok db₂) ↔ (∀ m ∈ j.legs, m.Fits) ∧
        (db.balanceTrigger = true → j.legs.length = 2 ∧ j.Balanced) :=
    h.corrected_iff hid hcount hreversal
  have hsame : db₁.findLedger j.ledgerId = some l := by
    obtain ⟨-, -, b', -, rfl, -⟩ := TransactionsEdit.insertReversal_spec hreversal
    exact h.ledger
  rw [TransactionsEdit.edit, commit_isOk, ← hcorrected]
  simp only [bind_eq_ok, okOr_eq_ok, ensure_eq_ok, mapError_eq_ok, not_or]
  constructor
  · rintro ⟨-, db₂, user', huser, l₁, -, -, -, -, -, date, hdate, -, -, inputs, hinputs, original,
      horiginal, -, -, -, -, db₁', hreversed, l₂, hl₂, db₃, hinsert, -⟩
    cases huser
    cases hdate
    cases hfind.symm.trans horiginal
    cases hreversal.symm.trans hreversed
    cases hsame.symm.trans hl₂
    cases (Leg.parseLines_eq j.legs).symm.trans hinputs
    rw [hrows] at hinsert
    exact ⟨db₃, hinsert⟩
  · rintro ⟨db₂, hinsert⟩
    refine ⟨(), db₂, user, rfl, l', hwriter, (), hplain, (), ?_, j.date, rfl, (), htitle,
      j.legs.map Leg.lineInput, Leg.parseLines_eq j.legs, t, hfind, (), hkind, (),
      ⟨hopen, h.period⟩, db₁, hreversal, l, hsame, db₂, ?_, rfl⟩
    · simpa [form] using h.legs
    · rw [hrows]
      exact hinsert

end

/-! ## All four -/

/-- Where the four paths do not differ: a journal that balances finds its number free and, with
the trigger enabled, has two lines; one that does not balance meets the trigger, or has a line
that no column takes. -/
structure Alike (j : JournalEntry) (db : Db) : Prop where
  balanced : j.Balanced →
    j.NumberFree db.books ∧ (db.balanceTrigger = true → j.legs.length = 2)
  unbalanced : ¬ j.Balanced → db.balanceTrigger = true ∨ ∃ m ∈ j.legs, ¬ m.Fits

/-- The four paths accept exactly the journals that balance when they do not differ. -/
theorem accepted_iff {j : JournalEntry} {db db₁ : Db} {req : Request} {user txn template : Uuid}
    {l : Ledger} {count : ℕ} (h : j.Ready db req user l count)
    (hediting : j.Editing db db₁ req user txn count) (hdue : j.Due db template) :
    j.Accepted db req user l.ownerId txn template ↔ j.Alike db := by
  have hcreate := h.create_iff
  have hapi := h.apiCreate_iff
  have hedit := h.edit_iff hediting
  have hrun := h.runOccurrence_iff hdue
  constructor
  · intro haccepted
    constructor
    · intro hb
      have hnumber := hcreate.mp (haccepted.create.mpr hb)
      have htwo := hapi.mp (haccepted.apiCreate.mpr hb)
      exact ⟨hnumber.2, htwo.2⟩
    · intro hb
      by_contra hneither
      obtain ⟨htrigger, hfits⟩ := not_or.mp hneither
      have hfits : ∀ m ∈ j.legs, m.Fits := by
        intro m hm
        by_contra hbig
        exact hfits ⟨m, hm, hbig⟩
      -- The trigger is disabled and every line fits, so the edit takes the journal.
      exact hb (haccepted.edit.mp (hedit.mpr ⟨hfits, fun hon => absurd hon htrigger⟩))
  · intro halike
    have hrows : ((∀ m ∈ j.legs, m.Fits) ∧
        (db.balanceTrigger = true → j.legs.length = 2 ∧ j.Balanced)) ↔ j.Balanced := by
      constructor
      · rintro ⟨hfits, htrigger⟩
        by_contra hb
        rcases halike.unbalanced hb with hon | ⟨m, hm, hbig⟩
        · exact hb (htrigger hon).2
        · exact hbig (hfits m hm)
      · intro hb
        exact ⟨h.fits hb, fun hon => ⟨(halike.balanced hb).2 hon, hb⟩⟩
    constructor
    · exact hcreate.trans ⟨fun hall => hall.1, fun hb => ⟨hb, (halike.balanced hb).1⟩⟩
    · exact hapi.trans ⟨fun hall => hall.1, fun hb => ⟨hb, (halike.balanced hb).2⟩⟩
    · exact hedit.trans hrows
    · exact hrun.trans hrows

end JournalEntry

namespace Sample

/-- An entry of 5 March that has no lines. -/
def opening : Transaction where
  id := 900
  ledgerId := ledgerId
  txnDate := march 5
  description := "Opening"
  currency := "USD"
  kind := .standard
  createdBy := owner

/-- The ledger with that entry and a monthly template of the given lines. -/
def templateDb (legs : List Leg) : Db :=
  { db with
    books := db.books.addTxn opening (by decide)
    templates := [{ id := 31, ledgerId := ledgerId, description := "Takings",
                    frequency := "monthly", nextDate := march 12 }]
    templatePostings := legs.map (Leg.templatePosting 31) }

def takings (legs : List Leg) : JournalEntry where
  ledgerId := ledgerId
  date := march 12
  description := "Takings"
  legs := legs

theorem hundred_scale : HasScale 4 100 := by decide +kernel

theorem forty_pos : (0 : ℚ) < 40 := by norm_num

theorem forty_scale : HasScale 4 40 := by decide +kernel

def pair : List Leg :=
  [{ accountId := cash, direction := .debit, amount := 100, amount_pos := hundred_pos,
     amount_scale := hundred_scale },
   { accountId := sales, direction := .credit, amount := 100, amount_pos := hundred_pos,
     amount_scale := hundred_scale }]

def split : List Leg :=
  [{ accountId := cash, direction := .debit, amount := 100, amount_pos := hundred_pos,
     amount_scale := hundred_scale },
   { accountId := sales, direction := .credit, amount := 60 },
   { accountId := sales, direction := .credit, amount := 40, amount_pos := forty_pos,
     amount_scale := forty_scale }]

theorem freshIds_opening :
    ∀ n m : Fin 2, ∀ k i : Fin 3,
      (request 2).postingId n k = (request 2).postingId m i → n = m ∧ k = i := by
  decide +kernel

theorem takings_freshIds (legs : List Leg) : FreshIds (templateDb legs) (request 2) 3 where
  txns := by
    show ∀ n < 2, (request 2).txnId n ∉ (db.books.addTxn opening (by decide)).txnIds
    decide
  txns_differ := by decide
  postings := by
    intro n _ k _ p hp
    cases hp
  postings_differ := by
    intro n hn m hm k hk i hi heq
    simpa using freshIds_opening ⟨n, hn⟩ ⟨m, hm⟩ ⟨k, hk⟩ ⟨i, hi⟩ heq

theorem takings_ready {legs : List Leg} (hlegs : 2 ≤ legs.length) (hcount : legs.length ≤ 3)
    (haccounts : ∀ m ∈ legs, m.accountId = cash ∨ m.accountId = sales)
    (hbelow : Leg.sumOn .debit legs < 10000) :
    (takings legs).Ready (templateDb legs) (request 2) owner { id := ledgerId, ownerId := owner }
      3 where
  ledger := rfl
  author := ⟨{ id := owner }, List.mem_cons_self, rfl⟩
  owner := ⟨{ id := owner }, List.mem_cons_self, rfl⟩
  legs := hlegs
  accounts := by
    intro m hm
    show ∃ a ∈ db.books.accounts, a.id = m.accountId ∧ a.ledgerId = ledgerId
    rcases haccounts m hm with h | h
    · rw [h]
      decide
    · rw [h]
      decide
  period := by
    show ¬ db.Closed ledgerId (march 12)
    decide
  below := hbelow
  threshold_column := by norm_num
  ids := takings_freshIds legs
  counted := hcount

theorem takings_editing {legs : List Leg} : ∃ db₁,
    (takings legs).Editing (templateDb legs) db₁ (request 2) owner 900 3 := by
  have hreversal : ∃ b, TransactionsEdit.insertReversal (templateDb legs) (request 2) owner ledgerId
      opening = .ok { templateDb legs with books := b } := ⟨_, rfl⟩
  obtain ⟨b, hreversal⟩ := hreversal
  have hopen : ¬ db.Closed ledgerId (march 5) := by decide
  have hempty : ((db.books.addTxn opening (by decide)).postingsOf 900).length ≤ 3 := by decide
  have htitle : RustStr.trim "Takings" ≠ "" := by decide
  exact ⟨_, htitle, ⟨_, rfl, rfl⟩, opening, rfl, by decide, hopen, hempty, hreversal⟩

theorem takings_due {legs : List Leg} : (takings legs).Due (templateDb legs) 31 where
  lines := by
    refine List.filter_eq_self.mpr ?_
    intro p hp
    obtain ⟨m, -, rfl⟩ := List.mem_map.mp hp
    rfl
  scheduled := by
    have hnext : (TemplateRun.advanceFrequency (march 12) "monthly").isSome := by decide
    obtain ⟨next, hnext⟩ := Option.isSome_iff_exists.mp hnext
    exact ⟨_, next, rfl, hnext⟩
  unposted := by
    rintro ⟨t, ht, htemplate, -⟩
    rcases List.mem_singleton.mp (show t ∈ [opening] from ht)
    cases htemplate

end Sample

/-- Two lines, with the trigger enabled. -/
theorem JournalEntry.accepted_iff_pair :
    (Sample.takings Sample.pair).Accepted (Sample.templateDb Sample.pair) (Sample.request 2)
        Sample.owner Sample.owner 900 31 ↔
      (Sample.takings Sample.pair).Alike (Sample.templateDb Sample.pair) := by
  have hready : (Sample.takings Sample.pair).Ready (Sample.templateDb Sample.pair)
      (Sample.request 2) Sample.owner { id := Sample.ledgerId, ownerId := Sample.owner } 3 :=
    Sample.takings_ready (by decide) (by decide) (by decide) (by decide +kernel)
  obtain ⟨db₁, hediting⟩ := @Sample.takings_editing Sample.pair
  exact accepted_iff hready hediting Sample.takings_due

/-- Three lines that balance, with the trigger enabled: `create` accepts what the API refuses. -/
theorem JournalEntry.not_accepted :
    ¬ ∀ (j : JournalEntry) (db db₁ : Db) (req : Request) (user txn template : Uuid) (l : Ledger)
      (count : ℕ), j.Ready db req user l count → j.Editing db db₁ req user txn count →
        j.Due db template → j.Accepted db req user l.ownerId txn template := by
  intro hall
  have hready : (Sample.takings Sample.split).Ready (Sample.templateDb Sample.split)
      (Sample.request 2) Sample.owner { id := Sample.ledgerId, ownerId := Sample.owner } 3 :=
    Sample.takings_ready (by decide) (by decide) (by decide) (by decide +kernel)
  obtain ⟨db₁, hediting⟩ := @Sample.takings_editing Sample.split
  have haccepted := hall _ _ _ _ _ _ _ _ _ hready hediting Sample.takings_due
  have hrefused : (Api.Transactions.create (Sample.templateDb Sample.split) (Sample.request 2)
      Sample.owner Sample.ledgerId (Sample.takings Sample.split).body).1.isOk = false := by
    decide +kernel
  have hbalanced : (Sample.takings Sample.split).Balanced := by decide +kernel
  have hok : (Api.Transactions.create (Sample.templateDb Sample.split) (Sample.request 2)
      Sample.owner Sample.ledgerId (Sample.takings Sample.split).body).1.isOk = true :=
    haccepted.apiCreate.mpr hbalanced
  rw [hrefused] at hok
  cases hok

end OpenAccounting
