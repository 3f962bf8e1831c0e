import OpenAccounting.Lib.SerialNumber
import OpenAccounting.System.JournalOps

/-!
# Transaction numbers

A transaction without a number of its own gets the one after the count of the rows of its ledger and
year.  The rows are counted, not the numbers: a reversal has no number, a caller may supply any, and
a deleted draft is not counted any more.

The next number is free as long as no number of the generated form is beyond the count of its year
(`InOrder`).  A supplied number keeps it so unless it is of that form and ahead of the next one, and
a deleted draft unless the last number is still in use (`KeepsOrder`).
-/

namespace OpenAccounting.PostingService

open Calendar Commit Relational SerialNumber

/-- The generated number, `{year}-{:06}`. -/
def autoNumber (year : ℤ) (n : ℕ) : String := label 6 year n

/-- The rows of the ledger with the given `number_year`. -/
def yearCount (rows : List Transaction) (ledger : Uuid) (year : ℤ) : ℕ :=
  (rows.filter fun t => t.ledgerId = ledger ∧ Transaction.numberYear t.txnDate = year).length

/-- No generated number is beyond the count of its year. -/
def InOrder (ledger : Uuid) (rows : List Transaction) : Prop :=
  ∀ t ∈ rows, t.ledgerId = ledger → ∀ n, t.number = some (autoNumber t.txnDate.year n) →
    1 ≤ t.txnDate.year ∧ n ≤ yearCount rows ledger t.txnDate.year

/-! ## Counting -/

theorem numberYear_of_pos {date : NaiveDate} (h : 1 ≤ date.year) :
    Transaction.numberYear date = date.year := if_neg (by omega)

theorem numberYear_inj {a b : NaiveDate} :
    Transaction.numberYear a = Transaction.numberYear b ↔ a.year = b.year := by
  unfold Transaction.numberYear
  split <;> split <;> omega

@[simp] theorem yearCount_append (rows others : List Transaction) (ledger : Uuid) (year : ℤ) :
    yearCount (rows ++ others) ledger year =
      yearCount rows ledger year + yearCount others ledger year := by
  simp [yearCount]

theorem yearCount_cons (t : Transaction) (rows : List Transaction) (ledger : Uuid) (year : ℤ) :
    yearCount (t :: rows) ledger year = yearCount rows ledger year +
      if t.ledgerId = ledger ∧ Transaction.numberYear t.txnDate = year then 1 else 0 := by
  rw [yearCount, yearCount, List.filter_cons]
  split <;> simp_all

theorem yearCount_map {f : Transaction → Transaction}
    (hf : ∀ t, (f t).ledgerId = t.ledgerId ∧ (f t).txnDate = t.txnDate ∧ (f t).number = t.number)
    (rows : List Transaction) (ledger : Uuid) (year : ℤ) :
    yearCount (rows.map f) ledger year = yearCount rows ledger year := by
  induction rows with
  | nil => rfl
  | cons t rows ih =>
    rw [List.map_cons, yearCount_cons, yearCount_cons, ih, (hf t).1, (hf t).2.1]

/-! ## Numbers in order -/

section InOrder

variable {ledger : Uuid} {rows others : List Transaction}

theorem InOrder.next_free (h : InOrder ledger rows) (date : NaiveDate) :
    ∀ t ∈ rows, ¬ (t.ledgerId = ledger ∧
      Transaction.numberYear t.txnDate = Transaction.numberYear date ∧
      t.number = some (autoNumber date.year (yearCount rows ledger date.year + 1))) := by
  rintro t ht ⟨hledger, hyear, hnumber⟩
  rw [← numberYear_inj.mp hyear] at hnumber
  have := (h t ht hledger _ hnumber).2
  omega

theorem InOrder.append_unnumbered (h : InOrder ledger rows)
    (hothers : ∀ t ∈ others, t.number = none) : InOrder ledger (rows ++ others) := by
  intro t ht hledger n hnumber
  rcases List.mem_append.mp ht with ht | ht
  · obtain ⟨hyear, hn⟩ := h t ht hledger n hnumber
    rw [yearCount_append]
    exact ⟨hyear, by omega⟩
  · rw [hothers t ht] at hnumber
    cases hnumber

/-- The number keeps the order on a row with the date: if it is a generated one, it is at most the
next. -/
def Fits (ledger : Uuid) (rows : List Transaction) (date : NaiveDate) (number : String) : Prop :=
  ∀ n, number = autoNumber date.year n →
    1 ≤ date.year ∧ n ≤ yearCount rows ledger date.year + 1

theorem InOrder.append_fitting {row : Transaction} (h : InOrder ledger rows)
    (hrow : row.ledgerId = ledger → ∀ number ∈ row.number, Fits ledger rows row.txnDate number) :
    InOrder ledger (rows ++ [row]) := by
  intro t ht hledger n hnumber
  rw [yearCount_append]
  rcases List.mem_append.mp ht with ht | ht
  · obtain ⟨hyear, hn⟩ := h t ht hledger n hnumber
    exact ⟨hyear, by omega⟩
  · rw [List.mem_singleton] at ht
    subst ht
    obtain ⟨hyear, hn⟩ := hrow hledger _ hnumber n rfl
    rw [yearCount_cons, if_pos ⟨hledger, numberYear_of_pos hyear⟩]
    exact ⟨hyear, by omega⟩

/-- Without a row whose year still has the last number elsewhere the others are in order. -/
theorem InOrder.remove {front back : List Transaction} {row : Transaction}
    (h : InOrder ledger (front ++ row :: back)) (hledger : row.ledgerId = ledger)
    (hlast : ∀ t ∈ front ++ back, t.ledgerId = ledger → t.txnDate.year = row.txnDate.year →
      t.number ≠ some (autoNumber row.txnDate.year
        (yearCount (front ++ row :: back) ledger row.txnDate.year))) :
    InOrder ledger (front ++ back) := by
  have hcount : ∀ year, yearCount (front ++ row :: back) ledger year =
      yearCount (front ++ back) ledger year +
        if Transaction.numberYear row.txnDate = year then 1 else 0 := by
    intro year
    rw [yearCount_append, yearCount_cons, yearCount_append, ← Nat.add_assoc]
    simp [hledger]
  intro t ht htl n hnumber
  have hmem : t ∈ front ++ row :: back := by
    rcases List.mem_append.mp ht with ht | ht <;> simp [ht]
  obtain ⟨hyear, hn⟩ := h t hmem htl n hnumber
  refine ⟨hyear, ?_⟩
  by_cases hsame : t.txnDate.year = row.txnDate.year
  · -- The last number of the year is not in use, so the count may go down.
    have hne : n ≠ yearCount (front ++ row :: back) ledger row.txnDate.year := by
      rintro rfl
      rw [hsame] at hnumber
      exact hlast t ht htl hsame hnumber
    rw [hsame] at hn ⊢
    have := hcount row.txnDate.year
    split at this <;> omega
  · rw [hcount, if_neg] at hn
    · exact hn
    · rw [← numberYear_of_pos hyear, numberYear_inj]
      exact fun heq => hsame heq.symm

theorem InOrder.map {f : Transaction → Transaction} (h : InOrder ledger rows)
    (hf : ∀ t, (f t).ledgerId = t.ledgerId ∧ (f t).txnDate = t.txnDate ∧ (f t).number = t.number) :
    InOrder ledger (rows.map f) := by
  intro s hs hledger n hnumber
  obtain ⟨t, ht, rfl⟩ := List.mem_map.mp hs
  obtain ⟨htl, htd, htn⟩ := hf t
  rw [htl] at hledger
  rw [htd] at hnumber ⊢
  rw [htn] at hnumber
  rw [yearCount_map hf]
  exact h t ht hledger n hnumber

end InOrder

/-! ## What the operations do to the numbers -/

/-- The number that a request asks for keeps the order.  A generated one does, except before the
year `1`: the database counts those years differently. -/
def Asks (ledger : Uuid) (rows : List Transaction) (new : NewTransaction) : Prop :=
  match RustStr.nonEmptyTrimmed new.number with
  | some number => Fits ledger rows new.txnDate number
  | none => 1 ≤ new.txnDate.year

theorem resolveNumber_fits {b : Books} {new : NewTransaction} {number : Option String}
    (h : resolveNumber b new = .ok number) (hasks : Asks new.ledgerId b.transactions new) :
    ∀ s ∈ number, Fits new.ledgerId b.transactions new.txnDate s := by
  intro s hs n hn
  unfold resolveNumber at h
  unfold Asks at hasks
  cases hsupplied : RustStr.nonEmptyTrimmed new.number with
  | some supplied =>
    simp only [hsupplied, bind_eq_ok] at h hasks
    obtain ⟨_, -, h⟩ := h
    cases h
    cases hs
    exact hasks n hn
  | none =>
    simp only [hsupplied] at h hasks
    cases h
    cases hs
    have hauto : autoNumber new.txnDate.year
        (yearCount b.transactions new.ledgerId new.txnDate.year + 1) =
          autoNumber new.txnDate.year n := hn
    exact ⟨hasks, (label_inj.mp hauto).ge⟩

theorem createWithKind_inOrder {db : Db} {req : Request} {new : NewTransaction} {isDraft : Bool}
    (h : InOrder new.ledgerId db.books.transactions)
    (hasks : Asks new.ledgerId db.books.transactions new) :
    InOrder new.ledgerId (createWithKind db req new isDraft).2.books.transactions := by
  rcases createWithKind_number db req new isDraft with hsame | ⟨t, hrows, -, hdate, hnumber⟩
  · rw [hsame]
    exact h
  · rw [hrows]
    refine h.append_fitting fun _ => ?_
    rw [hdate]
    exact resolveNumber_fits hnumber hasks

/-- If the draft is deleted, no other row of its year has the last number. -/
def LastFree (ledger : Uuid) (b : Books) (txn : Uuid) : Prop :=
  ∀ draft ∈ b.findTxnIn txn ledger, draft.kind = .draft →
    ∀ t ∈ b.transactions, t.id ≠ txn → t.ledgerId = ledger →
      t.txnDate.year = draft.txnDate.year →
      t.number ≠ some (autoNumber draft.txnDate.year
        (yearCount b.transactions ledger draft.txnDate.year))

theorem deleteDraft_inOrder {db : Db} {ledger txn : Uuid} (h : InOrder ledger db.books.transactions)
    (hlast : LastFree ledger db.books txn) :
    InOrder ledger (deleteDraft db ledger txn).2.books.transactions := by
  rcases deleteDraft_cases db ledger txn with hsame | ⟨draft, db', hdraft, hkind, hdelete, hdb'⟩
  · rw [hsame]
    exact h
  · obtain ⟨f, hf, hrows⟩ := Db.deleteTransaction_rows hdelete
    rw [hdb', hrows]
    refine InOrder.map ?_ hf
    obtain ⟨hmem, hid, hledger⟩ := Books.findTxnIn_spec hdraft
    have hothers := hlast draft hdraft hkind
    have hids := db.books.txn_ids_nodup
    obtain ⟨front, back, hsplit⟩ := List.append_of_mem hmem
    rw [hsplit] at h hothers hids ⊢
    subst hid
    rw [filter_ne_split hids]
    refine h.remove hledger fun t ht => ?_
    -- The rows that stay have other ids than the draft.
    have hstays : t ∈ (front ++ draft :: back).filter fun u => u.id ≠ draft.id := by
      rwa [filter_ne_split hids]
    obtain ⟨ht, hne⟩ := List.mem_filter.mp hstays
    exact hothers t ht (by simpa using hne)

/-! ## Creating without a number -/

/-- A transaction without a number of its own that is valid otherwise: the checks accept its lines,
its period, its accounts and its dimensions, and without any number its rows could be written. -/
structure Valid (db : Db) (req : Request) (new : NewTransaction) (ledger : Ledger)
    (effective : List ℚ) (kind : TxnKind) : Prop where
  blank : RustStr.nonEmptyTrimmed new.number = none
  lines : validate db req new = .ok effective
  found : db.findLedger new.ledgerId = some ledger
  period : ¬ db.Closed new.ledgerId new.txnDate
  accounts : checkAccounts db.books new.ledgerId new.lines = .ok ()
  dimensions : checkDimensions db new.ledgerId new.lines = .ok ()
  parsed : TxnKind.fromDb (makerChecker ledger (new.kind.getD "standard") false
    (debitTotal effective)).1 = some kind
  rows : (({ db with balanceTrigger := false } : Db).insertEntry (txnRow req ledger new kind none)
    (lineRows req 0 new.lines effective)).isOk
  taxes : (insertTaxLinks ((lineRows req 0 new.lines effective).map PostingRow.id) db
    new.taxLinks).isOk
  total : (amountColumn (debitTotal effective)).isSome

/-- The number a create without one gets. -/
def nextNumber (rows : List Transaction) (ledger : Uuid) (date : NaiveDate) : String :=
  autoNumber date.year (yearCount rows ledger date.year + 1)

theorem checkDimensions_withoutTrigger (db : Db) (ledger : Uuid) (ls : List TxnLineInput) :
    checkDimensions { db with balanceTrigger := false } ledger ls =
      checkDimensions db ledger ls := by
  induction ls with
  | nil => rfl
  | cons l ls ih => simp only [checkDimensions, ih]

section Create

variable {db : Db} {req : Request} {new : NewTransaction} {ledger : Ledger} {effective : List ℚ}
  {kind : TxnKind}

theorem Valid.writeTransaction (h : Valid db req new ledger effective kind)
    (hfree : ∀ t ∈ db.books.transactions, ¬ (t.ledgerId = new.ledgerId ∧
      Transaction.numberYear t.txnDate = Transaction.numberYear new.txnDate ∧
      t.number = some (nextNumber db.books.transactions new.ledgerId new.txnDate))) :
    ∃ isPending db', PostingService.writeTransaction db req new false effective =
      .ok (({ id := req.txnId 0, kind := kind,
              number := some (nextNumber db.books.transactions new.ledgerId new.txnDate) },
            isPending), db') := by
  obtain ⟨db₁, hdb₁⟩ := exists_ok_of_isOk h.rows
  obtain ⟨b', hentry⟩ := Db.insertEntry_numbered hfree hdb₁
  obtain ⟨db₂, hdb₂⟩ := exists_ok_of_isOk h.taxes
  obtain ⟨-, b₁, -, rfl, -⟩ := Db.insertEntry_spec (fun r hr => lineRows_transactionId r hr) hdb₁
  let written : Db := { db with balanceTrigger := false, books := b' }
  have hrates : written.taxRates = db.taxRates := rfl
  obtain ⟨taxes, htaxes⟩ := insertTaxLinks_congr hdb₂ hrates rfl
  have hnumber : resolveNumber db.books new =
      .ok (some (nextNumber db.books.transactions new.ledgerId new.txnDate)) := by
    simp only [resolveNumber, h.blank]
    rfl
  simp only [PostingService.writeTransaction, bind_eq_ok, okOr_eq_ok, ensure_eq_ok, mapError_eq_ok]
  exact ⟨_, _, ledger, h.found, (), Or.inr h.period, (), h.accounts, (),
    by rw [checkDimensions_withoutTrigger]; exact h.dimensions, _, hnumber, kind, h.parsed, _,
      hentry, _, htaxes, rfl⟩

theorem Valid.create (h : Valid db req new ledger effective kind)
    (horder : InOrder new.ledgerId db.books.transactions) :
    ∃ created, (PostingService.create db req new).1 = .ok created ∧
      created.number = some (nextNumber db.books.transactions new.ledgerId new.txnDate) := by
  obtain ⟨isPending, db', hwrite⟩ := h.writeTransaction (horder.next_free new.txnDate)
  refine ⟨{ id := req.txnId 0, kind := kind,
            number := some (nextNumber db.books.transactions new.ledgerId new.txnDate) }, ?_, rfl⟩
  simp only [PostingService.create, createWithKind, h.lines, hwrite, commit]
  cases isPending with
  | false => rfl
  | true =>
    obtain ⟨amount, hamount⟩ := Option.isSome_iff_exists.mp h.total
    simp only [insertApproval, hamount]
    rfl

end Create

/-! ## Runs -/

/-- One operation on the ledger. -/
inductive Action where
  | create (req : Request) (new : NewTransaction)
  | createDraft (req : Request) (new : NewTransaction)
  | deleteDraft (txn : Uuid)
  | edit (req : Request) (auth : Option Uuid) (txn : Uuid) (form : TransactionsEdit.EditForm)
  | bulkDelete (req : Request) (auth : Option Uuid) (txnIds : List Uuid)

/-- The database after the operation. -/
def step (ledger : Uuid) (db : Db) : Action → Db
  | .create req new => (create db req { new with ledgerId := ledger }).2
  | .createDraft req new => (createDraft db req { new with ledgerId := ledger }).2
  | .deleteDraft txn => (deleteDraft db ledger txn).2
  | .edit req auth txn form => (TransactionsEdit.edit db req auth ledger txn form).2
  | .bulkDelete req auth ids =>
    (TransactionsBulk.bulkAction db req auth ledger { txnIds := ids, action := .delete }).2

/-- Every valid transaction of the ledger without a number of its own is created, with the next
number. -/
def Numbers (ledger : Uuid) (db : Db) : Prop :=
  ∀ req new l effective kind, new.ledgerId = ledger → Valid db req new l effective kind →
    ∃ created, (create db req new).1 = .ok created ∧
      created.number = some (nextNumber db.books.transactions ledger new.txnDate)

/-- The operation puts no generated number beyond the count of its year. -/
def KeepsOrder (ledger : Uuid) (db : Db) : Action → Prop
  | .create _ new => Asks ledger db.books.transactions new
  | .createDraft _ new => Asks ledger db.books.transactions new
  | .deleteDraft txn => LastFree ledger db.books txn
  | .edit .. => True
  | .bulkDelete .. => True

/-- The invariant, for one action that keeps the order. -/
theorem step_inOrder {ledger : Uuid} {db : Db} {a : Action}
    (h : InOrder ledger db.books.transactions) (hkeeps : KeepsOrder ledger db a) :
    InOrder ledger (step ledger db a).books.transactions := by
  cases a with
  | create req new => exact createWithKind_inOrder h hkeeps
  | createDraft req new => exact createWithKind_inOrder h hkeeps
  | deleteDraft txn => exact deleteDraft_inOrder h hkeeps
  | edit req auth txn form =>
    obtain ⟨rows, hrows, hnone⟩ := TransactionsEdit.edit_unnumbered db req auth ledger txn form
    simp only [step, hrows]
    exact h.append_unnumbered hnone
  | bulkDelete req auth ids =>
    obtain ⟨rows, hrows, hnone⟩ := TransactionsBulk.bulkDelete_unnumbered db req auth ledger
      { txnIds := ids, action := .delete } rfl
    simp only [step, hrows]
    exact h.append_unnumbered hnone

/-- Along a run whose operations keep the order, from a ledger without transactions, the next number
is always free. -/
theorem numbers_of_keepsOrder {ledger : Uuid} {db : Db} {actions : List Action}
    (hempty : ∀ t ∈ db.books.transactions, t.ledgerId ≠ ledger)
    (hkeeps : Runs.Meets (step ledger) (KeepsOrder ledger) db actions) :
    ∀ db' ∈ Runs.visited (step ledger) db actions, Numbers ledger db' := by
  have horder : InOrder ledger db.books.transactions :=
    fun t ht hledger => absurd hledger (hempty t ht)
  have hall := Runs.invariant_of_meets
    (P := fun db : Db => InOrder ledger db.books.transactions)
    (fun _ _ h hkeeps => step_inOrder h hkeeps) horder hkeeps
  intro db' hdb' req new l effective kind hledger hvalid
  subst hledger
  exact hvalid.create (hall db' hdb')

instance (ledger : Uuid) (rows : List Transaction) (date : NaiveDate) (number : String) :
    Decidable (Fits ledger rows date number) :=
  decidable_of_iff (∀ n ∈ serial number, number = autoNumber date.year n →
    1 ≤ date.year ∧ n ≤ yearCount rows ledger date.year + 1) (by
      refine ⟨fun h n hn => h n ?_ hn, fun h n _ hn => h n hn⟩
      rw [hn, autoNumber, serial_label]
      rfl)

instance (ledger : Uuid) (rows : List Transaction) (new : NewTransaction) :
    Decidable (Asks ledger rows new) := by
  unfold Asks
  split <;> infer_instance

instance (ledger : Uuid) (b : Books) (txn : Uuid) : Decidable (LastFree ledger b txn) := by
  unfold LastFree
  infer_instance

instance (ledger : Uuid) (db : Db) : (a : Action) → Decidable (KeepsOrder ledger db a)
  | .create _ new | .createDraft _ new =>
    inferInstanceAs (Decidable (Asks ledger db.books.transactions new))
  | .deleteDraft txn => inferInstanceAs (Decidable (LastFree ledger db.books txn))
  | .edit .. | .bulkDelete .. => inferInstanceAs (Decidable True)

namespace Sample

open OpenAccounting.Sample

/-- A draft, a transaction after it, and the draft is deleted. -/
def draftDeleted : List Action :=
  [.createDraft (request 1) (sale 10), .create (request 2) (sale 20),
    .deleteDraft ((request 1).txnId 0)]

/-- The number of a document, a correction, a draft that is deleted, and a reversal. -/
def mixed : List Action :=
  [.create (request 1) { sale 10 with number := some "INV-7" }, .create (request 2) (sale 20),
    .edit (request 3) (some owner) ((request 2).txnId 0) (editForm 25 25),
    .createDraft (request 4) (sale 30), .deleteDraft ((request 4).txnId 0),
    .bulkDelete (request 5) (some owner) [(request 1).txnId 0]]

/-- The database after the draft is deleted. -/
def gap : Db := Runs.exec (step ledgerId) OpenAccounting.Sample.db draftDeleted

theorem gap_valid : Valid gap (request 4) (sale 5) { id := ledgerId, ownerId := owner } [5, -5]
    .standard where
  blank := by decide
  lines := by decide +kernel
  found := by decide +kernel
  period := by decide +kernel
  accounts := by decide +kernel
  dimensions := by decide
  parsed := by decide +kernel
  rows := by decide +kernel
  taxes := by decide
  total := by decide +kernel

end Sample

/-- The next number is the one of the transaction after the draft. -/
theorem draftDeleted_blocked :
    (∀ t ∈ Sample.db.books.transactions, t.ledgerId ≠ Sample.ledgerId) ∧
      ¬ ∀ db ∈ Runs.visited (step Sample.ledgerId) Sample.db Sample.draftDeleted,
        Numbers Sample.ledgerId db := by
  refine ⟨by decide, fun h => ?_⟩
  obtain ⟨created, hcreated, -⟩ := h Sample.gap (Runs.exec_mem_visited _ _) _ _ _ _ _ rfl
    Sample.gap_valid
  have hblocked : (create Sample.gap (Sample.request 4) (Sample.sale 5)).1.isOk = false := by
    decide +kernel
  rw [hcreated] at hblocked
  cases hblocked

theorem numbers_of_keepsOrder_mixed :
    Numbers Sample.ledgerId (Runs.exec (step Sample.ledgerId) Sample.db Sample.mixed) := by
  have hkeeps : Runs.Meets (step Sample.ledgerId) (KeepsOrder Sample.ledgerId) Sample.db
      Sample.mixed := by
    refine ⟨?_, ?_, trivial, ?_, ?_, trivial, trivial⟩ <;> decide +kernel
  exact numbers_of_keepsOrder (by decide) hkeeps _ (Runs.exec_mem_visited _ _)

end OpenAccounting.PostingService
