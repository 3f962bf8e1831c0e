import OpenAccounting.Handlers.Access
import OpenAccounting.Domain.CloseControls

/-!
# Reversing and editing a transaction

`reverse` and `edit` of `handlers/transactions_edit.rs`.  Both keep the original
and write a `reversing` entry dated today with the directions flipped.  `edit`
writes the corrected entry after it, in the same database transaction.

The lines of the edit form reach the model as its parsers leave them: an id, an
amount or a date that does not parse is `none`.
-/

namespace OpenAccounting

open Calendar Commit

/-! ## Flipped postings -/

/-- The posting that undoes `p`, as the `k`-th of the `n`-th transaction. -/
def flippedRow (req : Request) (n k : ℕ) (memo : Option String) (p : Posting) : PostingRow where
  id := req.postingId n k
  transactionId := req.txnId n
  accountId := p.accountId
  amount := p.amount
  direction := p.direction.flip
  memo := memo

/-- The postings that undo `ps`, numbered from `k` on. -/
def flippedRows (req : Request) (n : ℕ) (memo : Posting → Option String) :
    ℕ → List Posting → List PostingRow
  | _, [] => []
  | k, p :: ps => flippedRow req n k (memo p) p :: flippedRows req n memo (k + 1) ps

variable {memo : Posting → Option String}

theorem flippedRows_transactionId {req : Request} {n : ℕ} :
    ∀ {k : ℕ} {ps : List Posting}, ∀ r ∈ flippedRows req n memo k ps, r.transactionId = req.txnId n
  | _, [], r, hr => by simp [flippedRows] at hr
  | k, p :: ps, r, hr => by
    simp only [flippedRows, List.mem_cons] at hr
    rcases hr with rfl | hr
    · rfl
    · exact flippedRows_transactionId r hr

theorem flippedRows_length {req : Request} {n : ℕ} :
    ∀ {k : ℕ} {ps : List Posting}, (flippedRows req n memo k ps).length = ps.length
  | _, [] => rfl
  | k, p :: ps => by simp [flippedRows, flippedRows_length]

theorem flippedRows_ids (req : Request) (n : ℕ) (memo : Posting → Option String) :
    ∀ (k : ℕ) (ps : List Posting), (flippedRows req n memo k ps).map PostingRow.id =
      (List.range' k ps.length).map (req.postingId n)
  | _, [] => rfl
  | k, p :: ps => by
    rw [flippedRows, List.map_cons, flippedRows_ids req n memo (k + 1) ps, List.length_cons,
      List.range'_succ]
    rfl

theorem flippedRows_sumOn (req : Request) (n : ℕ) (memo : Posting → Option String)
    (d : Direction) : ∀ (k : ℕ) (ps : List Posting),
      PostingRow.sumOn d (flippedRows req n memo k ps) = Posting.sumOn d.flip ps
  | _, [] => rfl
  | k, p :: ps => by
    have ih := flippedRows_sumOn req n memo d (k + 1) ps
    have hstored : Rounding.roundDp 4 p.amount = p.amount :=
      Rounding.roundDp_of_hasScale p.amount_scale
    simp only [PostingRow.sumOn] at ih
    simp only [flippedRows, PostingRow.sumOn, List.map_cons, List.sum_cons, ih,
      Posting.sumOn_cons, flippedRow, hstored]
    cases d <;> cases p.direction <;> simp [Direction.flip]

theorem flipped_balanced {req : Request} {n k : ℕ} {b : Books} {t : Transaction} {txn : Uuid}
    {ps : List Posting} (hb : b.Balanced txn)
    (hstored : List.Forall₂ PostingRow.Stored (flippedRows req n memo k (b.postingsOf txn)) ps) :
    (Write.post t ps).Balanced := by
  obtain ⟨hlen, hsum⟩ := hb
  constructor
  · rw [← hstored.length_eq, flippedRows_length]
    exact hlen
  · rw [PostingRow.Stored.sumOn_eq hstored, PostingRow.Stored.sumOn_eq hstored,
      flippedRows_sumOn, flippedRows_sumOn]
    exact hsum.symm

namespace TransactionsEdit

/-! ## The reversal -/

/-- The transaction row `insert_reversal` writes. -/
def reversalRow (req : Request) (user : Uuid) (ledger : Ledger) (original : Transaction) :
    Transaction where
  id := req.txnId 0
  ledgerId := ledger.id
  txnDate := req.today
  description := "Reversal of: " ++ original.description
  currency := ledger.baseCurrency
  kind := .reversing
  createdBy := user
  reversesId := some original.id
  createdAt := req.now

def insertReversal (db : Db) (req : Request) (user ledger : Uuid) (original : Transaction) :
    Except AppError Db := do
  let l ← okOr (db.findLedger ledger) (.db .rowNotFound)
  mapError .db (db.insertEntry (reversalRow req user l original)
    (flippedRows req 0 Posting.memo 0 (db.books.postingsOf original.id)))

/-- The text of a blocked write. -/
def closedMessage (db : Db) (ledger : Uuid) (fallback : NaiveDate) (what : String) : AppError :=
  .conflict ("Ledger is closed through " ++ ((db.closedThrough ledger).getD fallback).display ++
    ". " ++ what ++ " blocked.")

def reverse (db : Db) (req : Request) (auth : Option Uuid) (ledger txn : Uuid) :
    Except AppError Unit × Db :=
  commit db do
    let user ← okOr auth .unauthorized
    let _ ← db.ensureWriter user ledger
    let original ← okOr (db.books.findTxnIn txn ledger) .notFound
    ensure (original.kind ≠ .reversing) (.unprocessable "Cannot reverse a reversal")
    ensure (¬ (db.Closed ledger original.txnDate ∨ db.Closed ledger req.today))
      (closedMessage db ledger original.txnDate "Reversal")
    let db ← insertReversal db req user ledger original
    .ok ((), db)

/-! ## The edit -/

/-- One line of the form, as its parsers leave it. -/
structure ParsedLine where
  accountId : Option Uuid
  amount : Option ℚ
  /-- The text of the direction and, upper-cased, the side it names. -/
  directionText : String
  direction : Option Direction
  memo : String := ""
  /-- `none` when the text is neither empty nor an id. -/
  costCenterId : Option (Option Uuid) := some none
  projectId : Option (Option Uuid) := some none

/-- `EditForm`, with its date as the parser leaves it. -/
structure EditForm where
  date : Option NaiveDate
  description : String
  payee : Option String := none
  reference : Option String := none
  lines : List ParsedLine

/-- The line as a signed amount. -/
def parseLine (l : ParsedLine) : Except AppError TxnLineInput := do
  let account ← okOr l.accountId (.validation "Invalid account on a posting")
  let amount ← okOr l.amount (.validation "Invalid amount")
  let direction ← okOr l.direction (.validation ("Invalid direction: " ++ l.directionText))
  let costCenter ← okOr l.costCenterId (.validation "Invalid cost center on a posting")
  let project ← okOr l.projectId (.validation "Invalid project on a posting")
  .ok
    { accountId := account
      signedAmount := if direction = .debit then amount else -amount
      memo := if l.memo = "" then none else some l.memo
      costCenterId := costCenter
      projectId := project }

/-- The lines, in order. -/
def parseLines : List ParsedLine → Except AppError (List TxnLineInput)
  | [] => .ok []
  | l :: ls => do
    let input ← parseLine l
    let rest ← parseLines ls
    .ok (input :: rest)

/-- The `k`-th posting of the corrected entry.  The dimensions of the line are
not written. -/
def correctedLine (req : Request) (k : ℕ) (l : TxnLineInput) : PostingRow where
  id := req.postingId 1 k
  transactionId := req.txnId 1
  accountId := l.accountId
  amount := |l.signedAmount|
  direction := .ofSigned l.signedAmount
  memo := l.memo

/-- The postings of the corrected entry, numbered from `k` on. -/
def correctedLines (req : Request) : ℕ → List TxnLineInput → List PostingRow
  | _, [] => []
  | k, l :: ls => correctedLine req k l :: correctedLines req (k + 1) ls

def correctedRow (req : Request) (user : Uuid) (ledger : Ledger) (form : EditForm)
    (date : NaiveDate) : Transaction where
  id := req.txnId 1
  ledgerId := ledger.id
  txnDate := date
  description := RustStr.trim form.description
  payee := form.payee.filter fun s => s ≠ ""
  reference := form.reference.filter fun s => s ≠ ""
  currency := ledger.baseCurrency
  kind := .standard
  createdBy := user
  createdAt := req.now

def edit (db : Db) (req : Request) (auth : Option Uuid) (ledger txn : Uuid) (form : EditForm) :
    Except AppError Unit × Db :=
  commit db do
    let user ← okOr auth .unauthorized
    let l ← db.ensureWriter user ledger
    ensure (l.appendOnly = false) (.unprocessable ("ledger " ++ Uuid.hyphenated ledger ++
      " is append-only; edits are not allowed — reverse the transaction instead"))
    ensure (2 ≤ form.lines.length) (.validation "A transaction needs at least two postings.")
    let date ← okOr form.date (.validation "Invalid date format (YYYY-MM-DD)")
    ensure (RustStr.trim form.description ≠ "") (.validation "Description is required")
    let inputs ← parseLines form.lines
    let original ← okOr (db.books.findTxnIn txn ledger) .notFound
    ensure (original.kind ≠ .reversing)
      (.unprocessable "Cannot edit a reversal — reverse the original instead")
    -- The reversal is dated today, and today is not checked.
    ensure (¬ (db.Closed ledger original.txnDate ∨ db.Closed ledger date))
      (closedMessage db ledger date "Edit")
    let db ← insertReversal db req user ledger original
    let l ← okOr (db.findLedger ledger) (.db .rowNotFound)
    let db ← mapError .db
      (db.insertEntry (correctedRow req user l form date) (correctedLines req 0 inputs))
    .ok ((), db)

/-! ## What they do -/

/-- A written reversal: one entry, dated today, of the flipped postings. -/
theorem insertReversal_spec {db db' : Db} {req : Request} {user ledger : Uuid}
    {original : Transaction} (h : insertReversal db req user ledger original = .ok db') :
    ∃ t ps b', t.header = { ledgerId := ledger, txnDate := req.today, kind := .reversing } ∧
      db' = { db with books := b' } ∧ Books.Posts db.books b' t ps ∧
      List.Forall₂ PostingRow.Stored
        (flippedRows req 0 Posting.memo 0 (db.books.postingsOf original.id)) ps := by
  simp only [insertReversal, bind_eq_ok, okOr_eq_ok, mapError_eq_ok] at h
  obtain ⟨l, hl, h⟩ := h
  obtain ⟨-, b', ps, rfl, hposts, hstored, -⟩ :=
    Db.insertEntry_spec (fun r hr => flippedRows_transactionId r hr) h
  have hid : l.id = ledger := by simpa using List.find?_some hl
  exact ⟨_, ps, b', by simp [Transaction.header, reversalRow, hid], rfl, hposts, hstored⟩

theorem reverse_cases (db : Db) (req : Request) (auth : Option Uuid) (ledger txn : Uuid) :
    (reverse db req auth ledger txn).2 = db ∨ ∃ original t ps b',
      db.books.findTxnIn txn ledger = some original ∧
      ¬ db.Closed ledger original.txnDate ∧ ¬ db.Closed ledger req.today ∧
      t.header = { ledgerId := ledger, txnDate := req.today, kind := .reversing } ∧
      (reverse db req auth ledger txn).2 = { db with books := b' } ∧
      Books.Posts db.books b' t ps ∧
      List.Forall₂ PostingRow.Stored
        (flippedRows req 0 Posting.memo 0 (db.books.postingsOf original.id)) ps := by
  rcases commit_cases db _ with h | ⟨a, db', hbody, h⟩
  · exact Or.inl h
  · right
    simp only [bind_eq_ok, okOr_eq_ok, ensure_eq_ok, not_or] at hbody
    obtain ⟨user, -, _, -, original, horiginal, -, -, -, ⟨hopen, htoday⟩, db₁, hreversal,
      hbody⟩ := hbody
    cases hbody
    obtain ⟨t, ps, b', ht, rfl, hposts, hstored⟩ := insertReversal_spec hreversal
    exact ⟨original, t, ps, b', horiginal, hopen, htoday, ht, h, hposts, hstored⟩

theorem correctedLines_transactionId {req : Request} :
    ∀ {k : ℕ} {ls : List TxnLineInput}, ∀ r ∈ correctedLines req k ls, r.transactionId = req.txnId 1
  | _, [], r, hr => by simp [correctedLines] at hr
  | k, l :: ls, r, hr => by
    simp only [correctedLines, List.mem_cons] at hr
    rcases hr with rfl | hr
    · rfl
    · exact correctedLines_transactionId r hr

theorem correctedLines_length {req : Request} :
    ∀ {k : ℕ} {ls : List TxnLineInput}, (correctedLines req k ls).length = ls.length
  | _, [] => rfl
  | k, l :: ls => by simp [correctedLines, correctedLines_length]

theorem parseLines_length :
    ∀ {ls : List ParsedLine} {inputs : List TxnLineInput}, parseLines ls = .ok inputs →
      inputs.length = ls.length
  | [], inputs, h => by
    cases h
    rfl
  | l :: ls, inputs, h => by
    simp only [parseLines, bind_eq_ok] at h
    obtain ⟨input, -, rest, hrest, h⟩ := h
    cases h
    simp [parseLines_length hrest]

/-- What an accepted edit wrote: the reversal `t` and the corrected entry `u`. -/
structure Edited (db db' : Db) (req : Request) (ledger txn : Uuid) (form : EditForm)
    (date : NaiveDate) (inputs : List TxnLineInput) (original t u : Transaction)
    (ps qs : List Posting) : Prop where
  lines : parseLines form.lines = .ok inputs
  enough : 2 ≤ inputs.length
  date_read : form.date = some date
  original_found : db.books.findTxnIn txn ledger = some original
  original_open : ¬ db.Closed ledger original.txnDate
  date_open : ¬ db.Closed ledger date
  reversal : t.header = { ledgerId := ledger, txnDate := req.today, kind := .reversing }
  corrected : u.header = { ledgerId := ledger, txnDate := date, kind := .standard }
  writes : ∃ b₁ b₂, Books.Posts db.books b₁ t ps ∧ Books.Posts b₁ b₂ u qs ∧
    db' = { db with books := b₂ } ∧
    (db.balanceTrigger = true → b₂.Balanced u.id)
  flipped : List.Forall₂ PostingRow.Stored
    (flippedRows req 0 Posting.memo 0 (db.books.postingsOf original.id)) ps
  stored : List.Forall₂ PostingRow.Stored (correctedLines req 0 inputs) qs

theorem edit_cases (db : Db) (req : Request) (auth : Option Uuid) (ledger txn : Uuid)
    (form : EditForm) :
    (edit db req auth ledger txn form).2 = db ∨ ∃ date inputs original t u ps qs,
      Edited db (edit db req auth ledger txn form).2 req ledger txn form date inputs original
        t u ps qs := by
  rcases commit_cases db _ with h | ⟨a, db', hbody, h⟩
  · exact Or.inl h
  · right
    simp only [bind_eq_ok, okOr_eq_ok, ensure_eq_ok, mapError_eq_ok, not_or] at hbody
    obtain ⟨user, -, l, -, -, -, -, hlines, date, hdate, -, -, inputs, hinputs, original,
      horiginal, -, -, -, ⟨hopen, hdateOpen⟩, db₁, hreversal, l', hl', db₂, hcorrected,
      hbody⟩ := hbody
    cases hbody
    obtain ⟨t, ps, b₁, ht, rfl, hposts, hflipped⟩ := insertReversal_spec hreversal
    obtain ⟨-, b₂, qs, rfl, hposts', hstored, htrigger⟩ :=
      Db.insertEntry_spec (fun r hr => correctedLines_transactionId r hr) hcorrected
    have hid : l'.id = ledger := by simpa using List.find?_some hl'
    have hlen : 2 ≤ inputs.length := by
      rw [parseLines_length hinputs]
      exact hlines
    refine ⟨date, inputs, original, t, correctedRow req user l' form date, ps, qs, ?_⟩
    exact
      { lines := hinputs
        enough := hlen
        date_read := hdate
        original_found := horiginal
        original_open := hopen
        date_open := hdateOpen
        reversal := ht
        corrected := by simp [Transaction.header, correctedRow, hid]
        writes := ⟨b₁, b₂, hposts, hposts', h,
          fun hon => htrigger hon (by rw [correctedLines_length]; exact hlen)⟩
        flipped := hflipped
        stored := hstored }

theorem edit_unnumbered (db : Db) (req : Request) (auth : Option Uuid) (ledger txn : Uuid)
    (form : EditForm) :
    ∃ rows, (edit db req auth ledger txn form).2.books.transactions =
        db.books.transactions ++ rows ∧ ∀ t ∈ rows, t.number = none := by
  rcases commit_cases db _ with h | ⟨a, db', hbody, h⟩
  · exact ⟨[], by rw [edit, h, List.append_nil], by simp⟩
  · rw [edit, h]
    simp only [insertReversal, bind_eq_ok, okOr_eq_ok, ensure_eq_ok, mapError_eq_ok] at hbody
    obtain ⟨user, -, l, -, -, -, -, -, date, -, -, -, inputs, -, original, -, -, -, -, -, db₁,
      ⟨l₁, -, hreversal⟩, l₂, -, db₂, hcorrected, hbody⟩ := hbody
    cases hbody
    obtain ⟨-, b₁, ps, rfl, hposts, -⟩ :=
      Db.insertEntry_spec (fun r hr => flippedRows_transactionId r hr) hreversal
    obtain ⟨-, b₂, qs, rfl, hposts', -⟩ :=
      Db.insertEntry_spec (fun r hr => correctedLines_transactionId r hr) hcorrected
    refine ⟨[reversalRow req user l₁ original, correctedRow req user l₂ form date], ?_, ?_⟩
    · rw [hposts'.transactions, hposts.transactions]
      simp
    · simp [reversalRow, correctedRow]

end TransactionsEdit

end OpenAccounting
