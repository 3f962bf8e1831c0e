import OpenAccounting.Domain.Account
import OpenAccounting.Lib.Calendar
import OpenAccounting.Lib.Commit
import OpenAccounting.Lib.Csv
import OpenAccounting.Lib.DecimalText

/-!
# Plain-text transactions

What both plain-text parsers return, from `import/pta.rs`, and the libraries they read with.
-/

namespace OpenAccounting.Import

open Calendar

structure PtaPosting where
  accountName : String
  amount : ℚ
  direction : Direction
deriving DecidableEq

structure PtaTxn where
  date : NaiveDate
  description : String
  payee : Option String := none
  postings : List PtaPosting := []
deriving DecidableEq

/-- The libraries behind the text formats. -/
structure Libraries where
  /-- `NaiveDate::parse_from_str(text, "%Y-%m-%d")`. -/
  parseDate : String → Option NaiveDate
  decimal : Decimal.Text
  csv : Csv.Format

/-- What has been written can be read. -/
structure Libraries.Lawful (lib : Libraries) : Prop where
  parse_display : ∀ d : NaiveDate, lib.parseDate d.display = some d
  decimal : lib.decimal.Lawful
  csv : lib.csv.Lawful

/-- Libraries that read just what they write. -/
def plainLibraries : Libraries where
  parseDate := NaiveDate.parseYmd
  decimal := Decimal.plain
  csv := Csv.rfc4180

theorem plainLibraries_lawful : plainLibraries.Lawful where
  parse_display := NaiveDate.parseYmd_display
  decimal := Decimal.plain_lawful
  csv := Csv.rfc4180_lawful

/-- A signed amount as a posting, or none if it is zero.  A positive one is a debit. -/
def PtaPosting.ofSigned (accountName : String) (signed : ℚ) : Option PtaPosting :=
  if signed = 0 then none
  else if 0 < signed then some { accountName := accountName, amount := signed, direction := .debit }
  else some { accountName := accountName, amount := -signed, direction := .credit }

theorem PtaPosting.ofSigned_debit {name : String} {x : ℚ} (h : 0 < x) :
    ofSigned name x = some { accountName := name, amount := x, direction := .debit } := by
  rw [ofSigned, if_neg h.ne', if_pos h]

theorem PtaPosting.ofSigned_credit {name : String} {x : ℚ} (h : 0 < x) :
    ofSigned name (-x) = some { accountName := name, amount := x, direction := .credit } := by
  rw [ofSigned, if_neg (neg_ne_zero.mpr h.ne'), if_neg (by linarith), neg_neg]

end OpenAccounting.Import

/-!
## Reading Beancount

`import/beancount.rs`.  A line that starts with a date and a flag begins a transaction, the indented
lines after it are its postings, and every other line that is not indented is passed over.
-/

namespace OpenAccounting.Import.Beancount

open Calendar Commit

/-- The character that a backslash in a string stands for. -/
def unescape : Char → Char
  | 'n' => '\n'
  | 't' => '\t'
  | 'r' => '\r'
  | c => c

/-- The strings of the rest of a narration.  `current` has what has been read of the next one, in
reverse. -/
def stringsFrom (out : List String) (current : List Char) (inString : Bool) :
    List Char → List String
  | [] =>
    -- An unterminated quote.
    if inString = true ∧ current ≠ [] then out ++ [String.ofList current.reverse] else out
  | '"' :: cs =>
    if inString then stringsFrom (out ++ [String.ofList current.reverse]) [] false cs
    else stringsFrom out current true cs
  | ['\\'] => stringsFrom out (if inString then current else '\\' :: current) inString []
  | '\\' :: c :: cs =>
    if inString then stringsFrom out (unescape c :: current) inString cs
    else stringsFrom out ('\\' :: current) inString (c :: cs)
  | c :: cs =>
    if inString = true ∨ RustStr.isWhitespace c = false then
      stringsFrom out (c :: current) inString cs
    else stringsFrom out current inString cs

def splitBeancountStrings (s : String) : List String :=
  if '"' ∈ s.toList then stringsFrom [] [] false s.toList else RustStr.splitWhitespace s

def parseTxnHeader (date : NaiveDate) (rest : String) : Option PtaTxn := do
  let afterFlag ← RustStr.stripPrefix "*" rest <|> RustStr.stripPrefix "!" rest <|>
    RustStr.stripPrefix "txn" rest <|> RustStr.stripPrefix "txn " rest
  match splitBeancountStrings (RustStr.trimStart afterFlag) with
  | [] => some { date := date, description := "" }
  | [description] => some { date := date, description := description }
  | payee :: parts =>
    some { date := date, description := " ".intercalate parts, payee := some payee }

def parsePosting (lib : Libraries) (line : String) : Except String (Option PtaPosting) :=
  let line := RustStr.before ';' line
  let line := RustStr.trimEnd (RustStr.before (if '@' ∈ line.toList then '@' else '#') line)
  match RustStr.splitWhitespace line with
  | account :: amountTok :: _ => do
    let signed ← okOr (lib.decimal.parse (RustStr.without ',' amountTok))
      s!"invalid amount '{amountTok}'"
    .ok (PtaPosting.ofSigned account signed)
  | _ => .ok none

/-- A line that is not indented: the header of a transaction or something else. -/
def directive (lib : Libraries) (line : String) : Option PtaTxn := do
  let body := RustStr.trimStart line
  let datePart ← (RustStr.splitWhitespace body).head?
  let date ← lib.parseDate datePart
  parseTxnHeader date (RustStr.trimStart (String.ofList (body.toList.drop datePart.length)))

/-- The lines from number `lineNo` on, after the transactions `txns` and the one that is open. -/
def parseLines (lib : Libraries) (lineNo : ℕ) (txns : List PtaTxn) (current : Option PtaTxn) :
    List String → Except String (List PtaTxn)
  | [] => .ok (txns ++ current.toList)
  | raw :: lines =>
    let line := RustStr.trimEnd raw
    if RustStr.trim line = "" ∨ (RustStr.trimStart line).toList.head? = some ';' then
      parseLines lib (lineNo + 1) txns current lines
    else if line.toList.head? = some ' ' ∨ line.toList.head? = some '\t' then do
      let txn ← okOr current s!"line {lineNo}: posting without a transaction header"
      let posting ← parsePosting lib (RustStr.trimStart line)
      parseLines lib (lineNo + 1) txns
        (some { txn with postings := txn.postings ++ posting.toList }) lines
    else parseLines lib (lineNo + 1) (txns ++ current.toList) (directive lib line) lines

def parse (lib : Libraries) (input : String) : Except String (List PtaTxn) :=
  parseLines lib 1 [] none (RustStr.lines input)

end OpenAccounting.Import.Beancount

/-!
## Reading hledger CSV

`import/hledger.rs`: a header, and then one record for each transaction, with the date, the
description, the payee and one account and amount for each posting.
-/

namespace OpenAccounting.Import.Hledger

open Commit

/-- The pairs of a record.  A zero amount is passed over. -/
def parsePairs (lib : Libraries) (row : ℕ) : List String → Except String (List PtaPosting)
  | account :: amount :: rest => do
    let signed ← okOr (lib.decimal.parse amount)
      s!"csv row {row}: invalid amount '{amount}' for account '{account}'"
    let postings ← parsePairs lib row rest
    .ok ((PtaPosting.ofSigned account signed).toList ++ postings)
  | _ => .ok []

/-- One record, of which `row` is the number. -/
def parseRecord (lib : Libraries) (row : ℕ) (record : List String) : Except String PtaTxn := do
  ensure (4 ≤ record.length)
    s!"csv row {row}: expected at least account1,amount1 after date,description,payee"
  ensure ((record.length - 3) % 2 = 0)
    s!"csv row {row}: fields after payee must come in account/amount pairs"
  let date := record[0]?.getD ""
  let payee := record[2]?.getD ""
  let date ← okOr (lib.parseDate date) s!"csv row {row}: invalid date '{date}'"
  let postings ← parsePairs lib row (record.drop 3)
  .ok
    { date := date
      description := record[1]?.getD ""
      payee := if payee = "" then none else some payee
      postings := postings }

/-- The records from number `row` on. -/
def parseRecords (lib : Libraries) :
    ℕ → List (Except String (List String)) → Except String (List PtaTxn)
  | _, [] => .ok []
  | row, result :: results => do
    let record ← mapError (fun e => s!"csv row {row}: {e}") result
    let txn ← parseRecord lib row record
    let txns ← parseRecords lib (row + 1) results
    .ok (txn :: txns)

def parse (lib : Libraries) (input : String) : Except String (List PtaTxn) :=
  parseRecords lib 1 (lib.csv.read input)

theorem length_parseRecords {lib : Libraries} {row : ℕ} {results : List (Except String (List String))}
    {txns : List PtaTxn} (h : parseRecords lib row results = .ok txns) :
    txns.length = results.length := by
  induction results generalizing row txns with
  | nil =>
    cases h
    rfl
  | cons result results ih =>
    simp only [parseRecords, bind_eq_ok, Except.ok.injEq] at h
    obtain ⟨record, -, txn, -, rest, hrest, rfl⟩ := h
    rw [List.length_cons, List.length_cons, ih hrest]

end OpenAccounting.Import.Hledger
