import Mathlib.Data.String.Basic
import OpenAccounting.Export.Snapshot
import OpenAccounting.Import.PlainText

/-!
# Plain-text exports

hledger CSV and Beancount, written from the same snapshot and read again by the plain-text import.
-/

/-!
## Writing hledger CSV

`export/hledger.rs`: two comments, a header of three fields and one record for each transaction.
The results of `write_record` are not looked at.  An unknown direction panics.
-/

namespace OpenAccounting.Export.Hledger

open Import (Libraries)

/-- `CARGO_PKG_VERSION`. -/
def version : String := "0.1.0"

def header : List String := ["date", "description", "payee"]

/-- The account and the amount of a posting. -/
def pair (lib : Libraries) (s : LedgerSnapshot) (p : PostingRow) : Option (List String) :=
  p.signed.map fun signed =>
    [((s.findAccount p.accountId).map AccountRow.name).getD "", lib.decimal.display signed]

def record (lib : Libraries) (s : LedgerSnapshot) (t : TransactionRow) : Option (List String) :=
  ((s.postingsOf t).mapM (pair lib s)).map fun pairs =>
    [t.txnDate.display, t.description, t.payee.getD ""] ++ pairs.flatten

def render (lib : Libraries) (s : LedgerSnapshot) : Option String :=
  (s.inOrder.mapM (record lib s)).map fun records =>
    "# Generated by openaccounting " ++ version ++ "\n" ++
      ("# Ledger: " ++ s.ledger.name ++ " (" ++ s.ledger.id.hyphenated ++ ")\n") ++
      (Csv.Writer.writeAll lib.csv.quote {} (header :: records)).text

end OpenAccounting.Export.Hledger

/-!
## Writing Beancount

`export/beancount.rs`: comments and options, a commodity for each currency, an `open` for each
account, and then a block for each transaction.  An unknown direction panics.
-/

namespace OpenAccounting.Export.Beancount

open Calendar
open Import (Libraries)

/-- `CARGO_PKG_VERSION`. -/
def version : String := "0.1.0"

def beancountAccountName (name : String) : String :=
  name.map fun c => if c = ' ' ∨ c = '\t' ∨ c = '-' ∨ c = ':' then '_' else c

def unmangleAccountName (name : String) : String := name.map fun c => if c = '_' then ' ' else c

def formatDecimal (lib : Libraries) (d : Decimal.Scaled) : String :=
  let s := lib.decimal.display d
  if '.' ∈ s.toList then s else s ++ ".00"

/-- What a character is written as. -/
def escapeChar : Char → List Char
  | '"' => ['\\', '"']
  | '\\' => ['\\', '\\']
  | '\n' => ['\\', 'n']
  | '\r' => ['\\', 'r']
  | '\t' => ['\\', 't']
  | c => [c]

def escapeBeancountString (s : String) : String := String.ofList (s.toList.flatMap escapeChar)

def quoted (s : String) : String := "\"" ++ escapeBeancountString s ++ "\""

section

variable (s : LedgerSnapshot)

/-- The mangled name of an account. -/
def accountName (id : Uuid) : String :=
  ((s.findAccount id).map fun a => beancountAccountName a.name).getD "Unknown"

/-- The first transaction date that an account is posted to. -/
def firstUse (account : Uuid) : Option NaiveDate :=
  ((s.postings.filter fun p => p.accountId = account).filterMap fun p =>
    (s.transactions.reverse.find? fun t => t.id = p.transactionId).map
      TransactionRow.txnDate).min?

def ledgerOpenDate : NaiveDate :=
  (s.transactions.map TransactionRow.txnDate).min?.getD s.ledger.createdAt.date

def openLine (a : AccountRow) : String :=
  ((firstUse s a.id).getD (ledgerOpenDate s)).display ++ " open " ++ accountName s a.id ++ " " ++
    a.currency

/-- The lines before the transactions. -/
def preamble (now : UtcTime) : List String :=
  ["; Generated by openaccounting " ++ version,
    "; Ledger: " ++ s.ledger.name ++ " (" ++ s.ledger.id.hyphenated ++ ")",
    "; Exported at " ++ now.display, "", "option \"title\" " ++ quoted s.ledger.name,
    "option \"operating_currency\" \"" ++ s.ledger.baseCurrency ++ "\""] ++
  s.currencies.map (fun cur => "1970-01-01 commodity " ++ cur) ++ [""] ++
  (Relational.orderBy (fun a => toLex (a.type, a.name)) s.accounts).map (openLine s) ++ [""]

def headerLine (t : TransactionRow) : String :=
  let desc := quoted t.description
  let narration :=
    match t.payee.filter fun payee => payee ≠ "" with
    | some payee => quoted payee ++ " " ++ desc
    | none => desc
  t.txnDate.display ++ " * " ++ narration

def postingLine (lib : Libraries) (p : PostingRow) : Option String :=
  p.signed.map fun signed =>
    "  " ++ RustStr.padEnd 50 (accountName s p.accountId) ++ "  " ++
      RustStr.padStart 12 (formatDecimal lib signed) ++ " " ++ p.currency

def block (lib : Libraries) (t : TransactionRow) : Option (List String) :=
  ((s.postingsOf t).mapM (postingLine s lib)).map fun lines => headerLine t :: lines ++ [""]

def render (lib : Libraries) (now : UtcTime) : Option String :=
  (s.inOrder.mapM (block s lib)).map fun blocks =>
    RustStr.unlines (preamble s now ++ blocks.flatten)

end

end OpenAccounting.Export.Beancount
