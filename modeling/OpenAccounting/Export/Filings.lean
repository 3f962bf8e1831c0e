import OpenAccounting.Export.Snapshot
import OpenAccounting.Lib.Csv
import OpenAccounting.Lib.Xml

/-!
# Files for auditors and accountants

The SAF-T file, the DATEV batch and the XBRL instance.  Each is written for a period.
-/

/-!
## Writing SAF-T

`export/saf_t.rs`: the accounts of a ledger and the transactions of a period, one element on a line.
Directions are written as they are.
-/

namespace OpenAccounting.Export.SafT

open Calendar

/-- The characters that `xml_escape` replaces, in this order. -/
def entities : List (Char × List Char) :=
  [('&', ['&', 'a', 'm', 'p', ';']), ('<', ['&', 'l', 't', ';']), ('>', ['&', 'g', 't', ';']),
    ('"', ['&', 'q', 'u', 'o', 't', ';']), ('\'', ['&', 'a', 'p', 'o', 's', ';'])]

def xmlEscape (s : String) : String := String.ofList (Xml.escape entities s.toList)

/-- An element with a value. -/
def field (indent tag value : String) : String :=
  indent ++ "<" ++ tag ++ ">" ++ value ++ "</" ++ tag ++ ">\n"

/-- An element around others. -/
def element (indent tag inner : String) : String :=
  indent ++ "<" ++ tag ++ ">\n" ++ inner ++ indent ++ "</" ++ tag ++ ">\n"

def prolog : String := "<?xml version=\"1.0\" encoding=\"UTF-8\"?>\n"

def rootOpen : String := "<AuditFile xmlns=\"urn:OpenAccounting:SAF-Tlite\">\n"

def rootClose : String := "</AuditFile>\n"

def header (l : LedgerMeta) (start stop : NaiveDate) : String :=
  element "  " "Header" <|
    field "    " "CompanyName" (xmlEscape l.name) ++
    field "    " "CurrencyCode" (xmlEscape l.baseCurrency) ++
    field "    " "FromDate" start.display ++
    field "    " "ToDate" stop.display

def account (a : AccountRow) : String :=
  element "    " "Account" <|
    field "      " "Id" a.id.hyphenated ++
    field "      " "Name" (xmlEscape a.name) ++
    field "      " "Type" (xmlEscape a.type) ++
    field "      " "Currency" (xmlEscape a.currency)

variable (dec : Decimal.Text)

def posting (p : PostingRow) : String :=
  element "        " "Posting" <|
    field "          " "AccountId" p.accountId.hyphenated ++
    field "          " "Direction" p.direction ++
    field "          " "Amount" (dec.display p.amount)

section

variable (s : LedgerSnapshot)

def transaction (t : TransactionRow) : String :=
  element "    " "Transaction" <|
    field "      " "Id" t.id.hyphenated ++
    field "      " "Date" t.txnDate.display ++
    field "      " "Description" (xmlEscape t.description) ++
    element "      " "Postings" (String.join ((s.postingsOf t).map (posting dec)))

/-- The transactions that are not skipped. -/
def inPeriod (start stop : NaiveDate) : List TransactionRow :=
  s.transactions.filter fun t => ¬ (t.txnDate < start ∨ t.txnDate > stop)

def render (start stop : NaiveDate) : String :=
  prolog ++ rootOpen ++ header s.ledger start stop ++
    element "  " "ChartOfAccounts" (String.join (s.accounts.map account)) ++
    element "  " "GeneralLedgerEntries"
      (String.join ((inPeriod s start stop).map (transaction dec s))) ++
    rootClose

end

end OpenAccounting.Export.SafT

/-!
## Writing an XBRL instance

`export/xbrl.rs`: the accounts of a ledger and the postings of a period.  The quote that ends the
`id` of an account is missing, and so is a declaration of the prefix `gl`.
-/

namespace OpenAccounting.Export.Xbrl

open Calendar
open SafT (field inPeriod prolog xmlEscape)

/-- An element between others on its line. -/
def inline (tag attributes value : String) : String :=
  "<" ++ tag ++ attributes ++ ">" ++ value ++ "</" ++ tag ++ ">"

/-- An element on its line. -/
def line (indent tag attributes value : String) : String :=
  indent ++ inline tag attributes value ++ "\n"

/-- An element around others. -/
def element (indent tag attributes inner : String) : String :=
  indent ++ "<" ++ tag ++ attributes ++ ">\n" ++ inner ++ indent ++ "</" ++ tag ++ ">\n"

def rootAttributes : String := String.join
  [" xmlns=\"http://www.xbrl.org/int/gl/2005-03-31\"\n",
    "      xmlns:xbrli=\"http://www.xbrl.org/2003/instance\"\n",
    "      xmlns:link=\"http://www.xbrl.org/2003/linkbase\"\n",
    "      xmlns:xlink=\"http://www.w3.org/1999/xlink\""]

def context (l : LedgerMeta) (start stop : NaiveDate) : String :=
  element "  " "context" " id=\"period\"" <|
    line "    " "entity" ""
      (inline "identifier" " scheme=\"www.openaccounting.local\"" l.id.hyphenated) ++
    element "    " "period" ""
      (field "      " "startDate" start.display ++ field "      " "endDate" stop.display)

def unit : String := line "  " "unit" " id=\"EUR\"" (inline "measure" "" "iso4217:USD")

def account (a : AccountRow) : String :=
  element "  " "gl:account" (" id=\"acc-" ++ a.id.hyphenated) <|
    field "    " "gl:accountCode" a.id.hyphenated ++
    field "    " "gl:accountName" (xmlEscape a.name) ++
    field "    " "gl:accountType" (xmlEscape a.type)

variable (dec : Decimal.Text)

def entry (t : TransactionRow) (p : PostingRow) : String :=
  element "  " "gl:entry" (" id=\"p-" ++ p.id.hyphenated ++ "\"") <|
    field "    " "gl:date" t.txnDate.display ++
    field "    " "gl:description" (xmlEscape t.description) ++
    line "    " "gl:amount" " contextRef=\"period\" unitRef=\"EUR\" decimals=\"2\""
      (dec.display p.amount)

variable (s : LedgerSnapshot)

def entries (t : TransactionRow) : String := String.join ((s.postingsOf t).map (entry dec t))

def render (start stop : NaiveDate) : String :=
  prolog ++ element "" "xbrl" rootAttributes
    (context s.ledger start stop ++ unit ++ String.join (s.accounts.map account) ++
      String.join ((inPeriod s start stop).map (entries dec s)))

end OpenAccounting.Export.Xbrl

/-!
## Writing a DATEV batch

`export/datev.rs`: two lines of headers and a row for each transaction of a period that has a debit
posting and a credit posting of the same amount, of which the first ones are looked at.
-/

namespace OpenAccounting.Export.Datev

open Calendar
open SafT (inPeriod)

def header : String :=
  "EXTF;700;Buchungsstapel;2;1;1;1;openaccounting;Test;20260101;20260331;;;;"

/-- The names of the columns. -/
def columns : String :=
  "Umsatz (Soll);Umsatz (Haben);WKZ;Kurs;Basis-US$;Basis-US$ (Haben);Konto;Gegenkonto;" ++
    "BU-Schlüssel;Belegdatum;Belegfeld 1;Buchungstext;Fälligkeit;Skonto;Skontosperre"

def escape (s : String) : String := String.ofList (Csv.doubled s.toList)

/-- A date as `%d%m%Y`. -/
def belegdatum (d : NaiveDate) : String :=
  let sign := if d.year < 0 then "-" else if 9999 < d.year then "+" else ""
  RustStr.padZero 2 d.day ++ RustStr.padZero 2 d.month ++ sign ++ RustStr.padZero 4 d.year.natAbs

variable (dec : Decimal.Text)

def rowOf (t : TransactionRow) (debit credit : PostingRow) : String :=
  dec.display debit.amount ++ ";" ++ dec.display credit.amount ++ ";USD;;" ++
    dec.display debit.amount ++ ";" ++ dec.display credit.amount ++ ";" ++
    debit.accountId.hyphenated ++ ";" ++ credit.accountId.hyphenated ++ ";\"\";" ++
    belegdatum t.txnDate ++ ";" ++ t.reference.getD "" ++ ";" ++ escape t.description ++ ";" ++
    belegdatum t.txnDate ++ ";;"

variable (s : LedgerSnapshot)

/-- The row of a transaction, if it is not skipped. -/
def row (t : TransactionRow) : Option String :=
  let postings := s.postingsOf t
  match postings.find? fun p => p.direction = "DEBIT",
    postings.find? fun p => p.direction = "CREDIT" with
  | some debit, some credit =>
    if debit.amount.value ≠ credit.amount.value then none else some (rowOf dec t debit credit)
  | _, _ => none

/-- The rows of the transactions in the period. -/
def rows (start stop : NaiveDate) : List String := (inPeriod s start stop).filterMap (row dec s)

def render (start stop : NaiveDate) : String :=
  RustStr.unlines (header :: columns :: rows dec s start stop)

end OpenAccounting.Export.Datev
