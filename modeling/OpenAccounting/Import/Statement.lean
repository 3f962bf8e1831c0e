import OpenAccounting.Lib.Calendar
import OpenAccounting.Lib.Commit
import OpenAccounting.Lib.Removal
import OpenAccounting.Lib.TextSearch
import OpenAccounting.Lib.Words

/-!
# Bank statements

The four parsers of `import/statement`, the sniffing of a file's format, and the payees of the lines
as deduplication compares them.
-/

/-!
## Statement lines

What every statement parser of `import/statement` returns, and the libraries that the parsers and
the upload of a statement call.
-/

namespace OpenAccounting.Import.Statement

open Calendar

structure StatementLine where
  date : NaiveDate
  amount : ℚ
  payee : String
  memo : Option String := none
  externalId : Option String := none
  currency : Option String := none
deriving DecidableEq

/-- How a parser ends without lines. -/
inductive Failure where
  | message (text : String)
  /-- A slice inside of a character. -/
  | panic
deriving DecidableEq

/-- The libraries behind the upload of a statement. -/
structure Libraries where
  /-- `NaiveDate::parse_from_str(text, "%Y-%m-%d")`. -/
  parseDate : String → Option NaiveDate
  /-- `Decimal::from_str`. -/
  parseDecimal : String → Option ℚ
  /-- `char::is_alphanumeric`. -/
  isAlphanumeric : Char → Bool
  /-- `char::to_lowercase`. -/
  toLowercase : Char → List Char
  /-- `LOWER` of PostgreSQL. -/
  lower : String → String
  /-- The MIME type that `infer::get` finds. -/
  infer : String → Option String
  /-- The records of `csv::ReaderBuilder` with a header. -/
  csvRecords : String → Except String (List (List String))

def unnamed : String := "(unnamed)"

end OpenAccounting.Import.Statement

/-!
## CAMT statements

`import/statement/camt.rs`.  The prefixes of the name spaces are taken off first, and elements are
found by their local names.
-/

namespace OpenAccounting.Import.Statement.Camt

open Calendar Commit

def xmlText (xml tag : String) : Option String :=
  let close := "</" ++ tag ++ ">"
  match RustStr.splitAtStr ("<" ++ tag ++ " ") xml with
  | some (_, rest) => do
    let (_, content) ← RustStr.splitOnce '>' rest
    let (text, _) ← RustStr.splitAtStr close content
    some (RustStr.trim text)
  | none => do
    let (_, content) ← RustStr.splitAtStr ("<" ++ tag ++ ">") xml
    let (text, _) ← RustStr.splitAtStr close content
    some (RustStr.trim text)

/-- The next block and what follows it, from the end tag on. -/
def nextBlock (cs : List Char) : Option (List Char × List Char) :=
  (RustStr.cutAtStr "<Ntry>".toList cs).map fun r =>
    (RustStr.cutBefore (fun s => "</Ntry>".toList.isPrefixOf s) r.2).getD (r.2, [])

theorem nextBlock_shorter {cs block rest : List Char} (h : nextBlock cs = some (block, rest)) :
    rest.length < cs.length := by
  obtain ⟨⟨before, found⟩, hstart, hblock⟩ := Option.map_eq_some_iff.mp h
  have hall := congrArg List.length (RustStr.cutAtStr_eq_some hstart)
  have hrest : rest.length ≤ found.length := by
    cases hcut : RustStr.cutBefore (fun s => "</Ntry>".toList.isPrefixOf s) found with
    | none =>
      rw [hcut] at hblock
      cases hblock
      exact Nat.zero_le _
    | some r =>
      rw [hcut] at hblock
      cases hblock
      have hsplit := congrArg List.length (RustStr.cutBefore_eq_some hcut)
      rw [List.length_append] at hsplit
      omega
  have hsix : "<Ntry>".toList.length = 6 := rfl
  rw [List.length_append, List.length_append, hsix] at hall
  omega

def ntryBlocks (cs : List Char) : List String :=
  match h : nextBlock cs with
  | none => []
  | some (block, rest) =>
    have : rest.length < cs.length := nextBlock_shorter h
    String.ofList block :: ntryBlocks rest
termination_by cs.length

def parseCamtDate (lib : Libraries) (raw : String) : Option NaiveDate := do
  let (day, _) ← RustStr.splitBytes 10 raw.toList
  lib.parseDate (String.ofList day)

/-- The characters of a prefix. -/
def isPrefixChar (c : Char) : Bool := c.isAlphanum || c == '_' || c == '-' || c == '.'

/-- The tag behind a `<`: its slash, and what follows the prefix if it has one. -/
def afterPrefix (tag : List Char) : List Char :=
  match RustStr.cutAt ':' tag with
  | some (name, rest) => if name ≠ [] ∧ name.all isPrefixChar = true then rest else tag
  | none => tag

theorem length_afterPrefix (tag : List Char) : (afterPrefix tag).length ≤ tag.length := by
  rw [afterPrefix]
  split
  · next name rest h =>
      split
      · obtain ⟨rfl, -⟩ := RustStr.cutAt_eq_some.mp h
        simp only [List.length_append, List.length_cons]
        omega
      · exact le_rfl
  · exact le_rfl

def stripPrefixes : List Char → List Char
  | [] => []
  | '<' :: '/' :: cs =>
    have := length_afterPrefix cs
    '<' :: '/' :: stripPrefixes (afterPrefix cs)
  | '<' :: cs =>
    have := length_afterPrefix cs
    '<' :: stripPrefixes (afterPrefix cs)
  | c :: cs => c :: stripPrefixes cs
termination_by cs => cs.length

/-- The attribute `Ccy` of a tag. -/
def currencyOf (tag : String) : Option String := do
  let (_, rest) ← RustStr.splitAtStr "Ccy=\"" tag
  let value := ((RustStr.splitAtStr "Ccy=\"" rest).map Prod.fst).getD rest
  some (RustStr.before '"' value)

def parseBlock (lib : Libraries) (block : String) : Except Failure StatementLine := do
  let dateIn := fun tag => (xmlText block tag).bind fun b => xmlText b "Dt"
  let dateRaw ← okOr ((dateIn "BookgDt").orElse fun _ => dateIn "ValDt")
    (.message "Ntry missing BookgDt/Dt")
  let date ← okOr (parseCamtDate lib dateRaw) (.message s!"bad CAMT date '{dateRaw}'")
  let amt ← okOr (RustStr.suffixFrom "<Amt" block) (.message "Ntry missing Amt")
  let amountRaw ← okOr (xmlText amt "Amt") (.message "Ntry missing Amt value")
  let amountRaw := RustStr.without ',' amountRaw
  let amount ← okOr (lib.parseDecimal amountRaw) (.message s!"bad CAMT amount '{amountRaw}'")
  let name := fun _ => (xmlText block "RltdPties").bind fun p => xmlText p "Nm"
  .ok
    { date := date
      amount := amount
      payee := ((xmlText block "AddtlNtryInf").orElse name).getD unnamed
      externalId := (xmlText block "AcctSvcrRef").orElse fun _ => xmlText block "Ref"
      currency := currencyOf (RustStr.before '>' amt) }

def parse (lib : Libraries) (text : String) : Except Failure (List StatementLine) := do
  let normalized := stripPrefixes text.toList
  let out ← (ntryBlocks normalized).mapM (parseBlock lib)
  ensure (out ≠ []) (.message "no Ntry entries found in CAMT document")
  .ok out

end OpenAccounting.Import.Statement.Camt

/-!
## MT940 statements

`import/statement/mt940.rs`.  A `:61:` line has a date and an amount, and the `:86:` line after it
the name.  The reference of every line is that of the last `:20:` line.
-/

namespace OpenAccounting.Import.Statement.Mt940

open Calendar Commit

/-- `trim_start_matches` of a tag `:ab:`. -/
def trimTag (a b : Char) : List Char → List Char
  | ':' :: x :: y :: ':' :: cs =>
    if x = a ∧ y = b then trimTag a b cs else ':' :: x :: y :: ':' :: cs
  | cs => cs

/-- The next two bytes. -/
def take2 (cs : List Char) : Except Failure (String × List Char) :=
  (okOr (RustStr.splitBytes 2 cs) .panic).map fun r => (String.ofList r.1, r.2)

/-- The part behind the value date and an optional entry date. -/
def skipEntryDate (rest : List Char) : List Char :=
  if 4 < RustStr.byteLen rest ∧ (rest.take 4).all Char.isDigit = true then rest.drop 4 else rest

def parse61 (lib : Libraries) (line : String) : Except Failure (NaiveDate × ℚ) := do
  let body := trimTag '6' '1' line.toList
  ensure (10 ≤ RustStr.byteLen body) (.message s!"short :61: line '{line}'")
  let (yy, body) ← take2 body
  let yy ← okOr (RustStr.parseInt yy) (.message s!"bad :61: date '{line}'")
  let (month, body) ← take2 body
  let month ← okOr (RustStr.parseU32 month) (.message s!"bad :61: month '{line}'")
  let (day, rest) ← take2 body
  let day ← okOr (RustStr.parseU32 day) (.message s!"bad :61: day '{line}'")
  let date ← okOr (NaiveDate.fromYmdOpt (2000 + yy) month day)
    (.message s!"impossible :61: date '{line}'")
  let rest := skipEntryDate rest
  let funds ← okOr rest.head? (.message "missing funds code")
  let (_, afterFunds) ← okOr (RustStr.splitBytes 1 rest) .panic
  let amountPart :=
    (afterFunds.dropWhile fun c => c = '-').takeWhile fun c => c.isDigit || c = ','
  ensure (amountPart ≠ []) (.message s!"no amount in :61: '{line}'")
  let normalized := String.ofList (amountPart.map fun c => if c = ',' then '.' else c)
  let amountPart := String.ofList amountPart
  let value ← okOr (lib.parseDecimal normalized) (.message s!"bad :61: amount '{amountPart}'")
  if funds = 'C' ∨ funds = 'c' then .ok (date, value)
  else if funds = 'D' ∨ funds = 'd' then .ok (date, -value)
  else .error (.message s!"unknown funds code '{funds}'")

/-- The name lines among the segments. -/
def nameParts : List String → Except Failure (List String)
  | [] => .ok []
  | segment :: segments => do
    let seg := RustStr.trim segment
    if RustStr.byteLen seg.toList < 3 then nameParts segments
    else
      let (code, rest) ← take2 seg.toList
      let parts ← nameParts segments
      .ok (if code ∈ ["20", "25", "32", "33"] then RustStr.trim (String.ofList rest) :: parts
        else parts)

def parse86 (block : String) : Except Failure (Option String) := do
  let parts ← nameParts (RustStr.split '?' block)
  if parts = [] then
    let flat := " ".intercalate
      (((RustStr.lines block).map RustStr.trim).filter fun l => l ≠ "")
    .ok (if flat = "" then none else some flat)
  else .ok (some (" ".intercalate parts))

/-- The local variables of `parse`. -/
structure State where
  out : List StatementLine := []
  currentRef : Option String := none
  pending : Option (NaiveDate × ℚ) := none

/-- The pending line, with the name and the memo that are known for it. -/
def State.flush (s : State) (payee : String) (memo : Option String) : State :=
  { s with
    pending := none
    out := s.out ++ s.pending.toList.map fun p =>
      { date := p.1, amount := p.2, payee := payee, memo := memo, externalId := s.currentRef } }

/-- A line that goes on with the name of the last entry. -/
def appendPayee (text : String) (l : StatementLine) : StatementLine :=
  if l.payee = unnamed then l else { l with payee := l.payee ++ " " ++ text }

/-- One line of the text. -/
def step (lib : Libraries) (s : State) (raw : String) : Except Failure State := do
  let line := RustStr.trimEnd raw
  if RustStr.startsWith ":20:" line then
    .ok { s with
      currentRef := some (RustStr.trim (String.ofList (trimTag '2' '0' line.toList))) }
  else if RustStr.startsWith ":61:" line then
    let entry ← parse61 lib line
    .ok { s.flush unnamed none with pending := some entry }
  else if RustStr.startsWith ":86:" line then
    if s.pending = none then .ok s
    else
      let info ← parse86 line
      .ok (s.flush (info.getD unnamed) info)
  else if s.pending ≠ none ∧ RustStr.trim line ≠ "" ∧ ¬ RustStr.startsWith ":" line = true then
    .ok { s with out := s.out.dropLast ++ s.out.getLast?.toList.map (appendPayee (RustStr.trim line)) }
  else .ok s

def parse (lib : Libraries) (text : String) : Except Failure (List StatementLine) := do
  let s ← (RustStr.lines text).foldlM (step lib) {}
  let s := s.flush unnamed none
  ensure (s.out ≠ []) (.message "no :61: statement lines found")
  .ok s.out

end OpenAccounting.Import.Statement.Mt940

/-!
## OFX statements

`import/statement/ofx.rs`, for both versions of the format: a value runs to the next `<`.
-/

namespace OpenAccounting.Import.Statement.Ofx

open Calendar Commit

def tagValue (block tag : String) : Option String := do
  let (_, rest) ← RustStr.splitAtStr ("<" ++ tag) block
  let v := RustStr.trim (RustStr.before '<' ((RustStr.stripPrefix ">" rest).getD rest))
  if v = "" then none else some v

/-- A suffix that starts with a tag in any case. -/
def startsWithTag (tag : String) (cs : List Char) : Bool :=
  tag.toList.isPrefixOf (cs.map Char.toUpper)

/-- The first block, and the text behind it.  Without an end tag it has 4000 bytes at most. -/
def cutBlock (cs : List Char) : Option (List Char × List Char) :=
  match RustStr.cutBefore (startsWithTag "</STMTTRN>") cs with
  | some r => some r
  | none => if RustStr.byteLen cs ≤ 4000 then some (cs, []) else RustStr.splitBytes 4000 cs

theorem cutBlock_eq_some {cs block rest : List Char} (h : cutBlock cs = some (block, rest)) :
    cs = block ++ rest := by
  rw [cutBlock] at h
  split at h
  · next r hr =>
      cases h
      exact RustStr.cutBefore_eq_some hr
  · split at h
    · cases h
      exact (List.append_nil cs).symm
    · exact RustStr.splitBytes_eq_some h

def nextBlock (cs : List Char) : Option (Option (List Char × List Char)) :=
  (RustStr.cutBefore (startsWithTag "<STMTTRN>") cs).map fun r => cutBlock (r.2.drop 9)

theorem nextBlock_shorter {cs block rest : List Char} (h : nextBlock cs = some (some (block, rest))) :
    rest.length < cs.length := by
  obtain ⟨⟨before, found⟩, hstart, hblock⟩ := Option.map_eq_some_iff.mp h
  have hne : found ≠ [] := by
    rintro rfl
    exact absurd (RustStr.cutBefore_holds hstart) (by simp [startsWithTag])
  have hall := congrArg List.length (RustStr.cutBefore_eq_some hstart)
  have hrest := congrArg List.length (cutBlock_eq_some hblock)
  have hpos := List.length_pos_iff.mpr hne
  simp only [List.length_append, List.length_drop] at hall hrest
  omega

def stmttrnBlocks (cs : List Char) : Except Failure (List String) :=
  match h : nextBlock cs with
  | none => .ok []
  | some none => .error .panic
  | some (some (block, rest)) =>
    have : rest.length < cs.length := nextBlock_shorter h
    (stmttrnBlocks rest).map fun blocks => String.ofList block :: blocks
termination_by cs.length

theorem stmttrnBlocks_none {cs : List Char} (h : nextBlock cs = none) :
    stmttrnBlocks cs = .ok [] := by
  rw [stmttrnBlocks]
  split
  · rfl
  · next heq => rw [h] at heq; cases heq
  · next heq => rw [h] at heq; cases heq

theorem stmttrnBlocks_panic {cs : List Char} (h : nextBlock cs = some none) :
    stmttrnBlocks cs = .error .panic := by
  rw [stmttrnBlocks]
  split
  · next heq => rw [h] at heq; cases heq
  · rfl
  · next heq => rw [h] at heq; cases heq

theorem stmttrnBlocks_some {cs block rest : List Char}
    (h : nextBlock cs = some (some (block, rest))) :
    stmttrnBlocks cs = (stmttrnBlocks rest).map fun blocks => String.ofList block :: blocks := by
  rw [stmttrnBlocks]
  split
  · next heq => rw [h] at heq; cases heq
  · next heq => rw [h] at heq; cases heq
  · next heq =>
      rw [h] at heq
      cases heq
      rfl

def parseOfxDate (raw : String) : Option NaiveDate :=
  let digits := raw.toList.filter Char.isDigit
  if digits.length < 8 then none
  else do
    let year ← RustStr.parseDigits (digits.take 4)
    let month ← RustStr.parseDigits ((digits.drop 4).take 2)
    let day ← RustStr.parseDigits ((digits.drop 6).take 2)
    NaiveDate.fromYmdOpt year month day

def parseBlock (lib : Libraries) (block : String) : Except Failure StatementLine := do
  let dateRaw ← okOr (tagValue block "DTPOSTED") (.message "STMTTRN missing DTPOSTED")
  let date ← okOr (parseOfxDate dateRaw) (.message s!"bad DTPOSTED '{dateRaw}'")
  let amountRaw ← okOr (tagValue block "TRNAMT") (.message "STMTTRN missing TRNAMT")
  let amount ← okOr (lib.parseDecimal amountRaw) (.message s!"bad TRNAMT '{amountRaw}'")
  .ok
    { date := date
      amount := amount
      payee := ((tagValue block "NAME").orElse fun _ => tagValue block "PAYEE").getD unnamed
      memo := tagValue block "MEMO"
      externalId := tagValue block "FITID" }

def parse (lib : Libraries) (text : String) : Except Failure (List StatementLine) := do
  let blocks ← stmttrnBlocks text.toList
  let out ← blocks.mapM (parseBlock lib)
  ensure (out ≠ []) (.message "no STMTTRN transactions found in OFX file")
  .ok out

end OpenAccounting.Import.Statement.Ofx

/-!
## QIF statements

`import/statement/qif.rs`: one field to a line, and `^` at the end of a record.  QIF has no
references.
-/

namespace OpenAccounting.Import.Statement.Qif

open Calendar Commit

inductive DateOrder where
  | us
  | eu
deriving DecidableEq

/-- `resolve_order`: the month and the day. -/
def resolveOrder (a b : ℕ) (hint : DateOrder) : Option (ℕ × ℕ) :=
  if a ≤ 12 then
    if b ≤ 12 then
      match hint with
      | .us => some (a, b)
      | .eu => some (b, a)
    else some (a, b)
  else if b ≤ 12 then some (b, a)
  else none

def asI32 (n : ℕ) : ℤ := if n < 2 ^ 31 then n else n - 2 ^ 32

/-- The parts of a date, at the separator it has. -/
def dateParts (cleaned : String) : Option (List String) :=
  if '/' ∈ cleaned.toList then some (RustStr.split '/' cleaned)
  else if '.' ∈ cleaned.toList then some (RustStr.split '.' cleaned)
  else if '-' ∈ cleaned.toList then some (RustStr.split '-' cleaned)
  else none

def parseDate (lib : Libraries) (raw : String) (hint : DateOrder) : Except Failure NaiveDate :=
  let kept := (RustStr.trim raw).toList.filter fun c =>
    ! RustStr.isWhitespace c && c != ',' && c != '"'
  let cleaned := String.ofList (kept.map fun c => if c = '\'' then '/' else c)
  match lib.parseDate cleaned with
  | some d => .ok d
  | none => do
    let parts ← okOr (dateParts cleaned) (.message s!"unparseable QIF date '{raw}'")
    ensure (parts.length = 3) (.message s!"unparseable QIF date '{raw}'")
    let nums ← parts.mapM fun p =>
      okOr (RustStr.parseU32 p) (.message s!"bad date part in '{raw}'")
    let a := nums[0]?.getD 0
    let b := nums[1]?.getD 0
    let c := nums[2]?.getD 0
    if 31 < a then
      okOr (NaiveDate.fromYmdOpt (asI32 a) b c) (.message s!"impossible QIF date '{raw}'")
    else
      let (month, day) ← okOr (resolveOrder a b hint) (.message s!"ambiguous QIF date '{raw}'")
      let year := asI32 c
      let year := if year < 100 then year + (if year < 70 then 2000 else 1900) else year
      okOr (NaiveDate.fromYmdOpt year month day) (.message s!"impossible QIF date '{raw}'")

/-- The local variables of `parse`. -/
structure State where
  out : List StatementLine := []
  date : Option NaiveDate := none
  amount : Option ℚ := none
  payee : String := ""
  memo : Option String := none
  inBankSection : Bool := false

/-- The sections that have statement lines. -/
def bankSections : List String := ["!TYPE:BANK", "!TYPE:CASH", "!TYPE:CCARD", "!TYPE:STMT"]

def endRecord (s : State) : Except Failure State :=
  match s.date, s.amount with
  | some d, some a =>
    .ok { s with
      out := s.out ++
        [{ date := d, amount := a, payee := if s.payee = "" then unnamed else s.payee
           memo := s.memo }]
      date := none
      amount := none
      payee := ""
      memo := none }
  | _, _ => .error (.message "QIF record missing date or amount")

/-- One line of the text. -/
def step (lib : Libraries) (hint : DateOrder) (s : State) (rawLine : String) :
    Except Failure State :=
  let line := RustStr.trimEnd rawLine
  if RustStr.startsWith "!" line then
    let upper := RustStr.toAsciiUppercase line
    .ok { s with inBankSection := bankSections.any fun start => RustStr.startsWith start upper }
  else if s.inBankSection then
    let value := String.ofList line.toList.tail
    match line.toList.head? with
    | some 'D' => do
      let d ← parseDate lib value hint
      .ok { s with date := some d }
    | some 'T' => do
      let cleaned := String.ofList
        (value.toList.filter fun c => c != ',' && RustStr.isAsciiGraphic c)
      let a ← okOr (lib.parseDecimal cleaned) (.message s!"bad QIF amount '{value}'")
      .ok { s with amount := some a }
    | some 'P' => .ok { s with payee := RustStr.trim value }
    | some 'M' => .ok { s with memo := some (RustStr.trim value) }
    | some '^' => endRecord s
    | _ => .ok s
  else .ok s

def parse (lib : Libraries) (text : String) (hint : DateOrder) :
    Except Failure (List StatementLine) := do
  let s ← (RustStr.lines text).foldlM (step lib hint) {}
  ensure (s.out ≠ []) (.message "no QIF transactions found")
  .ok s.out

end OpenAccounting.Import.Statement.Qif

/-!
## Statement files

`import/statement/mod.rs`: the format is sniffed from the first 2048 bytes, and each format has its
parser.
-/

namespace OpenAccounting.Import.Statement

inductive Format where
  | ofx
  | qbo
  | qif
  | camt
  | mt940
deriving DecidableEq

/-- What the sniffer looks at. -/
def sniffHead (text : String) : String :=
  RustStr.toAsciiUppercase (String.ofList (RustStr.takeLossy 2048 text.toList))

/-- One of the patterns occurs. -/
def containsAny (pats : List String) (s : String) : Bool := pats.any fun pat => RustStr.contains pat s

def sniffFormat (text : String) : Option Format :=
  let head := sniffHead text
  if containsAny ["INTU.BID", "INTUIT", "<INTU"] head then some .qbo
  else if containsAny ["OFXHEADER", "<OFX>"] head then some .ofx
  else if RustStr.startsWith "!TYPE:" head ∨ RustStr.startsWith "!ACCOUNT" head then some .qif
  else
    (RustStr.lines head).head?.bind fun first =>
      if RustStr.startsWith "!" first then some .qif
      else if containsAny ["CAMT:", "CAMT.", "BKTOCSTMR", "<NTRY>"] head then some .camt
      else if containsAny [":20:", ":61:"] head then some .mt940
      else none

/-- The error of a QBO file. -/
def Failure.qbo : Failure → Failure
  | .message e => .message ("QBO: " ++ e)
  | .panic => .panic

def parse (lib : Libraries) (format : Format) (text : String) (qifDateOrder : Qif.DateOrder) :
    Except Failure (List StatementLine) :=
  match format with
  | .ofx => Ofx.parse lib text
  | .qbo => Commit.mapError Failure.qbo (Ofx.parse lib text)
  | .qif => Qif.parse lib text qifDateOrder
  | .camt => Camt.parse lib text
  | .mt940 => Mt940.parse lib text

/-- The loop of `normalize_payee`. -/
def normalizeFrom (lib : Libraries) (lastSpace : Bool) : List Char → List Char
  | [] => []
  | c :: cs =>
    if lib.isAlphanumeric c then lib.toLowercase c ++ normalizeFrom lib false cs
    else if lastSpace then normalizeFrom lib true cs
    else ' ' :: normalizeFrom lib true cs

def normalizePayee (lib : Libraries) (s : String) : String :=
  RustStr.trimEnd (String.ofList (normalizeFrom lib true s.toList))

end OpenAccounting.Import.Statement

/-!
## Payees for deduplication

`import/dedup.rs`: how a payee is normalized before it goes into a fingerprint.
-/

namespace OpenAccounting.Import.Dedup

/-- The Unicode properties on which the lower case of a sigma depends. -/
structure Casing where
  isCased : Char → Bool
  isCaseIgnorable : Char → Bool

/-- `case_ignorable_then_cased` of the standard library. -/
def Casing.caseIgnorableThenCased (casing : Casing) (cs : List Char) : Bool :=
  (cs.dropWhile casing.isCaseIgnorable).head?.any casing.isCased

/-- `map_uppercase_sigma`.  What is in front of it is given from its end. -/
def Casing.mapUppercaseSigma (casing : Casing) (front back : List Char) : Char :=
  if casing.caseIgnorableThenCased front && !casing.caseIgnorableThenCased back then 'ς' else 'σ'

/-- The loop of `str::to_lowercase`. -/
def lowercaseFrom (lib : Statement.Libraries) (casing : Casing) (front : List Char) :
    List Char → List Char
  | [] => []
  | c :: cs =>
    (if c = 'Σ' then [casing.mapUppercaseSigma front cs] else lib.toLowercase c) ++
      lowercaseFrom lib casing (c :: front) cs

def toLowercase (lib : Statement.Libraries) (casing : Casing) (s : String) : String :=
  String.ofList (lowercaseFrom lib casing [] s.toList)

/-- The literals, in the order in which they are removed. -/
def literals : List String := ["微信", "支付宝", "(", ")", "有限公司"]

def normalizePayee (lib : Statement.Libraries) (casing : Casing) (s : String) : String :=
  let out := Removal.removeAll (literals.map String.toList) (RustStr.trim s).toList
  RustStr.collapse (toLowercase lib casing (String.ofList out))

end OpenAccounting.Import.Dedup
