import Mathlib.Data.List.Sort
import OpenAccounting.Lib.ByteCode
import OpenAccounting.Lib.Commit
import OpenAccounting.Lib.Decimal
import OpenAccounting.Lib.TextSearch

/-!
# Bills

The importers of bank and payment files that the pages of a ledger call.
-/

/-!
## Parsed rows

`ParsedRow` of `handlers/import.rs`, which every importer of bank and payment files returns.
-/

namespace OpenAccounting.Import

inductive ImportPlatform where
  | csv
  | ofx
  | qif
  | mt940
  | wechat
  | alipayMobile
  | alipayWeb
deriving DecidableEq

structure ParsedRow where
  date : String
  description : String
  debit : String
  credit : String
  account : Option String := none
  payee : Option String := none
  reference : Option String := none
  isDuplicate : Bool := false
  fingerprint : ℕ := 0
  platform : ImportPlatform := .csv
deriving DecidableEq

end OpenAccounting.Import

/-!
## Payment bills

`import/wechat.rs` and `import/alipay_web.rs`.  A bill is a CSV file with a header line somewhere.
Each row behind the header that is settled, or that the options ask for, has a direction and an
amount.
-/

namespace OpenAccounting.Import.PaymentBills

open Commit

structure ParseOptions where
  includeOther : Bool := false
  includePending : Bool := false

/-- `ParseError`, as far as these parsers raise it. -/
inductive ParseError where
  | missingHeader (expected : String)
  | badAmount (raw : String)
  | csv (text : String)
deriving DecidableEq

/-- How a parser ends without rows. -/
inductive Failure where
  | error (e : ParseError)
  /-- A cell that the record does not have, or an overflow. -/
  | panic
deriving DecidableEq

/-- The libraries of the parsers. -/
structure Libraries where
  /-- The records of `csv::ReaderBuilder`, which is flexible and without a header. -/
  records : String → Except String (List (List String))
  /-- `Decimal::from_str`. -/
  parseDecimal : String → Option ℚ
  /-- The format `{:.2}` of a decimal. -/
  formatTwo : ℚ → String
  /-- The operations of `Decimal`. -/
  decimal : Decimal.Checked
  /-- `dedup::fingerprint`. -/
  fingerprint : String → ℤ → String → ℕ

variable (lib : Libraries)

/-- The text of an amount without its signs. -/
def unsigned (raw : String) : String :=
  RustStr.trimStartMatches '-' (RustStr.trimStartMatches '+' (RustStr.trim raw))

def parseAmount (raw : String) : Except Failure String :=
  if RustStr.trim raw = "" then .ok ""
  else
    match lib.parseDecimal (unsigned raw) with
    | none => .error (.error (.badAmount (RustStr.trim raw)))
    | some d => .ok (if d ≤ 0 then "" else lib.formatTwo d)

/-- `TryFrom<Decimal>` of `i64`. -/
def toI64 (x : ℚ) : Option ℤ :=
  let n := Rounding.roundHalfEven x
  if -2 ^ 63 ≤ n ∧ n < 2 ^ 63 then some n else none

def moneyCents (s : String) : Except Failure (Option ℤ) :=
  if RustStr.trim s = "" then .ok none
  else
    match lib.parseDecimal (RustStr.trim s) with
    | none => .ok none
    | some d => (okOr (lib.decimal.mul d 100) .panic).map toI64

def amountCents (debit credit : String) : Except Failure ℤ := do
  match ← moneyCents lib debit with
  | some cents => .ok cents
  | none =>
    let cents ← moneyCents lib credit
    .ok (cents.getD 0)

/-- `cells.get(i)`, or the empty text. -/
def cell (cells : List String) (i : ℕ) : String := cells[i]?.getD ""

def cellAt (cells : List String) (i : ℕ) : Except Failure String := okOr cells[i]? .panic

/-- The date of a row, without the time. -/
def dateOf (cells : List String) : String :=
  ((RustStr.splitWhitespace (cell cells 0)).head?).getD ""

def rowsBehind (header : String × String) (records : List (List String)) :
    Option (List (List String)) :=
  (records.findIdx? fun cells => cells[0]? = some header.1 ∧ cells[1]? = some header.2).map
    fun i => records.drop (i + 1)

/-- The part of `parse_str` that the parsers share. -/
def parseRows (header : String × String) (row : List String → Except Failure (Option ParsedRow))
    (text : String) : Except Failure (List ParsedRow) := do
  let records ← mapError (fun e => .error (.csv e)) (lib.records text)
  let records := records.map fun record => record.map RustStr.trim
  let rows ← okOr (rowsBehind header records)
    (.error (.missingHeader (header.1 ++ "," ++ header.2)))
  let out ← rows.mapM row
  .ok ((out.filterMap id).insertionSort fun a b => a.date ≤ b.date)

/-! ## WeChat -/

namespace Wechat

def header : String × String := ("交易时间", "交易类型")

def settled : List String := ["支付成功", "收款成功"]

/-- The row is not skipped. -/
def Kept (options : ParseOptions) (cells : List String) : Prop :=
  ¬ (cells.all fun c => c = "") = true ∧ (options.includePending = true ∨ cell cells 7 ∈ settled)

instance (options : ParseOptions) (cells : List String) : Decidable (Kept options cells) :=
  inferInstanceAs (Decidable (_ ∧ _))

/-- The debit and the credit, or none where the row is dropped. -/
def sides (cells : List String) : Except Failure (Option (String × String)) :=
  if cell cells 4 = "收入" then do
    let credit ← parseAmount lib (← cellAt cells 5)
    .ok (some ("", credit))
  else if cell cells 4 = "支出" then do
    let debit ← parseAmount lib (← cellAt cells 5)
    .ok (some (debit, ""))
  else .ok none

/-- The row of a record. -/
def row (options : ParseOptions) (cells : List String) : Except Failure (Option ParsedRow) := do
  if Kept options cells then
    match ← sides lib cells with
    | none => .ok none
    | some (debit, credit) =>
      let payee := cell cells 2
      let payee := (RustStr.stripPrefix "发给" payee).getD payee
      let cents ← amountCents lib debit credit
      .ok (some
        { date := dateOf cells
          description := cell cells 3
          debit := debit
          credit := credit
          payee := some payee
          reference := some (cell cells 8)
          fingerprint := lib.fingerprint (dateOf cells) cents payee
          platform := .wechat })
  else .ok none

def parseStr (options : ParseOptions) (text : String) : Except Failure (List ParsedRow) :=
  parseRows lib header (row lib options) text

end Wechat

/-! ## Alipay -/

namespace AlipayWeb

def header : String × String := ("交易时间", "交易分类")

def settled : List String := ["交易成功"]

/-- The row is not skipped. -/
def Kept (options : ParseOptions) (cells : List String) : Prop :=
  ¬ (cells.all fun c => c = "") = true ∧ (options.includePending = true ∨ cell cells 8 ∈ settled)

instance (options : ParseOptions) (cells : List String) : Decidable (Kept options cells) :=
  inferInstanceAs (Decidable (_ ∧ _))

/-- The debit and the credit, or none where the row is dropped. -/
def sides (options : ParseOptions) (cells : List String) :
    Except Failure (Option (String × String)) :=
  let direction := cell cells 5
  if direction = "收入" then do
    let credit ← parseAmount lib (← cellAt cells 6)
    .ok (some ("", credit))
  else if direction = "支出" then do
    let debit ← parseAmount lib (← cellAt cells 6)
    .ok (some (debit, ""))
  else if (direction = "其他" ∨ direction = "不计收支") ∧ options.includeOther = true then do
    let note := cell cells 11
    let amt ← parseAmount lib (← cellAt cells 6)
    .ok (if RustStr.contains "退款" note then some ("", amt)
      else if RustStr.contains "余额宝-单次转入" note then some (amt, "")
      else none)
  else .ok none

/-- The row of a record. -/
def row (options : ParseOptions) (cells : List String) : Except Failure (Option ParsedRow) := do
  if Kept options cells then
    match ← sides lib options cells with
    | none => .ok none
    | some (debit, credit) =>
      let payee := cell cells 2
      let cents ← amountCents lib debit credit
      .ok (some
        { date := dateOf cells
          description := cell cells 4
          debit := debit
          credit := credit
          payee := some payee
          reference := some (cell cells 9)
          fingerprint := lib.fingerprint (dateOf cells) cents payee
          platform := .alipayWeb })
  else .ok none

def parseStr (options : ParseOptions) (text : String) : Except Failure (List ParsedRow) :=
  parseRows lib header (row lib options) text

end AlipayWeb

end OpenAccounting.Import.PaymentBills

/-!
## MT940 bills

`import/mt940.rs`.  A `:61:` line starts a movement, and the `:86:` line after it has its narrative,
as `?NN` subfields.  A movement without an amount is not pushed.  The parser has no errors: its
results are partial because a slice inside of a character panics.
-/

namespace OpenAccounting.Import

structure Mt940 where
  rows : List ParsedRow
  openingBalance : Option String
  closingBalance : Option String
deriving DecidableEq

namespace Mt940

structure Txn where
  valueDate : Option String := none
  direction : Option Char := none
  amount : Option String := none
  reference : Option String := none
  narrative : Option String := none
  payee : Option String := none

/-- The date `YYMMDD` in the form of ISO. -/
def isoDate (digits : List Char) : String :=
  "20" ++ String.ofList (digits.take 2) ++ "-" ++ String.ofList ((digits.drop 2).take 2) ++ "-" ++
    String.ofList ((digits.drop 4).take 2)

/-- The debit and credit mark, which is one letter. -/
def takeMark : List Char → Option Char × List Char
  | c :: cs => if c = 'D' ∨ c = 'C' then (some c, cs) else (none, c :: cs)
  | [] => (none, [])

/-- A character of an amount. -/
def isAmountChar (c : Char) : Bool := c.isDigit || c == ','

def parse61 (body : String) : Txn :=
  let s := (RustStr.trim body).toList
  let valueDate := (s.takeWhile Char.isDigit).take 6
  -- The other digits are an entry date.
  let (direction, s) := takeMark (s.dropWhile Char.isDigit)
  let amount := s.takeWhile isAmountChar
  let reference := match s.dropWhile isAmountChar with
    | 'N' :: rest =>
      let rest := RustStr.trim (String.ofList rest)
      some (((RustStr.splitAtStr "//" rest).map Prod.fst).getD rest)
    | _ => none
  { valueDate := if valueDate.length = 6 then some (isoDate valueDate) else none
    direction := direction
    amount :=
      if amount = [] then none
      else some (String.ofList (amount.map fun c => if c = ',' then '.' else c))
    reference := reference }

theorem parse61_narrative (body : String) : (parse61 body).narrative = none := by
  simp only [parse61]

section

variable {body : String} {digits rest : List Char}

theorem parse61_valueDate (h : (RustStr.trim body).toList = digits ++ rest)
    (hdigits : ∀ c ∈ digits, c.isDigit = true) (hrest : rest.takeWhile Char.isDigit = [])
    (hlength : 6 ≤ digits.length) : (parse61 body).valueDate = some (isoDate (digits.take 6)) := by
  have htake : (RustStr.trim body).toList.takeWhile Char.isDigit = digits := by
    rw [h, List.takeWhile_append_of_pos hdigits, hrest, List.append_nil]
  simp only [parse61, htake]
  rw [if_pos (by rw [List.length_take]; omega)]

theorem parse61_mark (h : (RustStr.trim body).toList = digits ++ rest)
    (hdigits : ∀ c ∈ digits, c.isDigit = true) (hrest : rest.takeWhile Char.isDigit = []) :
    (parse61 body).direction = (takeMark rest).1 ∧
      (parse61 body).amount =
        if (takeMark rest).2.takeWhile isAmountChar = [] then none
        else some (String.ofList (((takeMark rest).2.takeWhile isAmountChar).map
          fun c => if c = ',' then '.' else c)) := by
  have hdrop : (RustStr.trim body).toList.dropWhile Char.isDigit = rest := by
    have hall := List.takeWhile_append_dropWhile (p := Char.isDigit) (l := rest)
    rw [hrest, List.nil_append] at hall
    rw [h, List.dropWhile_append_of_pos hdigits, hall]
  simp only [parse61, hdrop]
  exact ⟨trivial, trivial⟩

end

/-- A subfield has its code and the text up to the next question mark, which is cut off. -/
def takeSubfield (tail : List Char) : Option (List Char × List Char) :=
  (RustStr.splitBytes 2 tail).map fun r =>
    ('?' :: r.1 ++ r.2.takeWhile (fun c => c ≠ '?'), r.2.dropWhile fun c => c ≠ '?')

theorem takeSubfield_shorter {tail sub rest : List Char}
    (h : takeSubfield tail = some (sub, rest)) :
    rest.length ≤ tail.length := by
  obtain ⟨⟨code, after⟩, hsplit, heq⟩ := Option.map_eq_some_iff.mp h
  cases heq
  have hle := (List.dropWhile_sublist (fun c => decide (c ≠ '?')) (l := after)).length_le
  rw [RustStr.splitBytes_eq_some hsplit, List.length_append]
  exact hle.trans (Nat.le_add_left _ _)

/-- `split_subfields`, or none where it panics. -/
def splitSubfields (rest : List Char) : Option (List (List Char)) :=
  match hcut : RustStr.cutAt '?' rest with
  -- A text without a question mark is not a subfield.
  | none => some []
  | some (before, tail) =>
    let start := (RustStr.trim (String.ofList before)).toList
    let start := if start = [] then [] else [start]
    if RustStr.byteLen tail < 2 then some start
    else
      match hsub : takeSubfield tail with
      | none => none
      | some (sub, rest') =>
        have : rest'.length < rest.length := by
          have hle := takeSubfield_shorter hsub
          obtain ⟨rfl, -⟩ := RustStr.cutAt_eq_some.mp hcut
          simp only [List.length_append, List.length_cons]
          omega
        (splitSubfields rest').map fun out => start ++ sub :: out
termination_by rest.length

/-- What is in front of the first subfield of a text. -/
def leading (before : List Char) : List (List Char) :=
  let start := (RustStr.trim (String.ofList before)).toList
  if start = [] then [] else [start]

section

variable {rest before tail sub rest' : List Char}

theorem splitSubfields_eq (rest : List Char) : splitSubfields rest =
    match RustStr.cutAt '?' rest with
    | none => some []
    | some (before, tail) =>
      if RustStr.byteLen tail < 2 then some (leading before)
      else
        match takeSubfield tail with
        | none => none
        | some (sub, rest') =>
          (splitSubfields rest').map fun out => leading before ++ sub :: out := by
  rw [splitSubfields]
  split
  · next heq => rw [heq]
  · next heq =>
    simp only [heq]
    split
    · rfl
    · split
      · next hsub => simp only [hsub]
      · next hsub => simp only [hsub, leading]

theorem splitSubfields_plain (h : '?' ∉ rest) : splitSubfields rest = some [] := by
  rw [splitSubfields_eq, RustStr.cutAt_eq_none.mpr h]

theorem cutAt_question (h : '?' ∉ before) :
    RustStr.cutAt '?' (before ++ '?' :: tail) = some (before, tail) :=
  RustStr.cutAt_eq_some.mpr ⟨rfl, h⟩

theorem splitSubfields_short (h : '?' ∉ before) (htail : RustStr.byteLen tail < 2) :
    splitSubfields (before ++ '?' :: tail) = some (leading before) := by
  rw [splitSubfields_eq, cutAt_question h]
  exact if_pos htail

theorem splitSubfields_sub (h : '?' ∉ before) (htail : ¬ RustStr.byteLen tail < 2)
    (hsub : takeSubfield tail = some (sub, rest')) :
    splitSubfields (before ++ '?' :: tail) =
      (splitSubfields rest').map fun out => leading before ++ sub :: out := by
  rw [splitSubfields_eq, cutAt_question h]
  simp only [if_neg htail, hsub]

theorem splitSubfields_panic (h : '?' ∉ before) (htail : ¬ RustStr.byteLen tail < 2)
    (hsub : takeSubfield tail = none) : splitSubfields (before ++ '?' :: tail) = none := by
  rw [splitSubfields_eq, cutAt_question h]
  simp only [if_neg htail, hsub]

variable {code segment : List Char}

theorem exists_segment (text : List Char) : ∃ segment rest : List Char,
    text = segment ++ rest ∧ '?' ∉ segment ∧ ∀ c ∈ rest.head?, c = '?' := by
  cases hcut : RustStr.cutAt '?' text with
  | none => exact ⟨text, [], by simp, RustStr.cutAt_eq_none.mp hcut, by simp⟩
  | some r =>
    obtain ⟨htext, hsegment⟩ := RustStr.cutAt_eq_some.mp hcut
    exact ⟨r.1, '?' :: r.2, htext, hsegment, by simp [eq_comm]⟩

theorem takeSubfield_code (hcode : RustStr.byteLen code = 2) (hsegment : '?' ∉ segment)
    (hrest : ∀ c ∈ rest.head?, c = '?') :
    takeSubfield (code ++ (segment ++ rest)) = some ('?' :: (code ++ segment), rest) := by
  have hplain : ∀ c ∈ segment, decide (c ≠ '?') = true := by
    intro c hc
    rw [decide_eq_true_eq]
    rintro rfl
    exact hsegment hc
  have hstop : rest.takeWhile (fun c => decide (c ≠ '?')) = [] ∧
      rest.dropWhile (fun c => decide (c ≠ '?')) = rest := by
    cases rest with
    | nil => exact ⟨rfl, rfl⟩
    | cons c rest =>
      obtain rfl := hrest c rfl
      exact ⟨rfl, rfl⟩
  rw [takeSubfield, RustStr.splitBytes_append hcode, Option.map_some,
    List.takeWhile_append_of_pos hplain, List.dropWhile_append_of_pos hplain, hstop.1, hstop.2,
    List.append_nil, List.cons_append]

theorem splitSubfields_code (hbefore : '?' ∉ before) (hcode : RustStr.byteLen code = 2)
    (hsegment : '?' ∉ segment) (hrest : ∀ c ∈ rest.head?, c = '?') :
    splitSubfields (before ++ '?' :: (code ++ (segment ++ rest))) =
      (splitSubfields rest).map fun out => leading before ++ ('?' :: (code ++ segment)) :: out := by
  refine splitSubfields_sub hbefore ?_ (takeSubfield_code hcode hsegment hrest)
  have hsum : RustStr.byteLen (code ++ (segment ++ rest)) =
      RustStr.byteLen code + RustStr.byteLen (segment ++ rest) := by
    simp [RustStr.byteLen]
  omega

end

structure Narrative where
  text : String
  payee : Option String

/-- The payee after one more subfield. -/
def payeeFrom (payee : Option String) (sub : String) : Option String :=
  match RustStr.stripPrefix "?32" sub with
  | some rest => some (RustStr.trim rest)
  | none =>
    if payee = none then (RustStr.stripPrefix "?21" sub).map RustStr.trim else payee

def parse86 (body : String) : Option Narrative :=
  (splitSubfields body.toList).map fun subs =>
    { text := RustStr.trimEndMatches '/' (String.ofList (subs.flatMap fun sub => sub ++ ['/']))
      payee := (subs.map String.ofList).foldl payeeFrom none }

def pushTxn (t : Txn) : Option ParsedRow :=
  match t.amount with
  | none => none
  | some amount =>
    let amount := RustStr.trim amount
    if amount = "" then none
    else
      let amount := if t.direction = some 'D' then "-" ++ amount else amount
      let (debit, credit) :=
        if RustStr.startsWith "-" amount then (RustStr.trimStartMatches '-' amount, "")
        else ("", amount)
      some
        { date := t.valueDate.getD ""
          description := t.narrative.getD ""
          debit := debit
          credit := credit
          payee := t.payee
          reference := t.reference }

theorem pushTxn_of_amount {t : Txn} {a : List Char} (ha : t.amount = some (String.ofList a))
    (hne : a ≠ []) (hsolid : ∀ c ∈ a, RustStr.isWhitespace c = false ∧ c ≠ '-') :
    ∃ row, pushTxn t = some row ∧ row.description = t.narrative.getD "" ∧
      if t.direction = some 'D' then row.debit.toList = a ∧ row.credit = ""
      else row.credit.toList = a ∧ row.debit = "" := by
  have htrim : RustStr.trim (String.ofList a) = String.ofList a :=
    RustStr.trim_eq_self fun c hc => (hsolid c (by simpa using hc)).1
  have hfilled : String.ofList a ≠ "" := by
    intro h
    exact hne (by simpa using congrArg String.toList h)
  have hminus : ∀ c ∈ a.head?, ¬ c = '-' := fun c hc => (hsolid c (List.mem_of_head? hc)).2
  have hdrop : a.dropWhile (fun d => d = '-') = a := by
    cases a with
    | nil => rfl
    | cons c cs => exact List.dropWhile_cons_of_neg (by simpa using hminus c rfl)
  have hstart : RustStr.startsWith "-" (String.ofList a) = false := by
    cases a with
    | nil => rfl
    | cons c cs =>
      have hc : ¬ '-' = c := fun heq => hminus c rfl heq.symm
      simp [RustStr.startsWith, List.isPrefixOf, hc]
  rw [pushTxn, ha]
  simp only [htrim, if_neg hfilled]
  by_cases hd : t.direction = some 'D'
  · have hneg : RustStr.startsWith "-" ("-" ++ String.ofList a) = true := by
      simp [RustStr.startsWith]
    have hrest : (RustStr.trimStartMatches '-' ("-" ++ String.ofList a)).toList = a := by
      simp [RustStr.trimStartMatches, hdrop]
    simp only [if_pos hd, hneg, if_true]
    exact ⟨_, rfl, rfl, hrest, rfl⟩
  · simp only [if_neg hd, hstart]
    exact ⟨_, rfl, rfl, by simp, rfl⟩

/-- The local variables of `parse`. -/
structure State where
  out : List ParsedRow := []
  current : Txn := {}
  openingBalance : Option String := none
  closingBalance : Option String := none

/-- The row of the movement that is being read. -/
def State.pending (s : State) : List ParsedRow :=
  if s.current.valueDate = none then [] else (pushTxn s.current).toList

/-- The text behind a tag. -/
def behind (tag line : String) : String := String.ofList (line.toList.drop tag.toList.length)

/-- One line of the text.  The source reads the `:86:` line behind a `:61:` line in the same turn,
to the same effect. -/
def step (s : State) (raw : String) : Option State :=
  let line := RustStr.trim raw
  if RustStr.startsWith ":60F:" line ∨ RustStr.startsWith ":60M:" line then
    some { s with openingBalance := some (behind ":60F:" line) }
  else if RustStr.startsWith ":62F:" line ∨ RustStr.startsWith ":62M:" line then
    some { s with closingBalance := some (behind ":62F:" line) }
  else if RustStr.startsWith ":61:" line then
    some { s with out := s.out ++ s.pending, current := parse61 (behind ":61:" line) }
  else if RustStr.startsWith ":86:" line then
    (parse86 (behind ":86:" line)).map fun n =>
      { s with current := { s.current with narrative := some n.text, payee := n.payee } }
  else if s.current.valueDate ≠ none ∧ ¬ RustStr.startsWith ":" line = true ∧ line ≠ "" then
    some { s with current := { s.current with narrative := some line } }
  else some s

/-- `parse`, or none where it panics. -/
def parse (input : String) : Option Mt940 :=
  ((RustStr.lines input).foldlM step {}).map fun s =>
    { rows := s.out ++ s.pending
      openingBalance := s.openingBalance
      closingBalance := s.closingBalance }

end Mt940

end OpenAccounting.Import

/-!
## OFX bills

`import/ofx.rs`: one parser for SGML, which first puts line ends between the tags, and one for XML.
The parsers have no errors.  Their results are partial because a slice panics inside of a character
and behind the end of a text.
-/

namespace OpenAccounting.Import.Ofx

structure Txn where
  dtposted : Option String := none
  trnamt : Option String := none
  name : Option String := none
  memo : Option String := none
  fitid : Option String := none
  trntype : Option String := none

def pushTxn (t : Txn) : Option ParsedRow := do
  let date ← t.dtposted
  let amt ← t.trnamt
  let amt := RustStr.trim amt
  if amt = "" then none
  else
    let negative := RustStr.startsWith "-" amt
    let amt := if negative then String.ofList amt.toList.tail else amt
    let memo := t.memo.filter fun m => RustStr.trim m ≠ ""
    some
      { date := date
        description := (memo.orElse fun _ => t.name).getD ""
        debit := if negative then amt else ""
        credit := if negative then "" else amt
        payee := t.name
        reference := t.fitid }

/-- The slices of `normalise_date`. -/
def sliceDate (s : List Char) : Option String := do
  let (year, rest) ← RustStr.splitBytes 4 s
  let (month, rest) ← RustStr.splitBytes 2 rest
  let (day, _) ← RustStr.splitBytes 2 rest
  some (String.ofList year ++ "-" ++ String.ofList month ++ "-" ++ String.ofList day)

/-- A date without white space and a bracket at its end. -/
def dateCore (s : String) : String :=
  RustStr.trim (RustStr.trimEndMatches ']' (RustStr.trim s))

def normaliseDate (s : String) : Option String :=
  let s := dateCore s
  if RustStr.byteLen s.toList < 8 then some s else sliceDate s.toList

/-- The transaction after one more field. -/
def Txn.set (t : Txn) (tag value : String) : Option Txn :=
  let upper := RustStr.toAsciiUppercase tag
  if upper = "DTPOSTED" then (normaliseDate value).map fun d => { t with dtposted := some d }
  else if upper = "TRNAMT" then some { t with trnamt := some value }
  else if upper = "NAME" then some { t with name := some value }
  else if upper = "MEMO" then some { t with memo := some value }
  else if upper = "FITID" then some { t with fitid := some value }
  else if upper = "TRNTYPE" then some { t with trntype := some value }
  else some t

/-! ## SGML -/

/-- The loop of `normalise_sgml`: each byte becomes a character.  A bracket that opens right behind
a closing one starts a new line, unless a slash follows it. -/
def normaliseFrom (lastWasOpen : Bool) : List UInt8 → Option (List Char)
  | [] => some []
  | b :: bs => do
    let c := Char.ofNat b.toNat
    let breaks ←
      if c = '<' ∧ lastWasOpen = true then bs.head?.map fun next => decide (next ≠ 47)
      else some false
    let rest ← normaliseFrom (c = '>') bs
    some ((if breaks then ['\n'] else []) ++ c :: rest)

def normaliseSgml (input : String) : Option String :=
  (normaliseFrom false (ByteCode.utf8 input)).map String.ofList

/-- The first chunk of a line, up to the end of its first closing tag, and the rest. -/
def cutChunk (line : List Char) : Option (List Char × List Char) := do
  let (before, close) ← RustStr.cutBefore (fun s => "</".toList.isPrefixOf s) line
  let (inner, rest) ← RustStr.cutAt '>' close
  some (before ++ inner ++ ['>'], rest)

theorem cutChunk_eq_some {line chunk rest : List Char} (h : cutChunk line = some (chunk, rest)) :
    line = chunk ++ rest ∧ chunk ≠ [] := by
  rw [cutChunk, Option.bind_eq_bind, Option.bind_eq_some_iff] at h
  obtain ⟨⟨before, close⟩, hbefore, h⟩ := h
  obtain ⟨⟨inner, after⟩, hclose, heq⟩ := Option.bind_eq_some_iff.mp h
  cases heq
  rw [RustStr.cutBefore_eq_some hbefore, (RustStr.cutAt_eq_some.mp hclose).1]
  simp

/-- The chunks of a line: a line may have more than one tag. -/
def chunks (line : List Char) : List (List Char) :=
  match h : cutChunk line with
  | none => [line]
  | some (chunk, rest) =>
    have : rest.length < line.length := by
      obtain ⟨rfl, hne⟩ := cutChunk_eq_some h
      have hpos := List.length_pos_iff.mpr hne
      rw [List.length_append]
      omega
    chunk :: chunks rest
termination_by line.length

/-- The lines of a text that is normalised, each with one tag. -/
def logicalLines (normalised : String) : List String :=
  (RustStr.lines normalised).flatMap fun raw =>
    ((chunks (RustStr.trim raw).toList).map fun chunk => RustStr.trim (String.ofList chunk)).filter
      fun line => line ≠ ""

/-- The text is a tag. -/
def isTag (tag : String) : Bool := tag ≠ "" && tag.toList.all Char.isAlpha

/-- The value between a tag and the next closing tag, or an empty one. -/
def taggedValue (trimmed : String) : Option (String × String) := do
  let rest ← RustStr.stripPrefix "<" trimmed
  let (inner, after) ← RustStr.splitOnce '>' rest
  let tag := RustStr.trimEndMatches '/' inner
  if isTag tag then some (tag, ((RustStr.splitAtStr "</" after).map Prod.fst).getD "") else none

/-- The value behind a colon. -/
def colonValue (line : String) : Option (String × String) := do
  let (tag, value) ← RustStr.splitOnce ':' line
  if isTag tag then some (tag, RustStr.trim value) else none

/-- The value behind white space. -/
def spacedValue (line : String) : Option (String × String) := do
  let (tag, value) ← RustStr.cutBefore (fun s => s.head?.any RustStr.isWhitespace) line.toList
  if isTag (String.ofList tag) then some (String.ofList tag, RustStr.trim (String.ofList value))
  else none

def parseSgmlValue (line : String) : Option (String × String) :=
  (taggedValue (RustStr.trim line)).orElse fun _ =>
    (colonValue line).orElse fun _ => spacedValue line

/-- The local variables of `parse_sgml`. -/
structure State where
  out : List ParsedRow := []
  current : Txn := {}
  inStmt : Bool := false

/-- One line of the text. -/
def step (s : State) (line : String) : Option State :=
  let upper := RustStr.toAsciiUppercase line
  if RustStr.startsWith "OFXHEADER:" upper ∨ upper = "<OFX>" then some { s with inStmt := false }
  else if RustStr.startsWith "<STMTTRN>" upper then
    some { s with inStmt := true, current := {} }
  else if RustStr.startsWith "</STMTTRN>" upper then
    some { s with out := s.out ++ (pushTxn s.current).toList, inStmt := false }
  else if s.inStmt then
    match parseSgmlValue line with
    | some (tag, value) => (s.current.set tag value).map fun t => { s with current := t }
    | none => some s
  else some s

/-- `parse_sgml`, or none where it panics. -/
def parseSgml (input : String) : Option (List ParsedRow) := do
  let normalised ← normaliseSgml input
  let s ← (logicalLines normalised).foldlM step {}
  some s.out

/-! ## XML -/

/-- The text behind the declaration. -/
def xmlBody (input : String) : List Char :=
  let behind := do
    let declaration ← RustStr.suffixFrom "<?xml" input
    let (_, rest) ← RustStr.splitAtStr "?>" declaration
    some rest.toList
  behind.getD input.toList

/-- A suffix that starts with a tag in any case, as `find_ci` compares them. -/
def atTag (needle : String) (cs : List Char) : Bool :=
  (needle.toList.map Char.toLower).isPrefixOf (cs.map Char.toLower)

/-- The name of an element: its tag up to the first white space. -/
def elementName (tagRaw : List Char) : Option String :=
  (RustStr.splitWhitespace (String.ofList tagRaw)).head?

/-- An element at an opening bracket, if there is one, and the text that the scanner goes on
with. -/
def nextElement (cs : List Char) : Option (String × String) × List Char :=
  match RustStr.cutAt '>' cs with
  | none => (none, cs)
  | some (tagRaw, after) =>
    match elementName tagRaw with
    | none => (none, after)
    | some tag =>
      if tagRaw.getLast? = some '/' then (some (tag, ""), after)
      else
        match RustStr.cutAtStr ("</" ++ tag ++ ">").toList after with
        | some (value, rest) => (some (tag, RustStr.trim (String.ofList value)), rest)
        | none => (none, after)

theorem length_nextElement (cs : List Char) : (nextElement cs).2.length ≤ cs.length := by
  rw [nextElement]
  split
  · exact le_rfl
  · next tagRaw after hcut =>
      obtain ⟨rfl, -⟩ := RustStr.cutAt_eq_some.mp hcut
      split
      · simp
        omega
      · split
        · simp
          omega
        · split
          · next value rest hclose =>
              rw [RustStr.cutAtStr_eq_some hclose]
              simp
              omega
          · simp
            omega

def extractElements : List Char → List (String × String)
  | [] => []
  | c :: cs =>
    if c = '<' ∧ cs ≠ [] ∧ cs.head? ≠ some '/' ∧ cs.head? ≠ some '!' then
      have := length_nextElement cs
      (nextElement cs).1.toList ++ extractElements (nextElement cs).2
    else extractElements cs
termination_by cs => cs.length

def parseRegion (region : List Char) : Option (Option ParsedRow) :=
  ((extractElements region).foldlM (fun t e => Txn.set t e.1 e.2) {}).map pushTxn

/-- A region between the tags of a transaction, and the text behind it. -/
def cutRegion (cs : List Char) : Option (List Char × List Char) :=
  (RustStr.cutBefore (atTag "</STMTTRN>") cs).map fun r => (r.1, r.2.drop 10)

theorem cutRegion_shorter {cs region rest : List Char} (h : cutRegion cs = some (region, rest)) :
    rest.length ≤ cs.length := by
  obtain ⟨r, hr, heq⟩ := Option.map_eq_some_iff.mp h
  cases heq
  rw [RustStr.cutBefore_eq_some hr, List.length_append, List.length_drop]
  omega

theorem behind_shorter {body before found region rest : List Char}
    (h : RustStr.cutBefore (atTag "<STMTTRN>") body = some (before, found))
    (hregion : cutRegion (found.drop 9) = some (region, rest)) : rest.length < body.length := by
  have hne : found ≠ [] := by
    rintro rfl
    exact absurd (RustStr.cutBefore_holds h) (by simp [atTag])
  have hpos := List.length_pos_iff.mpr hne
  have hle := cutRegion_shorter hregion
  have hall := congrArg List.length (RustStr.cutBefore_eq_some h)
  rw [List.length_append] at hall
  rw [List.length_drop] at hle
  omega

/-- The loop of `parse_xml`.  Behind a transaction without an end tag the cursor is past the end of
the text, where the next search slices. -/
def parseXmlFrom (body : List Char) : Option (List ParsedRow) :=
  match h : RustStr.cutBefore (atTag "<STMTTRN>") body with
  | none => some []
  | some (before, found) =>
    match hregion : cutRegion (found.drop 9) with
    | none => none
    | some (region, rest) =>
      have : rest.length < body.length := behind_shorter h hregion
      (parseRegion region).bind fun row =>
        (parseXmlFrom rest).map fun rows => row.toList ++ rows
termination_by body.length

section

variable {body before found region rest : List Char}

theorem parseXmlFrom_eq (body : List Char) : parseXmlFrom body =
    match RustStr.cutBefore (atTag "<STMTTRN>") body with
    | none => some []
    | some (_, found) =>
      match cutRegion (found.drop 9) with
      | none => none
      | some (region, rest) =>
        (parseRegion region).bind fun row =>
          (parseXmlFrom rest).map fun rows => row.toList ++ rows := by
  rw [parseXmlFrom]
  split
  · next heq => rw [heq]
  · next heq =>
    simp only [heq]
    split
    · next hregion => simp only [hregion]
    · next hregion => simp only [hregion]

theorem parseXmlFrom_done (h : RustStr.cutBefore (atTag "<STMTTRN>") body = none) :
    parseXmlFrom body = some [] := by
  rw [parseXmlFrom_eq, h]

theorem parseXmlFrom_open (h : RustStr.cutBefore (atTag "<STMTTRN>") body = some (before, found))
    (hregion : cutRegion (found.drop 9) = none) : parseXmlFrom body = none := by
  rw [parseXmlFrom_eq, h]
  simp only [hregion]

theorem parseXmlFrom_region (h : RustStr.cutBefore (atTag "<STMTTRN>") body = some (before, found))
    (hregion : cutRegion (found.drop 9) = some (region, rest)) :
    parseXmlFrom body = (parseRegion region).bind fun row =>
      (parseXmlFrom rest).map fun rows => row.toList ++ rows := by
  rw [parseXmlFrom_eq, h]
  simp only [hregion]

end

/-- `parse_xml`, or none where it panics. -/
def parseXml (input : String) : Option (List ParsedRow) := parseXmlFrom (xmlBody input)

end OpenAccounting.Import.Ofx
