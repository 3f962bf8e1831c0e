import OpenAccounting.Export.PlainText

/-!
# Beancount, written and read

A string is escaped so that the reader of strings finds its end, a posting is three words, and
every other line that the exporter writes is blank, a comment or a directive that the importer passes
over.  So the importer reads just the transactions that have been written: `roundTrips`.
-/

namespace OpenAccounting.Export.Beancount

open Calendar Commit RustStr
open Import (Libraries PtaTxn PtaPosting plainLibraries plainLibraries_lawful)
open Import.Beancount

/-! ## What a snapshot has to meet -/

/-- Three ASCII letters. -/
def IsCurrency (c : String) : Prop := c.length = 3 ∧ c.toList.all Char.isAlpha = true

/-- A name that is not empty and has no comment or annotation in it, and no white space but spaces
and tabs. -/
structure IsAccountName (name : String) : Prop where
  ne_empty : name ≠ ""
  chars : ∀ c ∈ name.toList, c ≠ ';' ∧ c ≠ '@' ∧ c ≠ '#' ∧
    (isWhitespace c = true → c = ' ' ∨ c = '\t')

/-- The name of the ledger is one line, the currencies and the account names have their form, and
the postings are valid.  Descriptions and payees are any texts. -/
structure Exportable (s : LedgerSnapshot) : Prop where
  name : '\n' ∉ s.ledger.name.toList
  base_currency : IsCurrency s.ledger.baseCurrency
  currencies : ∀ c ∈ s.currencies, IsCurrency c
  accounts : ∀ a ∈ s.accounts, IsAccountName a.name ∧ IsCurrency a.currency
  postings : ∀ p ∈ s.postings, p.Valid ∧ IsCurrency p.currency

/-- What a posting is to come back as. -/
def expectedPosting (s : LedgerSnapshot) (p : PostingRow) : PtaPosting where
  accountName := accountName s p.accountId
  amount := p.amount.value
  direction := p.side

/-- What a transaction is to come back as. -/
def expected (s : LedgerSnapshot) (t : TransactionRow) : PtaTxn where
  date := t.txnDate
  description := t.description
  payee := t.payee.filter fun payee => payee ≠ ""
  postings := (s.postingsOf t).map (expectedPosting s)

/-! ## Strings -/

section

variable {out : List String} {current rest : List Char}

theorem stringsFrom_escapeChar (c : Char) :
    stringsFrom out current true (escapeChar c ++ rest) = stringsFrom out (c :: current) true rest := by
  unfold escapeChar
  split
  · simp [stringsFrom, unescape]
  · simp [stringsFrom, unescape]
  · simp [stringsFrom, unescape]
  · simp [stringsFrom, unescape]
  · simp [stringsFrom, unescape]
  · next hquote hslash _ _ _ =>
      rw [List.singleton_append, stringsFrom.eq_def]
      split
      · next heq => cases heq
      · next heq => exact absurd (List.cons.inj heq).1 hquote
      · next heq => exact absurd (List.cons.inj heq).1 hslash
      · next heq => exact absurd (List.cons.inj heq).1 hslash
      · next heq =>
          obtain ⟨rfl, rfl⟩ := List.cons.inj heq
          simp

theorem stringsFrom_escape (cs : List Char) :
    stringsFrom out current true (cs.flatMap escapeChar ++ '"' :: rest) =
      stringsFrom (out ++ [String.ofList (current.reverse ++ cs)]) [] false rest := by
  induction cs generalizing current with
  | nil => simp [stringsFrom]
  | cons c cs ih =>
    rw [List.flatMap_cons, List.append_assoc, stringsFrom_escapeChar, ih]
    simp

theorem toList_quoted (s : String) :
    (quoted s).toList = '"' :: (s.toList.flatMap escapeChar ++ ['"']) := by
  simp [quoted, escapeBeancountString]

theorem splitBeancountStrings_one (s : String) : splitBeancountStrings (quoted s) = [s] := by
  rw [splitBeancountStrings, if_pos (by simp [toList_quoted]), toList_quoted, stringsFrom,
    if_neg (by simp), stringsFrom_escape]
  simp [stringsFrom]

theorem splitBeancountStrings_two (s t : String) :
    splitBeancountStrings (quoted s ++ " " ++ quoted t) = [s, t] := by
  have hlist : (quoted s ++ " " ++ quoted t).toList =
      '"' :: (s.toList.flatMap escapeChar ++ '"' :: ' ' :: '"' ::
        (t.toList.flatMap escapeChar ++ ['"'])) := by
    simp [toList_quoted]
  rw [splitBeancountStrings, if_pos (by simp [hlist]), hlist, stringsFrom, if_neg (by simp),
    stringsFrom_escape]
  have hspace : stringsFrom ([] ++ [String.ofList ([].reverse ++ s.toList)]) [] false
      (' ' :: '"' :: (t.toList.flatMap escapeChar ++ ['"'])) =
        stringsFrom [s] [] true (t.toList.flatMap escapeChar ++ ['"']) := by
    simp [stringsFrom, isWhitespace]
  rw [hspace, stringsFrom_escape]
  simp [stringsFrom]

end

/-! ## Words that the exporter writes -/

/-- A word that can stand in a posting. -/
structure IsWord (w : String) : Prop where
  ne_empty : w ≠ ""
  chars : ∀ c ∈ w.toList, isWhitespace c = false ∧ c ≠ ';' ∧ c ≠ '@' ∧ c ≠ '#'

theorem isWord_currency {c : String} (h : IsCurrency c) : IsWord c := by
  refine ⟨fun hempty => ?_, fun d hd => ?_⟩
  · rw [hempty] at h
    exact absurd h.1 (by decide)
  · have halpha := List.all_eq_true.mp h.2 d hd
    have halnum : d.isAlphanum = true := by simp [Char.isAlphanum, halpha]
    refine ⟨isWhitespace_of_isAlphanum halnum, ?_, ?_, ?_⟩ <;> rintro rfl <;> cases halpha

theorem toList_beancountAccountName (name : String) :
    (beancountAccountName name).toList = name.toList.map fun c =>
      if c = ' ' ∨ c = '\t' ∨ c = '-' ∨ c = ':' then '_' else c := String.toList_map

theorem isWord_beancountAccountName {name : String} (h : IsAccountName name) :
    IsWord (beancountAccountName name) := by
  have hlist := toList_beancountAccountName name
  refine ⟨fun hempty => ?_, fun c hc => ?_⟩
  · have hnil : name.toList = [] := by
      rw [← List.map_eq_nil_iff, ← hlist]
      exact congrArg String.toList hempty
    exact h.ne_empty (String.toList_inj.mp hnil)
  · rw [hlist] at hc
    obtain ⟨d, hd, rfl⟩ := List.mem_map.mp hc
    obtain ⟨hsemi, hat, hhash, hspace⟩ := h.chars d hd
    split
    · decide
    · next hkept =>
        simp only [not_or] at hkept
        refine ⟨Bool.eq_false_iff.mpr fun hwhite => ?_, hsemi, hat, hhash⟩
        rcases hspace hwhite with hblank | htab
        · exact hkept.1 hblank
        · exact hkept.2.1 htab

variable {s : LedgerSnapshot} {lib : Libraries}

theorem isWord_accountName (h : Exportable s) (id : Uuid) : IsWord (accountName s id) := by
  rw [accountName]
  cases hfind : s.findAccount id with
  | none => exact ⟨by decide, forall_chars rfl⟩
  | some a =>
    have ha : a ∈ s.accounts := List.mem_reverse.mp (List.mem_of_find?_eq_some hfind)
    exact isWord_beancountAccountName (h.accounts a ha).1

/-- An amount is written as one word without a comma and is read back. -/
theorem formatDecimal_spec (hlib : lib.Lawful) (d : Decimal.Scaled) :
    IsWord (formatDecimal lib d) ∧ ',' ∉ (formatDecimal lib d).toList ∧
      lib.decimal.parse (formatDecimal lib d) = some d.value := by
  have hchars : ∀ c ∈ (formatDecimal lib d).toList, c.isDigit = true ∨ c = '-' ∨ c = '.' := by
    intro c hc
    simp only [formatDecimal] at hc
    split at hc
    · exact hlib.decimal.chars d c hc
    · rw [String.toList_append, List.mem_append] at hc
      rcases hc with hc | hc
      · exact hlib.decimal.chars d c hc
      · simp only [String.reduceToList, List.mem_cons, List.not_mem_nil, or_false] at hc
        rcases hc with rfl | rfl | rfl <;> decide
  refine ⟨⟨fun hempty => ?_, fun c hc => ?_⟩, fun hc => ?_, ?_⟩
  · simp only [formatDecimal] at hempty
    split at hempty
    · exact hlib.decimal.display_ne_empty d hempty
    · exact absurd (congrArg String.toList hempty) (by simp)
  · rcases hchars c hc with hdigit | rfl | rfl
    · have halnum : c.isAlphanum = true := by simp [Char.isAlphanum, hdigit]
      refine ⟨isWhitespace_of_isAlphanum halnum, ?_, ?_, ?_⟩ <;> rintro rfl <;> cases hdigit
    · decide
    · decide
  · rcases hchars _ hc with h | h | h <;> revert h <;> decide
  · simp only [formatDecimal]
    split
    · exact hlib.decimal.parse_display d
    · next hpoint => exact hlib.decimal.parse_whole d hpoint

theorem IsWord.startsSolid {w : String} (h : IsWord w) : StartsSolid w :=
  startsSolid_of_forall h.ne_empty fun c hc => (h.chars c hc).1

theorem IsWord.endsSolid {w : String} (h : IsWord w) : EndsSolid w :=
  endsSolid_of_forall h.ne_empty fun c hc => (h.chars c hc).1

/-! ## Postings -/

/-- The text of a posting after the indentation. -/
def postingBody (name amount currency : String) : String :=
  padEnd 50 name ++ "  " ++ padStart 12 amount ++ " " ++ currency

theorem toList_postingBody (name amount currency : String) :
    ∃ k, (postingBody name amount currency).toList =
      name.toList ++ ' ' :: (List.replicate k ' ' ++ (amount.toList ++ ' ' :: currency.toList)) := by
  refine ⟨(50 - name.length) + 1 + (12 - amount.length), ?_⟩
  have hspaces : ∀ m n : ℕ, List.replicate m ' ' ++ ' ' :: ' ' :: List.replicate n ' ' =
      ' ' :: List.replicate (m + 1 + n) ' ' := by
    intro m n
    rw [← List.replicate_succ, ← List.replicate_succ, ← List.replicate_succ, List.replicate_append_replicate]
    congr 1
    omega
  simp only [postingBody, padEnd, padStart, String.toList_append, String.toList_ofList,
    List.append_assoc]
  rw [← List.cons_append, ← hspaces]
  simp

section

variable {lib : Libraries} {name amount currency : String} {x : ℚ}

theorem mem_postingBody (hname : IsWord name) (hamount : IsWord amount)
    (hcurrency : IsWord currency) {c : Char}
    (hc : c ∈ (postingBody name amount currency).toList) :
    c = ' ' ∨ isWhitespace c = false ∧ c ≠ ';' ∧ c ≠ '@' ∧ c ≠ '#' := by
  obtain ⟨k, hlist⟩ := toList_postingBody name amount currency
  rw [hlist] at hc
  simp only [List.mem_append, List.mem_cons, List.mem_replicate] at hc
  rcases hc with hc | rfl | ⟨-, rfl⟩ | hc | rfl | hc
  · exact Or.inr (hname.chars c hc)
  · exact Or.inl rfl
  · exact Or.inl rfl
  · exact Or.inr (hamount.chars c hc)
  · exact Or.inl rfl
  · exact Or.inr (hcurrency.chars c hc)

theorem parsePosting_postingBody (hname : IsWord name) (hamount : IsWord amount)
    (hcurrency : IsWord currency) (hcomma : ',' ∉ amount.toList)
    (hread : lib.decimal.parse amount = some x) :
    parsePosting lib (postingBody name amount currency) = .ok (PtaPosting.ofSigned name x) := by
  obtain ⟨k, hlist⟩ := toList_postingBody name amount currency
  have hfree : ∀ c, c ≠ ' ' → (c = ';' ∨ c = '@' ∨ c = '#') →
      c ∉ (postingBody name amount currency).toList := by
    intro c hspace hmark hmem
    obtain ⟨-, hsemi, hat, hhash⟩ :=
      (mem_postingBody hname hamount hcurrency hmem).resolve_left hspace
    rcases hmark with h | h | h
    · exact hsemi h
    · exact hat h
    · exact hhash h
  have hends : EndsSolid (postingBody name amount currency) := hcurrency.endsSolid.append _
  have hwords : splitWhitespace (postingBody name amount currency) =
      name :: amount :: splitWhitespace currency := by
    rw [← String.ofList_toList (s := postingBody name amount currency), hlist,
      splitWhitespace_word hname.ne_empty (fun d hd => (hname.chars d hd).1) rfl,
      splitWhitespace_blank fun c hc => (List.mem_replicate.mp hc).2 ▸ rfl,
      splitWhitespace_word hamount.ne_empty (fun d hd => (hamount.chars d hd).1) rfl,
      String.ofList_toList]
  delta parsePosting
  dsimp only
  rw [before_eq_self (hfree ';' (by decide) (by simp)), if_neg (hfree '@' (by decide) (by simp)),
    before_eq_self (hfree '#' (by decide) (by simp)), hends.trimEnd, hwords]
  simp only [without_eq_self hcomma, bind_eq_ok, okOr_eq_ok]
  exact ⟨x, hread, rfl⟩

end

/-- The line of a valid posting is indented, and is read as the posting. -/
theorem postingLine_word (hlib : lib.Lawful) {p : PostingRow}
    (hname : IsWord (accountName s p.accountId)) (hvalid : p.Valid)
    (hcurrency : IsCurrency p.currency) :
    ∃ line, postingLine s lib p = some ("  " ++ line) ∧ StartsSolid line ∧ EndsSolid line ∧
      '\n' ∉ line.toList ∧ ';' ∉ line.toList ∧
      parsePosting lib line = .ok (some (expectedPosting s p)) := by
  have hcur := isWord_currency hcurrency
  obtain ⟨signed, hsigned, hposting⟩ : ∃ signed, p.signed = some signed ∧
      PtaPosting.ofSigned (accountName s p.accountId) signed.value = some (expectedPosting s p) := by
    rcases hvalid.signed_cases with ⟨hside, hsigned⟩ | ⟨hside, hsigned⟩
    · refine ⟨_, hsigned, ?_⟩
      rw [expectedPosting, hside]
      exact PtaPosting.ofSigned_debit hvalid.positive
    · refine ⟨_, hsigned, ?_⟩
      rw [Decimal.Scaled.value_neg, expectedPosting, hside]
      exact PtaPosting.ofSigned_credit hvalid.positive
  obtain ⟨hamount, hcomma, hread⟩ := formatDecimal_spec hlib signed
  refine ⟨postingBody (accountName s p.accountId) (formatDecimal lib signed) p.currency, ?_, ?_,
    hcur.endsSolid.append _, fun hmem => ?_, fun hmem => ?_, ?_⟩
  · rw [postingLine, hsigned]
    simp [postingBody, String.append_assoc]
  · simp only [postingBody, padEnd, String.append_assoc]
    exact hname.startsSolid.append _
  · obtain ⟨hwhite, -⟩ := (mem_postingBody hname hamount hcur hmem).resolve_left (by decide)
    cases hwhite
  · exact ((mem_postingBody hname hamount hcur hmem).resolve_left (by decide)).2.1 rfl
  · rw [parsePosting_postingBody hname hamount hcur hcomma hread, hposting]

theorem postingLine_spec (hlib : lib.Lawful) (h : Exportable s) {p : PostingRow}
    (hp : p ∈ s.postings) :
    ∃ line, postingLine s lib p = some ("  " ++ line) ∧ StartsSolid line ∧ EndsSolid line ∧
      '\n' ∉ line.toList ∧ ';' ∉ line.toList ∧
      parsePosting lib line = .ok (some (expectedPosting s p)) :=
  postingLine_word hlib (isWord_accountName h p.accountId) (h.postings p hp).1 (h.postings p hp).2

/-! ## Headers and directives -/

/-- A word and a space before a text that starts solid: the date part and the rest. -/
theorem directive_word {word rest : String} (hne : word ≠ "")
    (hword : ∀ c ∈ word.toList, isWhitespace c = false) (hrest : StartsSolid rest) :
    directive lib (word ++ " " ++ rest) =
      (lib.parseDate word).bind fun date => parseTxnHeader date rest := by
  have hstart : StartsSolid (word ++ " " ++ rest) :=
    ((startsSolid_of_forall hne hword).append " ").append rest
  have hlist : (word ++ " " ++ rest).toList = word.toList ++ ' ' :: rest.toList := by simp
  have hwords : (splitWhitespace (word ++ " " ++ rest)).head? = some word := by
    rw [← String.ofList_toList (s := word ++ " " ++ rest), hlist,
      splitWhitespace_word hne hword rfl]
    rfl
  have hafter : trimStart (String.ofList ((word ++ " " ++ rest).toList.drop word.length)) = rest := by
    have hdrop : (word ++ " " ++ rest).toList.drop word.length = ' ' :: rest.toList := by
      rw [hlist, ← String.length_toList, List.drop_left]
    have htext : String.ofList (' ' :: rest.toList) = " " ++ rest := by
      apply String.toList_inj.mp
      simp
    rw [hdrop, htext, trimStart_append (by simp [isWhitespace]), hrest.trimStart]
  simp only [directive, hstart.trimStart, hwords, hafter, Option.bind_eq_bind, Option.bind_some]

theorem parseTxnHeader_eq_none {date : NaiveDate} {rest : String} {c : Char}
    (hc : rest.toList.head? = some c) (hflag : c ≠ '*' ∧ c ≠ '!' ∧ c ≠ 't') :
    parseTxnHeader date rest = none := by
  have hnone : ∀ start : String, (∃ d, start.toList.head? = some d ∧ (d = '*' ∨ d = '!' ∨ d = 't')) →
      stripPrefix start rest = none := by
    rintro start ⟨d, hd, hmark⟩
    cases hstrip : stripPrefix start rest with
    | none => rfl
    | some after =>
      rw [stripPrefix_eq_some.mp hstrip, String.toList_append, List.head?_append, hd] at hc
      obtain rfl : d = c := Option.some.inj hc
      rcases hmark with h | h | h
      · exact absurd h hflag.1
      · exact absurd h hflag.2.1
      · exact absurd h hflag.2.2
  simp only [parseTxnHeader]
  rw [hnone "*" ⟨'*', rfl, by simp⟩, hnone "!" ⟨'!', rfl, by simp⟩, hnone "txn" ⟨'t', rfl, by simp⟩,
    hnone "txn " ⟨'t', rfl, by simp⟩]
  rfl

theorem isWhitespace_of_mem_display {d : NaiveDate} {c : Char} (h : c ∈ d.display.toList) :
    isWhitespace c = false := by
  rcases NaiveDate.mem_display h with hdigit | rfl | rfl
  · exact isWhitespace_of_isAlphanum (by simp [Char.isAlphanum, hdigit])
  · rfl
  · rfl

theorem quoted_solid (s : String) : StartsSolid (quoted s) ∧ EndsSolid (quoted s) :=
  ⟨⟨'"', by simp [toList_quoted], rfl⟩, ⟨'"', by simp [toList_quoted, List.getLast?_cons], rfl⟩⟩

theorem newline_notMem_quoted (s : String) : '\n' ∉ (quoted s).toList := by
  have hescape : ∀ c, '\n' ∉ escapeChar c := by
    intro c
    unfold escapeChar
    split
    · decide
    · decide
    · decide
    · decide
    · decide
    · next hnewline _ _ => simpa using Ne.symm hnewline
  rw [toList_quoted]
  simp [hescape]

def narration (t : TransactionRow) : String :=
  match t.payee.filter fun payee => payee ≠ "" with
  | some payee => quoted payee ++ " " ++ quoted t.description
  | none => quoted t.description

theorem headerLine_eq (t : TransactionRow) :
    headerLine t = t.txnDate.display ++ " " ++ ("* " ++ narration t) := by
  simp only [headerLine, narration, String.append_assoc]
  rfl

theorem narration_spec (t : TransactionRow) :
    StartsSolid (narration t) ∧ EndsSolid (narration t) ∧ '\n' ∉ (narration t).toList := by
  rw [narration]
  split
  · next payee _ =>
      refine ⟨((quoted_solid payee).1.append _).append _, (quoted_solid _).2.append _, ?_⟩
      simp [newline_notMem_quoted]
  · exact ⟨(quoted_solid _).1, (quoted_solid _).2, newline_notMem_quoted _⟩

theorem directive_headerLine (hlib : lib.Lawful) (s : LedgerSnapshot) (t : TransactionRow) :
    directive lib (headerLine t) = some { expected s t with postings := [] } := by
  obtain ⟨hstarts, -, -⟩ := narration_spec t
  have hrest : StartsSolid ("* " ++ narration t) :=
    StartsSolid.append ⟨'*', by simp, rfl⟩ _
  have hflag : stripPrefix "*" ("* " ++ narration t) = some (" " ++ narration t) :=
    stripPrefix_eq_some.mpr (by rw [← String.append_assoc]; rfl)
  have htrim : trimStart (" " ++ narration t) = narration t := by
    rw [trimStart_append (by simp [isWhitespace]), hstarts.trimStart]
  rw [headerLine_eq, directive_word t.txnDate.display_ne_empty
    (fun c => isWhitespace_of_mem_display) hrest, hlib.parse_display, Option.bind_some]
  have hfirst : ∀ (a : String) (o : Option String), (some a <|> o) = some a := fun _ _ => rfl
  simp only [parseTxnHeader, hflag, hfirst, Option.bind_eq_bind, Option.bind_some]
  rw [htrim, narration, expected]
  cases hpayee : t.payee.filter fun payee => payee ≠ "" with
  | none =>
    simp only
    rw [splitBeancountStrings_one]
  | some payee =>
    simp only
    rw [splitBeancountStrings_two]
    simp

/-! ## Lines -/

section

variable {lib : Libraries} {n : ℕ} {txns : List PtaTxn} {current : Option PtaTxn}
  {line : String} {rest : List String}

theorem parseLines_blank :
    parseLines lib n txns current ("" :: rest) = parseLines lib (n + 1) txns current rest := by
  rw [parseLines]
  exact if_pos (Or.inl rfl)

theorem parseLines_comment (hends : EndsSolid line) (hcomment : line.toList.head? = some ';') :
    parseLines lib n txns current (line :: rest) = parseLines lib (n + 1) txns current rest := by
  have hstarts : StartsSolid line := ⟨';', hcomment, rfl⟩
  rw [parseLines]
  simp only [hends.trimEnd, hstarts.trimStart]
  exact if_pos (Or.inr hcomment)

theorem parseLines_directive (hstarts : StartsSolid line) (hends : EndsSolid line)
    (hcomment : line.toList.head? ≠ some ';') :
    parseLines lib n txns current (line :: rest) =
      parseLines lib (n + 1) (txns ++ current.toList) (directive lib line) rest := by
  have hindent : ¬ (line.toList.head? = some ' ' ∨ line.toList.head? = some '\t') := by
    obtain ⟨c, hc, hsolid⟩ := hstarts
    rw [Option.mem_def.mp hc]
    rintro (h | h) <;> (cases h; cases hsolid)
  rw [parseLines]
  simp only [hends.trimEnd, hstarts.trimStart]
  rw [if_neg (by simp [hends.trim_ne_empty, hcomment]), if_neg hindent]

theorem parseLines_posting {txn : PtaTxn} {posting : PtaPosting} (hstarts : StartsSolid line)
    (hends : EndsSolid line) (hcomment : ';' ∉ line.toList)
    (hposting : parsePosting lib line = .ok (some posting)) :
    parseLines lib n txns (some txn) (("  " ++ line) :: rest) =
      parseLines lib (n + 1) txns (some { txn with postings := txn.postings ++ [posting] }) rest := by
  have hends' : EndsSolid ("  " ++ line) := hends.append _
  have htrim : trimStart ("  " ++ line) = line := by
    rw [trimStart_append (by simp [isWhitespace]), hstarts.trimStart]
  have hhead : line.toList.head? ≠ some ';' := fun h => hcomment (List.mem_of_mem_head? h)
  rw [parseLines]
  simp only [hends'.trimEnd, htrim]
  rw [if_neg (by simp [hends'.trim_ne_empty, hhead]), if_pos (by simp), hposting]
  rfl

end

section

variable {lib : Libraries} {s : LedgerSnapshot} {rest : List String} {txns : List PtaTxn}

/-! ## The transactions -/

/-- The lines of the postings are read as these postings of the current transaction. -/
theorem postingLines_spec (hlib : lib.Lawful) (h : Exportable s) {ps : List PostingRow}
    (hps : ∀ p ∈ ps, p ∈ s.postings) :
    ∃ lines, ps.mapM (postingLine s lib) = some lines ∧ (∀ l ∈ lines, IsLine l) ∧
      ∀ n txns txn, parseLines lib n txns (some txn) (lines ++ rest) =
        parseLines lib (n + lines.length) txns
          (some { txn with postings := txn.postings ++ ps.map (expectedPosting s) }) rest := by
  induction ps with
  | nil => exact ⟨[], rfl, fun l hl => (nomatch hl), fun n txns txn => by simp⟩
  | cons p ps ih =>
    obtain ⟨lines, hlines, hall, hread⟩ := ih fun q hq => hps q (List.mem_cons_of_mem p hq)
    obtain ⟨line, hline, hstarts, hends, hnewline, hcomment, hposting⟩ :=
      postingLine_spec hlib h (hps p List.mem_cons_self)
    refine ⟨("  " ++ line) :: lines, ?_, ?_, fun n txns txn => ?_⟩
    · rw [List.mapM_cons, hline, hlines]
      rfl
    · rintro l (_ | ⟨_, hl⟩)
      · exact (hends.append _).isLine (by simp [hnewline])
      · exact hall l hl
    · rw [List.cons_append, parseLines_posting hstarts hends hcomment hposting, hread]
      simp only [List.length_cons, List.map_cons, List.append_assoc, List.cons_append,
        List.nil_append]
      rw [Nat.add_assoc, Nat.add_comm 1]

theorem headerLine_solid (t : TransactionRow) :
    StartsSolid (headerLine t) ∧ EndsSolid (headerLine t) ∧ '\n' ∉ (headerLine t).toList ∧
      (headerLine t).toList.head? ≠ some ';' := by
  obtain ⟨-, hends, hnewline⟩ := narration_spec t
  have hdate := startsSolid_of_forall t.txnDate.display_ne_empty
    fun c => isWhitespace_of_mem_display
  rw [headerLine_eq]
  refine ⟨(hdate.append _).append _, (hends.append _).append _, ?_, ?_⟩
  · have hdisplay : '\n' ∉ t.txnDate.display.toList := fun hmem => by
      cases isWhitespace_of_mem_display hmem
    simp [hdisplay, hnewline]
  · obtain ⟨c, hc, hsolid⟩ := hdate
    have hmem : c ∈ t.txnDate.display.toList := List.mem_of_mem_head? hc
    rw [String.toList_append, String.toList_append, List.append_assoc, List.head?_append,
      Option.mem_def.mp hc]
    rintro heq
    obtain rfl : c = ';' := Option.some.inj heq
    rcases NaiveDate.mem_display hmem with h | h | h <;> revert h <;> decide

/-- A block is read as its transaction, and closes the one before. -/
theorem block_spec (hlib : lib.Lawful) (h : Exportable s) (t : TransactionRow) :
    ∃ lines, block s lib t = some lines ∧ (∀ l ∈ lines, IsLine l) ∧
      ∀ n txns current, parseLines lib n txns current (lines ++ rest) =
        parseLines lib (n + lines.length) (txns ++ current.toList) (some (expected s t)) rest := by
  have howned : ∀ p ∈ s.postingsOf t, p ∈ s.postings := fun p hp => List.mem_of_mem_filter hp
  obtain ⟨lines, hlines, hall, hread⟩ := @postingLines_spec _ _ ("" :: rest) hlib h _ howned
  obtain ⟨hstarts, hends, hnewline, hcomment⟩ := headerLine_solid t
  refine ⟨headerLine t :: lines ++ [""], by rw [block, hlines]; rfl, ?_, fun n txns current => ?_⟩
  · intro l hl
    simp only [List.cons_append, List.mem_cons, List.mem_append, List.not_mem_nil, or_false] at hl
    rcases hl with rfl | hl | rfl
    · exact hends.isLine hnewline
    · exact hall l hl
    · exact ⟨by simp, by simp⟩
  · have happend : headerLine t :: lines ++ [""] ++ rest = headerLine t :: (lines ++ "" :: rest) := by
      simp
    rw [happend, parseLines_directive hstarts hends hcomment, directive_headerLine hlib s, hread,
      parseLines_blank]
    simp only [List.nil_append, List.length_append, List.length_cons, List.length_nil]
    congr 1
    omega

/-- The blocks are read as their transactions, in order. -/
theorem blocks_spec (hlib : lib.Lawful) (h : Exportable s) (ts : List TransactionRow) :
    ∃ blocks, ts.mapM (block s lib) = some blocks ∧ (∀ l ∈ blocks.flatten, IsLine l) ∧
      ∀ n txns current, parseLines lib n txns current blocks.flatten =
        .ok (txns ++ current.toList ++ ts.map (expected s)) := by
  induction ts with
  | nil => exact ⟨[], rfl, fun l hl => (nomatch hl), fun n txns current => by simp [parseLines]⟩
  | cons t ts ih =>
    obtain ⟨blocks, hblocks, hall, hread⟩ := ih
    obtain ⟨lines, hlines, hline, hblock⟩ := @block_spec _ _ blocks.flatten hlib h t
    refine ⟨lines :: blocks, ?_, ?_, fun n txns current => ?_⟩
    · rw [List.mapM_cons, hlines, hblocks]
      rfl
    · intro l hl
      rw [List.flatten_cons, List.mem_append] at hl
      exact hl.elim (hline l) (hall l)
    · rw [List.flatten_cons, hblock, hread]
      simp

end

/-! ## The lines before them -/

/-- A line that the importer passes over. -/
inductive Skipped (lib : Libraries) : String → Prop where
  | blank : Skipped lib ""
  | comment {line : String} (ends : EndsSolid line) (newline : '\n' ∉ line.toList)
      (mark : line.toList.head? = some ';') : Skipped lib line
  | other {line : String} (starts : StartsSolid line) (ends : EndsSolid line)
      (newline : '\n' ∉ line.toList) (mark : line.toList.head? ≠ some ';')
      (none : directive lib line = none) : Skipped lib line

section

variable {lib : Libraries} {s : LedgerSnapshot} {rest : List String}

theorem Skipped.isLine {line : String} (h : Skipped lib line) : IsLine line := by
  cases h with
  | blank => exact ⟨by simp, by simp⟩
  | comment ends newline => exact ends.isLine newline
  | other _ ends newline => exact ends.isLine newline

theorem parseLines_skipped {lines : List String} (h : ∀ l ∈ lines, Skipped lib l) (n : ℕ) :
    parseLines lib n [] none (lines ++ rest) = parseLines lib (n + lines.length) [] none rest := by
  induction lines generalizing n with
  | nil => rfl
  | cons line lines ih =>
    have hstep : parseLines lib n [] none (line :: (lines ++ rest)) =
        parseLines lib (n + 1) [] none (lines ++ rest) := by
      cases h line List.mem_cons_self with
      | blank => exact parseLines_blank
      | comment ends _ mark => exact parseLines_comment ends mark
      | other starts ends _ mark hnone =>
        rw [parseLines_directive starts ends mark, hnone]
        rfl
    rw [List.cons_append, hstep, ih (fun l hl => h l (List.mem_cons_of_mem line hl)),
      List.length_cons, Nat.add_assoc, Nat.add_comm 1]

theorem Skipped.of_words {word after : String} {c : Char} (hne : word ≠ "")
    (hword : ∀ d ∈ word.toList, isWhitespace d = false ∧ d ≠ ';')
    (hc : after.toList.head? = some c) (hsolid : isWhitespace c = false)
    (hflag : c ≠ '*' ∧ c ≠ '!' ∧ c ≠ 't') (hends : EndsSolid after) (hnewline : '\n' ∉ after.toList) :
    Skipped lib (word ++ " " ++ after) := by
  have hstarts := startsSolid_of_forall hne fun d hd => (hword d hd).1
  refine .other ((hstarts.append _).append _) (hends.append _) (fun hmem => ?_) (fun hmark => ?_) ?_
  · rw [String.toList_append, String.toList_append, List.mem_append, List.mem_append] at hmem
    rcases hmem with (hmem | hmem) | hmem
    · cases (hword _ hmem).1
    · simp at hmem
    · exact hnewline hmem
  · obtain ⟨d, hd, -⟩ := hstarts
    rw [String.toList_append, String.toList_append, List.append_assoc, List.head?_append,
      Option.mem_def.mp hd] at hmark
    obtain rfl : d = ';' := Option.some.inj hmark
    exact (hword _ (List.mem_of_mem_head? hd)).2 rfl
  · rw [directive_word hne (fun d hd => (hword d hd).1) ⟨c, hc, hsolid⟩]
    cases lib.parseDate word with
    | none => rfl
    | some date => exact parseTxnHeader_eq_none hc hflag

theorem IsWord.newline_notMem {w : String} (h : IsWord w) : '\n' ∉ w.toList := fun hmem => by
  cases (h.chars _ hmem).1

theorem Skipped.openLine (h : Exportable s) {a : AccountRow} (ha : a ∈ s.accounts) :
    Skipped lib (Beancount.openLine s a) := by
  have hname := isWord_accountName h a.id
  have hcurrency := isWord_currency (h.accounts a ha).2
  have hline : Beancount.openLine s a = ((firstUse s a.id).getD (ledgerOpenDate s)).display ++ " " ++
      ("open " ++ accountName s a.id ++ " " ++ a.currency) := by
    apply String.toList_inj.mp
    simp [Beancount.openLine]
  rw [hline]
  refine .of_words (c := 'o') (NaiveDate.display_ne_empty _) (fun d hd => ?_) (by simp) rfl
    (by decide) (hcurrency.endsSolid.append _) ?_
  · refine ⟨isWhitespace_of_mem_display hd, ?_⟩
    rcases NaiveDate.mem_display hd with hdigit | rfl | rfl
    · rintro rfl
      cases hdigit
    · decide
    · decide
  · simp [hname.newline_notMem, hcurrency.newline_notMem]

theorem newline_notMem_utcTime (now : UtcTime) : '\n' ∉ now.display.toList := by
  have hdate : '\n' ∉ now.date.display.toList := fun hmem => by
    cases isWhitespace_of_mem_display hmem
  have hpad : ∀ width k, '\n' ∉ (padZero width k).toList := fun width k hmem => by
    cases isDigit_of_mem_padZero hmem
  simp [UtcTime.display, hdate, hpad]

/-- The importer passes over everything in front of the transactions. -/
theorem Skipped.preamble (h : Exportable s) (now : UtcTime) :
    ∀ l ∈ preamble s now, Skipped lib l := by
  have hbase := isWord_currency h.base_currency
  intro l hl
  simp only [Beancount.preamble, List.mem_append, List.mem_cons, List.not_mem_nil, or_false,
    List.mem_map, Relational.mem_orderBy] at hl
  rcases hl with ((((rfl | rfl | rfl | rfl | rfl | rfl) | ⟨cur, hcur, rfl⟩) | rfl) | ⟨a, ha, rfl⟩) | rfl
  · exact .comment ⟨'0', rfl, rfl⟩ (by decide) rfl
  · refine .comment (EndsSolid.append ⟨')', rfl, rfl⟩ _) ?_ (by simp)
    have hid : '\n' ∉ s.ledger.id.hyphenated.toList := fun hmem => by
      rcases Uuid.mem_hyphenated hmem with hc | hc <;> cases hc
    simp [h.name, hid]
  · refine .comment (EndsSolid.append (EndsSolid.append ⟨'Z', rfl, rfl⟩ _) _) ?_ (by simp)
    simp [newline_notMem_utcTime]
  · exact .blank
  · have hline : "option \"title\" " ++ quoted s.ledger.name =
        "option" ++ " " ++ ("\"title\" " ++ quoted s.ledger.name) := by
      apply String.toList_inj.mp
      simp
    rw [hline]
    exact .of_words (c := '"') (by decide) (forall_chars rfl) (by simp) rfl (by decide)
      ((quoted_solid _).2.append _) (by simp [newline_notMem_quoted])
  · have hline : "option \"operating_currency\" \"" ++ s.ledger.baseCurrency ++ "\"" =
        "option" ++ " " ++ ("\"operating_currency\" \"" ++ s.ledger.baseCurrency ++ "\"") := by
      apply String.toList_inj.mp
      simp
    rw [hline]
    exact .of_words (c := '"') (by decide) (forall_chars rfl) (by simp) rfl (by decide)
      (EndsSolid.append ⟨'"', rfl, rfl⟩ _) (by simp [hbase.newline_notMem])
  · have hword := isWord_currency (h.currencies cur hcur)
    have hline : "1970-01-01 commodity " ++ cur = "1970-01-01" ++ " " ++ ("commodity " ++ cur) := by
      apply String.toList_inj.mp
      simp
    rw [hline]
    exact .of_words (c := 'c') (by decide) (forall_chars rfl) (by simp) rfl (by decide)
      (hword.endsSolid.append _) (by simp [hword.newline_notMem])
  · exact .blank
  · exact .openLine h ha
  · exact .blank

/-! ## The round trip -/

/-- The snapshot is rendered, and its transactions are read back in order. -/
theorem roundTrips (hlib : lib.Lawful) (h : Exportable s) (now : UtcTime) :
    ∃ text, render s lib now = some text ∧ parse lib text = .ok (s.inOrder.map (expected s)) := by
  obtain ⟨blocks, hblocks, hall, hread⟩ := blocks_spec hlib h s.inOrder
  have hskipped : ∀ l ∈ preamble s now, Skipped lib l := Skipped.preamble h now
  refine ⟨_, by rw [render, hblocks]; rfl, ?_⟩
  have hlines : ∀ l ∈ preamble s now ++ blocks.flatten, IsLine l := by
    intro l hl
    rcases List.mem_append.mp hl with hl | hl
    · exact (hskipped l hl).isLine
    · exact hall l hl
  show parse lib (unlines (preamble s now ++ blocks.flatten)) = _
  rw [parse, lines_unlines hlines, parseLines_skipped hskipped, hread]
  rfl

end

namespace Sample

def nextDay : NaiveDate := (NaiveDate.fromYmdOpt 1970 1 2).getD default

/-- A sale on that day, with a text that has to be escaped. -/
def sale : TransactionRow where
  id := 1
  txnDate := nextDay
  description := "A \"sale\"\nof C:\\"
  payee := some ""
  createdAt := { micros := 0, micros_range := DateTime.epoch_range }

def deposit : TransactionRow where
  id := 2
  txnDate := default
  description := "Deposit"
  payee := some "Owner"
  createdAt := { micros := 0, micros_range := DateTime.epoch_range }

theorem coeff_range : |(42 : ℤ)| < 2 ^ 96 := by decide

def leg (id transaction account : Uuid) (direction : String) : PostingRow where
  id := id
  transactionId := transaction
  accountId := account
  amount := ⟨42, 0, coeff_range, Decimal.Scaled.whole_range⟩
  currency := "USD"
  direction := direction

def snapshot : LedgerSnapshot where
  ledger :=
    { id := 1, name := "Books", baseCurrency := "USD",
      createdAt := { date := default, second := 0, second_range := UtcTime.midnight_range } }
  accounts :=
    [{ id := 11, name := "Cash on Hand", type := "ASSET", currency := "USD" },
      { id := 12, name := "Sales", type := "INCOME", currency := "USD" }]
  transactions := [sale, deposit]
  postings :=
    [leg 101 1 11 "DEBIT", leg 102 1 12 "CREDIT", leg 103 2 11 "DEBIT", leg 104 2 12 "CREDIT"]
  currencies := ["USD"]

theorem snapshot_exportable : Exportable snapshot where
  name := by decide
  base_currency := ⟨by decide, by decide⟩
  currencies := by
    intro c hc
    rw [List.mem_singleton.mp hc]
    exact ⟨by decide, by decide⟩
  accounts := by
    intro a ha
    simp only [snapshot, List.mem_cons, List.not_mem_nil, or_false] at ha
    rcases ha with rfl | rfl
    · exact ⟨⟨by decide, forall_chars rfl⟩, by decide, by decide⟩
    · exact ⟨⟨by decide, forall_chars rfl⟩, by decide, by decide⟩
  postings := by
    have hvalid : ∀ (id transaction account : Uuid) (direction : String),
        direction = "DEBIT" ∨ direction = "CREDIT" →
          (leg id transaction account direction).Valid ∧ IsCurrency "USD" :=
      fun _ _ _ _ hdirection =>
        ⟨⟨by norm_num [leg, Decimal.Scaled.value], hdirection⟩, by decide, by decide⟩
    intro p hp
    simp only [snapshot, List.mem_cons, List.not_mem_nil, or_false] at hp
    rcases hp with rfl | rfl | rfl | rfl
    · exact hvalid _ _ _ _ (Or.inl rfl)
    · exact hvalid _ _ _ _ (Or.inr rfl)
    · exact hvalid _ _ _ _ (Or.inl rfl)
    · exact hvalid _ _ _ _ (Or.inr rfl)

end Sample

/-- The deposit and the sale come back in the order of their days. -/
theorem roundTrips_sale :
    ∃ text, render Sample.snapshot plainLibraries { date := default, second := 0 } = some text ∧
      parse plainLibraries text = .ok
        [{ date := default, description := "Deposit", payee := some "Owner"
           postings :=
            [{ accountName := "Cash_on_Hand", amount := 42, direction := .debit },
              { accountName := "Sales", amount := 42, direction := .credit }] },
          { date := Sample.nextDay, description := "A \"sale\"\nof C:\\"
            postings :=
              [{ accountName := "Cash_on_Hand", amount := 42, direction := .debit },
                { accountName := "Sales", amount := 42, direction := .credit }] }] := by
  obtain ⟨text, hrender, hparse⟩ := roundTrips plainLibraries_lawful Sample.snapshot_exportable
    { date := default, second := 0 }
  refine ⟨text, hrender, hparse.trans ?_⟩
  decide +kernel

end OpenAccounting.Export.Beancount
