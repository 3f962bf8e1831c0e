import OpenAccounting.Export.Filings

/-!
# What an audit file keeps

A SAF-T file is a tree of elements, which can be read in one way.  The names of the elements are
fixed, so that the values in it can be read as well: free text has entities for markup, and nothing
else has markup in it.
-/

namespace OpenAccounting.Export.SafT

open Calendar Xml

/-! ## Values -/

theorem lawful_entities : Entities entities where

theorem plain_xmlEscape (s : String) : Plain (xmlEscape s).toList := by
  rw [xmlEscape, String.toList_ofList]
  exact lawful_entities.plain_escape s.toList

theorem xmlEscape_injective : Function.Injective xmlEscape := by
  intro s s' h
  refine String.toList_injective (lawful_entities.escape_injective ?_)
  exact String.ofList_injective h

theorem plain_hyphenated (u : Uuid) : Plain u.hyphenated.toList :=
  .of_isAlphanum fun _ hc => (Uuid.mem_hyphenated hc).imp_right .inl

theorem plain_date (d : NaiveDate) : Plain d.display.toList := by
  refine .of_isAlphanum fun c hc => ?_
  rcases NaiveDate.mem_display hc with h | h | h
  · exact .inl (RustStr.isAlphanum_of_isDigit h)
  · exact .inr (.inl h)
  · exact .inr (.inr (.inl h))

theorem plain_amount {dec : Decimal.Text} (hdec : dec.Lawful) (x : Decimal.Scaled) :
    Plain (dec.display x).toList := .of_isAlphanum fun _ => hdec.mem_display

theorem plain_direction {d : String} (h : d = "DEBIT" ∨ d = "CREDIT") : Plain d.toList := by
  rcases h with rfl | rfl <;> decide

/-! ## Trees -/

/-- A line with a value. -/
abbrev fieldTree (indent : String) (name : TagName) (value : String) :
    Forest TagName → Forest TagName :=
  leaf ['\n'] indent.toList name {} value.toList

/-- Lines in an element. -/
abbrev elementTree (indent : String) (name : TagName)
    (children : Forest TagName → Forest TagName) : Forest TagName → Forest TagName :=
  block ['\n'] indent.toList name {} children

section

variable {indent name value inner : String} {n : TagName} {k : Forest TagName → Forest TagName}

theorem writes_field (hindent : Plain indent.toList) (hname : name.toList = n.chars)
    (hvalue : Plain value.toList) :
    Writes TagName.chars ['\n'] (field indent name value).toList (fieldTree indent n value) := by
  have h : Writes TagName.chars ['\n'] _ (fieldTree indent n value) :=
    .leaf (by decide) hindent n {} hvalue
  simpa [field, hname] using h

theorem writes_element (hindent : Plain indent.toList) (hname : name.toList = n.chars)
    (hinner : Writes TagName.chars ['\n'] inner.toList k) :
    Writes TagName.chars ['\n'] (element indent name inner).toList (elementTree indent n k) := by
  have h := Writes.block (by decide) hindent n {} hinner
  simpa [element, hname] using h

end

def accountTree (a : AccountRow) : Forest TagName → Forest TagName :=
  elementTree "    " (tag "Account") fun next =>
    fieldTree "      " (tag "Id") a.id.hyphenated <|
    fieldTree "      " (tag "Name") (xmlEscape a.name) <|
    fieldTree "      " (tag "Type") (xmlEscape a.type) <|
    fieldTree "      " (tag "Currency") (xmlEscape a.currency) next

theorem writes_account (a : AccountRow) :
    Writes TagName.chars ['\n'] (account a).toList (accountTree a) := by
  rw [account, accountTree]
  refine writes_element (by decide) rfl fun next rest hnext => ?_
  simp only [String.toList_append, List.append_assoc]
  exact writes_field (by decide) rfl (plain_hyphenated _) _ _ <|
    writes_field (by decide) rfl (plain_xmlEscape _) _ _ <|
    writes_field (by decide) rfl (plain_xmlEscape _) _ _ <|
    writes_field (by decide) rfl (plain_xmlEscape _) _ _ hnext

theorem of_xmlEscape_inj {s s' : String}
    (h : Text.of (xmlEscape s).toList = Text.of (xmlEscape s').toList) : s = s' :=
  xmlEscape_injective (String.toList_injective ((plain_xmlEscape s).of_inj (plain_xmlEscape s') h))

theorem of_hyphenated_inj {u u' : Uuid}
    (h : Text.of u.hyphenated.toList = Text.of u'.hyphenated.toList) : u = u' :=
  Uuid.hyphenated_injective
    (String.toList_injective ((plain_hyphenated u).of_inj (plain_hyphenated u') h))

theorem of_date_inj {d d' : NaiveDate}
    (h : Text.of d.display.toList = Text.of d'.display.toList) : d = d' :=
  NaiveDate.display_injective (String.toList_injective ((plain_date d).of_inj (plain_date d') h))

theorem of_amount_inj {dec : Decimal.Text} (hdec : dec.Lawful) {x x' : Decimal.Scaled}
    (h : Text.of (dec.display x).toList = Text.of (dec.display x').toList) : x.value = x'.value :=
  hdec.value_eq (String.toList_injective ((plain_amount hdec x).of_inj (plain_amount hdec x') h))

theorem accountTree_inj {a a' : AccountRow} {next next' : Forest TagName}
    (h : accountTree a next = accountTree a' next') :
    (a.id, a.name, a.type, a.currency) = (a'.id, a'.name, a'.type, a'.currency) ∧ next = next' := by
  simp only [accountTree, block, leaf, Forest.element.injEq, Forest.last.injEq, true_and, and_true]
    at h
  obtain ⟨⟨hid, hname, htype, hcurrency⟩, hnext⟩ := h
  rw [of_hyphenated_inj hid, of_xmlEscape_inj hname, of_xmlEscape_inj htype,
    of_xmlEscape_inj hcurrency]
  exact ⟨rfl, hnext⟩

section

variable {dec : Decimal.Text} {s s' : LedgerSnapshot}

/-- Each posting is a debit or a credit. -/
def Directed (s : LedgerSnapshot) : Prop :=
  ∀ p ∈ s.postings, p.direction = "DEBIT" ∨ p.direction = "CREDIT"

def postingTree (dec : Decimal.Text) (p : PostingRow) : Forest TagName → Forest TagName :=
  elementTree "        " (tag "Posting") fun next =>
    fieldTree "          " (tag "AccountId") p.accountId.hyphenated <|
    fieldTree "          " (tag "Direction") p.direction <|
    fieldTree "          " (tag "Amount") (dec.display p.amount) next

theorem writes_posting (hdec : dec.Lawful) {p : PostingRow}
    (hp : p.direction = "DEBIT" ∨ p.direction = "CREDIT") :
    Writes TagName.chars ['\n'] (posting dec p).toList (postingTree dec p) := by
  rw [posting, postingTree]
  refine writes_element (by decide) rfl fun next rest hnext => ?_
  simp only [String.toList_append, List.append_assoc]
  exact writes_field (by decide) rfl (plain_hyphenated _) _ _ <|
    writes_field (by decide) rfl (plain_direction hp) _ _ <|
    writes_field (by decide) rfl (plain_amount hdec _) _ _ hnext

theorem postingTree_inj (hdec : dec.Lawful) {p p' : PostingRow} {next next' : Forest TagName}
    (hp : p.direction = "DEBIT" ∨ p.direction = "CREDIT")
    (hp' : p'.direction = "DEBIT" ∨ p'.direction = "CREDIT")
    (h : postingTree dec p next = postingTree dec p' next') :
    (p.accountId, p.direction, p.amount.value) = (p'.accountId, p'.direction, p'.amount.value) ∧
      next = next' := by
  simp only [postingTree, block, leaf, Forest.element.injEq, Forest.last.injEq, true_and, and_true]
    at h
  obtain ⟨⟨haccount, hdirection, hamount⟩, hnext⟩ := h
  have hdirections := (plain_direction hp).of_inj (plain_direction hp') hdirection
  rw [of_hyphenated_inj haccount, String.toList_injective hdirections, of_amount_inj hdec hamount]
  exact ⟨rfl, hnext⟩

def transactionTree (dec : Decimal.Text) (s : LedgerSnapshot) (t : TransactionRow) :
    Forest TagName → Forest TagName :=
  elementTree "    " (tag "Transaction") fun next =>
    fieldTree "      " (tag "Id") t.id.hyphenated <|
    fieldTree "      " (tag "Date") t.txnDate.display <|
    fieldTree "      " (tag "Description") (xmlEscape t.description) <|
    elementTree "      " (tag "Postings")
      (fun last => (s.postingsOf t).foldr (postingTree dec) last) next

theorem Directed.of_mem (h : Directed s) {t : TransactionRow} {p : PostingRow}
    (hp : p ∈ s.postingsOf t) : p.direction = "DEBIT" ∨ p.direction = "CREDIT" :=
  h p (List.mem_of_mem_filter hp)

theorem writes_transaction (hdec : dec.Lawful) (hs : Directed s) (t : TransactionRow) :
    Writes TagName.chars ['\n'] (transaction dec s t).toList (transactionTree dec s t) := by
  have hpostings : Writes TagName.chars ['\n']
      (String.join ((s.postingsOf t).map (posting dec))).toList
      fun last => (s.postingsOf t).foldr (postingTree dec) last := by
    rw [String.toList_join, List.flatMap_map]
    exact .flatMap fun p hp => writes_posting hdec (hs.of_mem hp)
  rw [transaction, transactionTree]
  refine writes_element (by decide) rfl fun next rest hnext => ?_
  simp only [String.toList_append, List.append_assoc]
  exact writes_field (by decide) rfl (plain_hyphenated _) _ _ <|
    writes_field (by decide) rfl (plain_date _) _ _ <|
    writes_field (by decide) rfl (plain_xmlEscape _) _ _ <|
    writes_element (by decide) rfl hpostings _ _ hnext

def kept (s : LedgerSnapshot) (t : TransactionRow) :
    Uuid × NaiveDate × String × List (Uuid × String × ℚ) :=
  (t.id, t.txnDate, t.description,
    (s.postingsOf t).map fun p => (p.accountId, p.direction, p.amount.value))

theorem transactionTree_inj (hdec : dec.Lawful) (hs : Directed s) (hs' : Directed s')
    {t t' : TransactionRow} {next next' : Forest TagName}
    (h : transactionTree dec s t next = transactionTree dec s' t' next') :
    kept s t = kept s' t' ∧ next = next' := by
  simp only [transactionTree, block, leaf, Forest.element.injEq, Forest.last.injEq, true_and,
    and_true] at h
  obtain ⟨⟨hid, hdate, hdescription, hpostings⟩, hnext⟩ := h
  have hne : ∀ t p f, postingTree dec p f ≠ .last t := fun t p f => by simp [postingTree, block]
  obtain ⟨hkept, -⟩ := foldr_inj hpostings
    (fun p hp p' hp' _ _ heq => postingTree_inj hdec (hs.of_mem hp) (hs'.of_mem hp') heq) (hne _)
    (hne _)
  rw [kept, kept, of_hyphenated_inj hid, of_date_inj hdate, of_xmlEscape_inj hdescription, hkept]
  exact ⟨rfl, hnext⟩

def headerTree (l : LedgerMeta) (start stop : NaiveDate) : Forest TagName → Forest TagName :=
  elementTree "  " (tag "Header") fun next =>
    fieldTree "    " (tag "CompanyName") (xmlEscape l.name) <|
    fieldTree "    " (tag "CurrencyCode") (xmlEscape l.baseCurrency) <|
    fieldTree "    " (tag "FromDate") start.display <|
    fieldTree "    " (tag "ToDate") stop.display next

theorem writes_header (l : LedgerMeta) (start stop : NaiveDate) :
    Writes TagName.chars ['\n'] (header l start stop).toList (headerTree l start stop) := by
  rw [header, headerTree]
  refine writes_element (by decide) rfl fun next rest hnext => ?_
  simp only [String.toList_append, List.append_assoc]
  exact writes_field (by decide) rfl (plain_xmlEscape _) _ _ <|
    writes_field (by decide) rfl (plain_xmlEscape _) _ _ <|
    writes_field (by decide) rfl (plain_date _) _ _ <|
    writes_field (by decide) rfl (plain_date _) _ _ hnext

/-! ## Files -/

def rootTree (dec : Decimal.Text) (s : LedgerSnapshot) (start stop : NaiveDate)
    (next : Forest TagName) : Forest TagName :=
  headerTree s.ledger start stop <|
  elementTree "  " (tag "ChartOfAccounts") (fun last => s.accounts.foldr accountTree last) <|
  elementTree "  " (tag "GeneralLedgerEntries")
    (fun last => (inPeriod s start stop).foldr (transactionTree dec s) last) next

/-- `<?xml ?>`. -/
def instructionBody : Text where
  chars := "xml version=\"1.0\" encoding=\"UTF-8\"".toList

def rootAttributes : Attributes where
  chars := " xmlns=\"urn:OpenAccounting:SAF-Tlite\"".toList

def auditFile (dec : Decimal.Text) (s : LedgerSnapshot) (start stop : NaiveDate) : Forest TagName :=
  .instruction (Text.of []) instructionBody <|
    block ['\n'] [] (tag "AuditFile") rootAttributes (rootTree dec s start stop)
      (.last (Text.of ['\n']))

theorem toList_prolog : prolog.toList =
    '<' :: '?' :: (instructionBody.chars ++ ['?', '>', '\n']) := by
  have hbody : instructionBody.chars = _ := toList_literal
  rw [hbody, prolog, toList_literal]
  rfl

theorem toList_rootOpen : rootOpen.toList =
    '<' :: ((tag "AuditFile").chars ++ (rootAttributes.chars ++ ['>', '\n'])) := by
  have hname : (tag "AuditFile").chars = _ := toList_literal
  have hattributes : rootAttributes.chars = _ := toList_literal
  rw [hname, hattributes, rootOpen, toList_literal]
  rfl

theorem toList_rootClose : rootClose.toList =
    '<' :: '/' :: ((tag "AuditFile").chars ++ ['>', '\n']) := rfl

/-- What `render` writes is the tree of the file. -/
theorem render_eq_auditFile (hdec : dec.Lawful) (hs : Directed s) (start stop : NaiveDate) :
    (render dec s start stop).toList = (auditFile dec s start stop).render TagName.chars := by
  have haccounts : Writes TagName.chars ['\n'] (String.join (s.accounts.map account)).toList
      fun last => s.accounts.foldr accountTree last := by
    rw [String.toList_join, List.flatMap_map]
    exact .flatMap fun a _ => writes_account a
  have htransactions : Writes TagName.chars ['\n']
      (String.join ((inPeriod s start stop).map (transaction dec s))).toList
      fun last => (inPeriod s start stop).foldr (transactionTree dec s) last := by
    rw [String.toList_join, List.flatMap_map]
    exact .flatMap fun t _ => writes_transaction hdec hs t
  have hroot : Writes TagName.chars ['\n'] ((header s.ledger start stop).toList ++
      ((element "  " "ChartOfAccounts" (String.join (s.accounts.map account))).toList ++
        (element "  " "GeneralLedgerEntries"
          (String.join ((inPeriod s start stop).map (transaction dec s)))).toList))
      (rootTree dec s start stop) := by
    intro next rest hnext
    simp only [List.append_assoc]
    exact writes_header _ _ _ _ _ <| writes_element (by decide) rfl haccounts _ _ <|
      writes_element (by decide) rfl htransactions _ _ hnext
  have hblock := Writes.block (by decide) (by decide : Plain []) (tag "AuditFile")
    rootAttributes hroot (.last (Text.of ['\n'])) [] rfl
  have htree : (auditFile dec s start stop).render TagName.chars = '<' :: '?' ::
      (instructionBody.chars ++ '?' :: '>' :: (['\n'] ++ _)) :=
    congrArg (fun cs => '<' :: '?' :: (instructionBody.chars ++ '?' :: '>' :: cs)) hblock
  rw [htree]
  simp only [render, String.toList_append, toList_prolog, toList_rootOpen, toList_rootClose,
    List.append_assoc, List.cons_append, List.nil_append, List.append_nil]

theorem auditFile_inj (hdec : dec.Lawful) (hs : Directed s) (hs' : Directed s')
    {start stop start' stop' : NaiveDate}
    (h : auditFile dec s start stop = auditFile dec s' start' stop') :
    (s.ledger.name, s.ledger.baseCurrency, start, stop) =
        (s'.ledger.name, s'.ledger.baseCurrency, start', stop') ∧
      (s.accounts.map fun a => (a.id, a.name, a.type, a.currency)) =
        (s'.accounts.map fun a => (a.id, a.name, a.type, a.currency)) ∧
      (inPeriod s start stop).map (kept s) = (inPeriod s' start' stop').map (kept s') := by
  simp only [auditFile, rootTree, headerTree, block, leaf, Forest.instruction.injEq,
    Forest.element.injEq, Forest.last.injEq, true_and, and_true] at h
  obtain ⟨⟨hname, hcurrency, hstart, hstop⟩, haccounts, htransactions⟩ := h
  refine ⟨?_, ?_, ?_⟩
  · rw [of_xmlEscape_inj hname, of_xmlEscape_inj hcurrency, of_date_inj hstart, of_date_inj hstop]
  · have hne : ∀ t a f, accountTree a f ≠ .last t := fun t a f => by simp [accountTree, block]
    exact (foldr_inj haccounts (fun a _ a' _ _ _ heq => accountTree_inj heq) (hne _) (hne _)).1
  · have hne : ∀ s text t f, transactionTree dec s t f ≠ .last text :=
      fun s text t f => by simp [transactionTree, block]
    exact (foldr_inj htransactions (fun t _ t' _ _ _ heq => transactionTree_inj hdec hs hs' heq)
      (hne s _) (hne s' _)).1

/-- Two ledgers with one file have one name, one currency, the same accounts and the same
transactions in the period, and the file is about one period. -/
theorem render_lossless (hdec : dec.Lawful) (hs : Directed s) (hs' : Directed s')
    {start stop start' stop' : NaiveDate}
    (h : render dec s start stop = render dec s' start' stop') :
    (s.ledger.name, s.ledger.baseCurrency, start, stop) =
        (s'.ledger.name, s'.ledger.baseCurrency, start', stop') ∧
      (s.accounts.map fun a => (a.id, a.name, a.type, a.currency)) =
        (s'.accounts.map fun a => (a.id, a.name, a.type, a.currency)) ∧
      (inPeriod s start stop).map (kept s) = (inPeriod s' start' stop').map (kept s') := by
  have htexts := congrArg String.toList h
  rw [render_eq_auditFile hdec hs, render_eq_auditFile hdec hs'] at htexts
  exact auditFile_inj hdec hs hs' (Forest.render_injective TagName.spelling htexts)

end

namespace Sample

/-- A sale with markup in its text. -/
def sale : TransactionRow where
  id := 1
  txnDate := default
  description := "<Id>1</Id> & \"2\""
  createdAt := { micros := 0 }

def ledger (payee : Option String) : LedgerSnapshot where
  ledger :=
    { id := 1, name := "A & B", baseCurrency := "USD",
      createdAt := { date := default, second := 0 } }
  accounts := [{ id := 11, name := "Cash", type := "ASSET", currency := "USD" }]
  transactions := [{ sale with payee := payee }]
  postings :=
    [{ id := 101, transactionId := 1, accountId := 11, amount := { coeff := 4250, scale := 2 },
       currency := "USD", direction := "DEBIT" }]
  currencies := ["USD"]

theorem directed_ledger (payee : Option String) : Directed (ledger payee) := by
  intro p hp
  rw [List.mem_singleton.mp hp]
  exact .inl rfl

end Sample

/-- The payee is not kept, and everything else is. -/
theorem render_lossless_ledger :
    (Sample.ledger (some "ACME")).ledger.name = (Sample.ledger none).ledger.name ∧
      (inPeriod (Sample.ledger (some "ACME")) default default).map
          (kept (Sample.ledger (some "ACME"))) =
        (inPeriod (Sample.ledger none) default default).map (kept (Sample.ledger none)) := by
  have htext : render Decimal.plain (Sample.ledger (some "ACME")) default default =
      render Decimal.plain (Sample.ledger none) default default := rfl
  have h := render_lossless Decimal.plain_lawful (Sample.directed_ledger (some "ACME"))
    (Sample.directed_ledger none) htext
  exact ⟨congrArg Prod.fst h.1, h.2.2⟩

end OpenAccounting.Export.SafT
