import OpenAccounting.System.AuditFiles

/-!
# XBRL instances as XML

The tags of an instance match and nest, whatever the ledger is, so the text is that of one tree.
The tree of an instance with an account or an entry is not well-formed: the prefix `gl` of these
elements is declared nowhere, and the `id` of an account has no closing quote.
-/

namespace OpenAccounting.Export.Xbrl

open Calendar Xml
open SafT (field fieldTree inPeriod instructionBody plain_amount plain_date plain_hyphenated
  plain_xmlEscape prolog toList_prolog writes_field xmlEscape)

/-! ## Elements with attributes -/

abbrev lineTree (indent : String) (name : TagName) (a : Attributes) (children : Forest TagName) :
    Forest TagName → Forest TagName :=
  .element (Text.of ('\n' :: indent.toList)) name a children

abbrev elementTree (indent : String) (name : TagName) (a : Attributes)
    (children : Forest TagName → Forest TagName) : Forest TagName → Forest TagName :=
  block ['\n'] indent.toList name a children

section

variable {indent name attributes value inner : String} {n : TagName} {a : Attributes}
  {children : Forest TagName} {k : Forest TagName → Forest TagName}

theorem render_inline (hname : name.toList = n.chars) (ha : attributes.toList = a.chars)
    (hvalue : children.render TagName.chars = value.toList) :
    (Forest.element (Text.of []) n a children (.last (Text.of []))).render TagName.chars =
      (inline name attributes value).toList := by
  simp [inline, Forest.render, Text.of, hname, ha, hvalue]

theorem writes_line (hindent : Plain indent.toList) (hname : name.toList = n.chars)
    (ha : attributes.toList = a.chars) (hvalue : children.render TagName.chars = value.toList) :
    Writes TagName.chars ['\n'] (line indent name attributes value).toList
      (lineTree indent n a children) := by
  have h : Writes TagName.chars ['\n'] _ (lineTree indent n a children) :=
    .around (by decide) hindent n a hvalue
  simpa [line, inline, hname, ha] using h

theorem writes_element (hindent : Plain indent.toList) (hname : name.toList = n.chars)
    (ha : attributes.toList = a.chars) (hinner : Writes TagName.chars ['\n'] inner.toList k) :
    Writes TagName.chars ['\n'] (element indent name attributes inner).toList
      (elementTree indent n a k) := by
  have h : Writes TagName.chars ['\n'] _ (elementTree indent n a k) :=
    .block (by decide) hindent n a hinner
  simpa [element, hname, ha] using h

end

/-! ## Attributes -/

/-- Attributes behind a space, without markup and slashes. -/
def spaced (cs : List Char) (h : ∀ c ∈ cs, c ≠ '<' ∧ c ≠ '>' ∧ c ≠ '/') : Attributes where
  chars := ' ' :: cs
  plain c hc := by
    rcases List.mem_cons.mp hc with rfl | hc
    · decide
    · exact ⟨(h c hc).1, (h c hc).2.1⟩
  separated := by
    intro c hc
    cases hc
    rfl
  unclosed hlast := by
    rcases List.mem_cons.mp (List.mem_of_getLast? hlast) with heq | hc
    · cases heq
    · exact (h _ hc).2.2 rfl

theorem solid_hyphenated (u : Uuid) : ∀ c ∈ u.hyphenated.toList, c ≠ '<' ∧ c ≠ '>' ∧ c ≠ '/' := by
  intro c hc
  rcases Uuid.mem_hyphenated hc with h | rfl
  · refine ⟨?_, ?_, ?_⟩ <;> rintro rfl <;> cases h
  · decide

def accountAttributes (u : Uuid) : Attributes :=
  spaced ("id=\"acc-".toList ++ u.hyphenated.toList)
    (List.forall_mem_append.mpr ⟨by decide, solid_hyphenated u⟩)

def entryAttributes (u : Uuid) : Attributes :=
  spaced ("id=\"p-".toList ++ (u.hyphenated.toList ++ ['"']))
    (List.forall_mem_append.mpr ⟨by decide, List.forall_mem_append.mpr
      ⟨solid_hyphenated u, by decide⟩⟩)

theorem accountAttributes_unquoted (u : Uuid) :
    attributesFrom .closed (accountAttributes u).chars = none := by
  have hquote : '"' ∉ ['a', 'c', 'c', '-'] ++ u.hyphenated.toList := by
    rw [List.mem_append, not_or]
    refine ⟨by decide, fun hc => ?_⟩
    rcases Uuid.mem_hyphenated hc with h | h <;> cases h
  have hstart : ∀ ds, attributesFrom .closed (' ' :: 'i' :: 'd' :: '=' :: '"' :: ds) =
      attributesFrom (.value ['d', 'i'] '"') ds := fun ds => rfl
  exact (hstart _).trans (attributesFrom_value hquote)

theorem exists_attributes {text : String} {names : List (List Char)} {cs : List Char} {d : Char}
    (h : text.toList = cs) (hplain : cs.all (fun c => c ≠ '<' ∧ c ≠ '>') = true)
    (hhead : cs.head?.all RustStr.isWhitespace = true) (hlast : cs.getLast? = some d)
    (hd : d ≠ '/') (hnames : attributesFrom .closed cs = some names) :
    ∃ a : Attributes, text.toList = a.chars ∧ attributesFrom .closed a.chars = some names := by
  have hchars : ∀ c ∈ cs, c ≠ '<' ∧ c ≠ '>' := by simpa using hplain
  have hseparated : ∀ c ∈ cs.head?, RustStr.isWhitespace c = true := by
    intro c hc
    rw [Option.mem_def.mp hc] at hhead
    exact hhead
  have hunclosed : cs.getLast? ≠ some '/' := hlast ▸ mt Option.some.inj hd
  exact ⟨⟨cs, hchars, hseparated, hunclosed⟩, h, hnames⟩

/-- The names that the root declares. -/
def declared : List (List Char) :=
  ["xmlns".toList, declaration "xbrli".toList, declaration "link".toList,
    declaration "xlink".toList]

set_option maxRecDepth 2000 in
theorem exists_rootAttributes : ∃ a : Attributes,
    rootAttributes.toList = a.chars ∧ attributesFrom .closed a.chars = some declared := by
  have h : rootAttributes.toList = _ := String.toList_join
  rw [List.flatMap_cons, List.flatMap_cons, List.flatMap_cons, List.flatMap_cons,
    List.flatMap_nil] at h
  -- The literals are spelled out first, which is faster than to decode them.
  refine exists_attributes h ?_ ?_ ?_ (by decide : '"' ≠ '/') ?_
  · rw [toList_literal, toList_literal, toList_literal, toList_literal]
    rfl
  · rfl
  · rw [toList_literal, toList_literal, toList_literal, toList_literal]
    rfl
  · rw [toList_literal, toList_literal, toList_literal, toList_literal]
    rfl

/-! ## The tree -/

def entityTree (l : LedgerMeta) : Forest TagName → Forest TagName :=
  lineTree "    " (tag "entity") {}
    (.element (Text.of []) (tag "identifier")
      (spaced "scheme=\"www.openaccounting.local\"".toList (by decide))
      (.last (Text.of l.id.hyphenated.toList)) (.last (Text.of [])))

def contextTree (l : LedgerMeta) (start stop : NaiveDate) : Forest TagName → Forest TagName :=
  elementTree "  " (tag "context") (spaced "id=\"period\"".toList (by decide)) fun next =>
    entityTree l <|
    elementTree "    " (tag "period") {} (fun next =>
      fieldTree "      " (tag "startDate") start.display <|
      fieldTree "      " (tag "endDate") stop.display next) next

def unitTree : Forest TagName → Forest TagName :=
  lineTree "  " (tag "unit") (spaced "id=\"EUR\"".toList (by decide))
    (.element (Text.of []) (tag "measure") {} (.last (Text.of "iso4217:USD".toList))
      (.last (Text.of [])))

def accountTree (a : AccountRow) : Forest TagName → Forest TagName :=
  elementTree "  " (tag "gl:account") (accountAttributes a.id) fun next =>
    fieldTree "    " (tag "gl:accountCode") a.id.hyphenated <|
    fieldTree "    " (tag "gl:accountName") (xmlEscape a.name) <|
    fieldTree "    " (tag "gl:accountType") (xmlEscape a.type) next

variable (dec : Decimal.Text)

def amountTree (p : PostingRow) : Forest TagName → Forest TagName :=
  lineTree "    " (tag "gl:amount")
    (spaced "contextRef=\"period\" unitRef=\"EUR\" decimals=\"2\"".toList (by decide))
    (.last (Text.of (dec.display p.amount).toList))

def entryTree (t : TransactionRow) (p : PostingRow) : Forest TagName → Forest TagName :=
  elementTree "  " (tag "gl:entry") (entryAttributes p.id) fun next =>
    fieldTree "    " (tag "gl:date") t.txnDate.display <|
    fieldTree "    " (tag "gl:description") (xmlEscape t.description) <|
    amountTree dec p next

variable (s : LedgerSnapshot)

def entriesTree (t : TransactionRow) (next : Forest TagName) : Forest TagName :=
  (s.postingsOf t).foldr (entryTree dec t) next

def instanceTree (root : Attributes) (start stop : NaiveDate) : Forest TagName :=
  .instruction (Text.of []) instructionBody <|
    elementTree "" (tag "xbrl") root (fun next =>
      contextTree s.ledger start stop <| unitTree <| s.accounts.foldr accountTree <|
        (inPeriod s start stop).foldr (entriesTree dec s) next) (.last (Text.of ['\n']))

variable {dec s}

theorem writes_entity (l : LedgerMeta) :
    Writes TagName.chars ['\n'] (line "    " "entity" "" (inline "identifier"
      " scheme=\"www.openaccounting.local\"" l.id.hyphenated)).toList (entityTree l) :=
  writes_line (by decide) rfl rfl (render_inline rfl rfl (plain_hyphenated _).chars_of)

theorem writes_context (l : LedgerMeta) (start stop : NaiveDate) :
    Writes TagName.chars ['\n'] (context l start stop).toList (contextTree l start stop) := by
  rw [context, contextTree]
  refine writes_element (by decide) rfl rfl fun next rest hnext => ?_
  simp only [String.toList_append, List.append_assoc]
  refine writes_entity l _ _ <|
    writes_element (by decide) rfl rfl (fun next rest hnext => ?_) _ _ hnext
  simp only [String.toList_append, List.append_assoc]
  exact writes_field (by decide) rfl (plain_date _) _ _ <|
    writes_field (by decide) rfl (plain_date _) _ _ hnext

theorem writes_unit : Writes TagName.chars ['\n'] unit.toList unitTree :=
  writes_line (by decide) rfl rfl (render_inline rfl rfl rfl)

theorem writes_account (a : AccountRow) :
    Writes TagName.chars ['\n'] (account a).toList (accountTree a) := by
  rw [account, accountTree]
  refine writes_element (by decide) rfl ?_ fun next rest hnext => ?_
  · rw [String.toList_append]
    rfl
  · simp only [String.toList_append, List.append_assoc]
    exact writes_field (by decide) rfl (plain_hyphenated _) _ _ <|
      writes_field (by decide) rfl (plain_xmlEscape _) _ _ <|
      writes_field (by decide) rfl (plain_xmlEscape _) _ _ hnext

theorem writes_amount (hdec : dec.Lawful) (p : PostingRow) :
    Writes TagName.chars ['\n'] (line "    " "gl:amount"
      " contextRef=\"period\" unitRef=\"EUR\" decimals=\"2\"" (dec.display p.amount)).toList
      (amountTree dec p) :=
  writes_line (by decide) rfl rfl (plain_amount hdec p.amount).chars_of

theorem writes_entry (hdec : dec.Lawful) (t : TransactionRow) (p : PostingRow) :
    Writes TagName.chars ['\n'] (entry dec t p).toList (entryTree dec t p) := by
  rw [entry, entryTree]
  refine writes_element (by decide) rfl ?_ fun next rest hnext => ?_
  · simp only [String.toList_append, List.append_assoc]
    rfl
  · simp only [String.toList_append, List.append_assoc]
    exact writes_field (by decide) rfl (plain_date _) _ _ <|
      writes_field (by decide) rfl (plain_xmlEscape _) _ _ <|
      writes_amount hdec p _ _ hnext

theorem writes_entries (hdec : dec.Lawful) (t : TransactionRow) :
    Writes TagName.chars ['\n'] (entries dec s t).toList (entriesTree dec s t) := by
  rw [entries, String.toList_join, List.flatMap_map]
  exact .flatMap fun p _ => writes_entry hdec t p

variable {root : Attributes} {start stop : NaiveDate}

/-- What `render` writes is the tree of the instance. -/
theorem render_eq_instanceTree (hdec : dec.Lawful) (hroot : rootAttributes.toList = root.chars) :
    (render dec s start stop).toList =
      (instanceTree dec s root start stop).render TagName.chars := by
  have haccounts : Writes TagName.chars ['\n'] (String.join (s.accounts.map account)).toList
      fun next => s.accounts.foldr accountTree next := by
    rw [String.toList_join, List.flatMap_map]
    exact .flatMap fun a _ => writes_account a
  have hentries : Writes TagName.chars ['\n']
      (String.join ((inPeriod s start stop).map (entries dec s))).toList
      fun next => (inPeriod s start stop).foldr (entriesTree dec s) next := by
    rw [String.toList_join, List.flatMap_map]
    exact .flatMap fun t _ => writes_entries hdec t
  have hinner : Writes TagName.chars ['\n'] (context s.ledger start stop ++ unit ++
      String.join (s.accounts.map account) ++
        String.join ((inPeriod s start stop).map (entries dec s))).toList
      fun next => contextTree s.ledger start stop <| unitTree <| s.accounts.foldr accountTree <|
        (inPeriod s start stop).foldr (entriesTree dec s) next := by
    intro next rest hnext
    simp only [String.toList_append, List.append_assoc]
    exact writes_context _ _ _ _ _ <| writes_unit _ _ <| haccounts _ _ <| hentries _ _ hnext
  have helement : Writes TagName.chars ['\n'] (element "" "xbrl" rootAttributes _).toList
      (elementTree "" (tag "xbrl") root _) := writes_element (by decide) rfl hroot hinner
  have hblock := helement (.last (Text.of ['\n'])) [] rfl
  have htree : (instanceTree dec s root start stop).render TagName.chars = '<' :: '?' ::
      (instructionBody.chars ++ '?' :: '>' :: (['\n'] ++ _)) :=
    congrArg (fun cs => '<' :: '?' :: (instructionBody.chars ++ '?' :: '>' :: cs)) hblock
  rw [htree, render, String.toList_append, toList_prolog, List.append_nil]
  simp only [List.append_assoc, List.cons_append, List.nil_append]

/-! ## Where it is well-formed -/

/-- The tags that are in every instance. -/
def fixedTags : List (TagName × Attributes) :=
  [(tag "context", spaced "id=\"period\"".toList (by decide)), (tag "entity", {}),
    (tag "identifier", spaced "scheme=\"www.openaccounting.local\"".toList (by decide)),
    (tag "period", {}), (tag "startDate", {}), (tag "endDate", {}),
    (tag "unit", spaced "id=\"EUR\"".toList (by decide)), (tag "measure", {})]

/-- What is in front of the last tag of the root. -/
def rows (dec : Decimal.Text) (s : LedgerSnapshot) (start stop : NaiveDate) : Forest TagName :=
  s.accounts.foldr accountTree
    ((inPeriod s start stop).foldr (entriesTree dec s) (.last (Text.of ['\n'])))

theorem tags_instanceTree : (instanceTree dec s root start stop).tags =
    (tag "xbrl", root) :: (fixedTags ++ (rows dec s start stop).tags) := by
  have hlast : (instanceTree dec s root start stop).tags =
      (tag "xbrl", root) :: ((fixedTags ++ (rows dec s start stop).tags) ++ []) := rfl
  rw [hlast, List.append_nil]

theorem quoted_fixedTags : ∀ t ∈ fixedTags, (attributesFrom .closed t.2.chars).isSome ∧
    ∀ space ∈ t.1.space, declaration space ∈ declared := by
  decide

theorem mem_accountTree {a : AccountRow} (ha : a ∈ s.accounts) :
    (tag "gl:account", accountAttributes a.id) ∈ (rows dec s start stop).tags :=
  Forest.mem_tags_foldr ha (fun _ => List.mem_cons_self)
    (fun _ _ ht => List.mem_cons_of_mem _ (List.mem_append_right _ ht)) _

theorem mem_entryTree {t : TransactionRow} {p : PostingRow} (ht : t ∈ inPeriod s start stop)
    (hp : p ∈ s.postingsOf t) :
    (tag "gl:entry", entryAttributes p.id) ∈ (rows dec s start stop).tags := by
  have hkeep : ∀ (n : TagName × Attributes) (u : TransactionRow) (f : Forest TagName),
      n ∈ f.tags → n ∈ (entriesTree dec s u f).tags := by
    intro n u f hn
    rw [entriesTree]
    induction s.postingsOf u with
    | nil => exact hn
    | cons q qs ih => exact List.mem_cons_of_mem _ (List.mem_append_right _ ih)
  have hentries : (tag "gl:entry", entryAttributes p.id) ∈ ((inPeriod s start stop).foldr
      (entriesTree dec s) (.last (Text.of ['\n']))).tags :=
    Forest.mem_tags_foldr ht (fun f => Forest.mem_tags_foldr hp (fun _ => List.mem_cons_self)
      (fun _ _ hn => List.mem_cons_of_mem _ (List.mem_append_right _ hn)) f) (hkeep _) _
  rw [rows]
  induction s.accounts with
  | nil => exact hentries
  | cons a as ih => exact List.mem_cons_of_mem _ (List.mem_append_right _ ih)

theorem foldr_entriesTree {ts : List TransactionRow} (h : ∀ t ∈ ts, s.postingsOf t = [])
    (next : Forest TagName) : ts.foldr (entriesTree dec s) next = next := by
  induction ts with
  | nil => rfl
  | cons t ts ih =>
    obtain ⟨ht, hts⟩ := List.forall_mem_cons.mp h
    rw [List.foldr_cons, ih hts, entriesTree, ht, List.foldr_nil]

/-- An instance is well-formed exactly if no account and no posting is in it. -/
theorem wellFormed_iff (hroot : attributesFrom .closed root.chars = some declared) :
    (instanceTree dec s root start stop).WellFormed ↔
      s.accounts = [] ∧ ∀ t ∈ inPeriod s start stop, s.postingsOf t = [] := by
  constructor
  · rintro ⟨n, a, names, hroots, hnames, htags⟩
    have hone : (instanceTree dec s root start stop).roots = [(tag "xbrl", root)] := rfl
    obtain ⟨rfl, rfl⟩ := Prod.mk.inj (List.cons.inj (hone.symm.trans hroots)).1
    obtain rfl := Option.some.inj (hroot.symm.trans hnames)
    rw [tags_instanceTree, List.forall_mem_cons, List.forall_mem_append] at htags
    refine ⟨List.eq_nil_iff_forall_not_mem.mpr fun a ha => ?_,
      fun t ht => List.eq_nil_iff_forall_not_mem.mpr fun p hp => ?_⟩
    · have hquoted := (htags.2.2 _ (mem_accountTree ha)).1
      rw [accountAttributes_unquoted] at hquoted
      cases hquoted
    · have hdeclared := (htags.2.2 _ (mem_entryTree ht hp)).2 ['g', 'l'] rfl
      exact absurd hdeclared (by decide)
  · rintro ⟨haccounts, hpostings⟩
    refine ⟨tag "xbrl", root, declared, rfl, hroot, ?_⟩
    have hunprefixed : (tag "xbrl").space = none := rfl
    have hrows : rows dec s start stop = .last (Text.of ['\n']) := by
      rw [rows, haccounts, foldr_entriesTree hpostings, List.foldr_nil]
    rw [tags_instanceTree, hrows, List.forall_mem_cons, List.forall_mem_append]
    exact ⟨⟨hroot ▸ rfl, fun space h => nomatch hunprefixed ▸ h⟩, quoted_fixedTags,
      fun t ht => nomatch ht⟩

/-- The tags of an instance always match and nest.  It is a well-formed document exactly if the
ledger has no accounts and no transaction in the period has a posting. -/
theorem render_isDocument_iff (hdec : dec.Lawful) (s : LedgerSnapshot) (start stop : NaiveDate) :
    IsDocument (render dec s start stop) ↔
      s.accounts = [] ∧ ∀ t ∈ inPeriod s start stop, s.postingsOf t = [] := by
  obtain ⟨root, hroot, hnames⟩ := exists_rootAttributes
  rw [isDocument_iff (render_eq_instanceTree hdec hroot).symm]
  exact wellFormed_iff hnames

/-- A ledger without accounts and postings. -/
theorem render_isDocument_empty :
    IsDocument (render Decimal.plain { SafT.Sample.ledger none with accounts := [], postings := [] }
      default default) :=
  (render_isDocument_iff Decimal.plain_lawful _ _ _).mpr ⟨rfl, fun _ _ => rfl⟩

/-- A ledger with an account and a posting. -/
theorem not_isDocument_ledger :
    ¬ IsDocument (render Decimal.plain (SafT.Sample.ledger none) default default) := by
  obtain ⟨root, hroot, hnames⟩ := exists_rootAttributes
  rw [isDocument_iff (render_eq_instanceTree Decimal.plain_lawful hroot).symm, wellFormed_iff hnames]
  rintro ⟨haccounts, -⟩
  cases haccounts

end OpenAccounting.Export.Xbrl
