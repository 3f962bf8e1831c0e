import OpenAccounting.System.CamtPrefixes
import OpenAccounting.System.StatementImport

/-!
# Signs in a CAMT statement

An entry has an amount that is not negative and, in front of it or behind it, an indicator that says
whether the amount is a credit or a debit.  The parser reads the first amount of an entry and no
indicator, so that every entry is a credit.
-/

namespace OpenAccounting.Import.Statement.Camt

open Calendar Commit RustStr Xml

/-! ## Documents -/

/-- `CdtDbtInd`. -/
inductive Indicator where
  | credit
  | debit
deriving DecidableEq

def Indicator.code : Indicator → List Char
  | credit => ['C', 'R', 'D', 'T']
  | debit => ['D', 'B', 'I', 'T']

def ntryName : Name where
  chars := ['N', 't', 'r', 'y']

def amtName : Name where
  chars := ['A', 'm', 't']

/-- What the elements of a name have in them, next to each other. -/
def leaves (name : List Char) : Forest Name → List (List Char)
  | .last _ => []
  | .instruction _ _ next => leaves name next
  | .empty _ _ _ next => leaves name next
  | .element _ n _ children next =>
    if n.chars = name then children.render (spell none) :: leaves name next else leaves name next

/-- An entry.  Its amount has an attribute, and no other name in front of it starts as that of the
amount does. -/
structure Entry (lib : Libraries) where
  before : Forest Name
  attributes : Attributes
  amountText : Text
  amount : ℚ
  after : Forest Name
  indicator : Indicator
  before_plain : ∀ n ∈ before.names, n ≠ ntryName ∧ ¬ amtName.chars <+: n.chars
  after_plain : ∀ n ∈ after.names, n ≠ ntryName
  attributed : ∃ cs, attributes.chars = ' ' :: cs
  reads : lib.parseDecimal (without ',' (trim (String.ofList amountText.chars))) = some amount
  nonneg : 0 ≤ amount
  /-- The indicator is next to the amount, in front of it or behind it. -/
  indicated : leaves "CdtDbtInd".toList before ++ leaves "CdtDbtInd".toList after =
    [indicator.code]

namespace Entry

variable {lib : Libraries} (e : Entry lib)

/-- What is between the tags of an entry. -/
def children : Forest Name :=
  e.before.followed fun t => .element t amtName e.attributes (.last e.amountText) e.after

def block : String := String.ofList (e.children.render (spell none))

/-- The amount from the perspective of the account. -/
def signed : ℚ :=
  match e.indicator with
  | .credit => e.amount
  | .debit => -e.amount

end Entry

/-- The date of a block that the parser looks for. -/
def dateRaw (block : String) : Option String :=
  ((xmlText block "BookgDt").bind fun b => xmlText b "Dt").orElse fun _ =>
    (xmlText block "ValDt").bind fun b => xmlText b "Dt"

/-- The parser finds a date in the entry and can read it. -/
def Entry.Dated {lib : Libraries} (e : Entry lib) : Prop :=
  (dateRaw e.block).bind (parseCamtDate lib) ≠ none

/-- A document in which every entry is as it has to be. -/
inductive Document (lib : Libraries) where
  | last (text : Text)
  | instruction (text body : Text) (next : Document lib)
  | empty (text : Text) (name : Name) (attributes : Attributes) (next : Document lib)
      (other : name ≠ ntryName)
  | element (text : Text) (name : Name) (attributes : Attributes) (children next : Document lib)
      (other : name ≠ ntryName)
  | entry (text : Text) (e : Entry lib) (next : Document lib)

namespace Document

variable {lib : Libraries}

def forest : Document lib → Forest Name
  | last t => .last t
  | instruction t body next => .instruction t body next.forest
  | empty t n a next _ => .empty t n a next.forest
  | element t n a children next _ => .element t n a children.forest next.forest
  | entry t e next => .element t ntryName {} e.children next.forest

/-- The entries, in the order of the document. -/
def entries : Document lib → List (Entry lib)
  | last _ => []
  | instruction _ _ next => next.entries
  | empty _ _ _ next _ => next.entries
  | element _ _ _ children next _ => children.entries ++ next.entries
  | entry _ e next => e :: next.entries

end Document

/-! ## Searching for tags -/

theorem spelling : Spelling (spell none) where
  injective _ _ h := Name.ext h
  filled n := n.filled
  plain n c hc hend := by
    have halnum := n.plain c hc
    have hno := isPrefixChar_of_endsName hend
    rw [isPrefixChar, halnum] at hno
    cases hno

theorem name_eq {n m : Name} {c d : Char} {r r' : List Char} (hc : EndsName c) (hd : EndsName d)
    (h : n.chars ++ c :: r = m.chars ++ d :: r') : n = m ∧ c = d := by
  obtain ⟨hname, hrest⟩ := cut_eq (spelling.plain n) (spelling.plain m)
    (by simpa using hc) (by simpa using hd) h
  exact ⟨Name.ext hname, (List.cons.inj hrest).1⟩

/-- Where a start tag starts. -/
def opens (n : Name) (cs : List Char) : Bool := ('<' :: (n.chars ++ ['>'])).isPrefixOf cs

/-- Where an end tag starts. -/
def closes (n : Name) (cs : List Char) : Bool := ('<' :: '/' :: (n.chars ++ ['>'])).isPrefixOf cs

/-- Where a name starts, in a start tag. -/
def starts (n : Name) (cs : List Char) : Bool := ('<' :: n.chars).isPrefixOf cs

section

variable {n m : Name}

theorem chars_ne {c : Char} (hc : EndsName c) (r r' : List Char) : n.chars ++ r ≠ c :: r' :=
  spelling.cons_ne hc r r'

theorem isPrefixOf_open {w : List Char} {c : Char} (hc : c ≠ '<') (rest : List Char) :
    ('<' :: w).isPrefixOf (c :: rest) = false := by
  rw [List.isPrefixOf_cons_cons, beq_eq_false_iff_ne.mpr hc.symm, Bool.false_and]

theorem search_opens (n : Name) : Search (spell none) (opens n) where
  text c hc := isPrefixOf_open hc
  instruction rest := by
    rw [opens, ← Bool.not_eq_true, List.isPrefixOf_iff_prefix]
    rintro ⟨cs, hcs⟩
    rw [List.cons_append, List.append_assoc] at hcs
    exact chars_ne (.inl (by decide)) _ _ (List.cons.inj hcs).2

theorem search_closes (n : Name) : Search (spell none) (closes n) where
  text c hc := isPrefixOf_open hc
  instruction rest := by
    rw [closes, ← Bool.not_eq_true, List.isPrefixOf_iff_prefix]
    rintro ⟨cs, hcs⟩
    exact absurd (List.cons.inj (List.cons.inj hcs).2).1 (by decide)

theorem search_starts (n : Name) : Search (spell none) (starts n) where
  text c hc := isPrefixOf_open hc
  instruction rest := by
    rw [starts, ← Bool.not_eq_true, List.isPrefixOf_iff_prefix]
    rintro ⟨cs, hcs⟩
    rw [List.cons_append] at hcs
    exact chars_ne (.inl (by decide)) _ _ (List.cons.inj hcs).2

theorem opens_stop (n : Name) (rest : List Char) : opens n ('<' :: '/' :: rest) = false := by
  rw [opens, ← Bool.not_eq_true, List.isPrefixOf_iff_prefix]
  rintro ⟨cs, hcs⟩
  rw [List.cons_append, List.append_assoc] at hcs
  exact chars_ne (.inl (by decide)) _ _ (List.cons.inj hcs).2

theorem skips_opens (h : m ≠ n) : Skips (spell none) (opens n) m where
  start c rest hc := by
    rw [opens, ← Bool.not_eq_true, List.isPrefixOf_iff_prefix]
    rintro ⟨cs, hcs⟩
    rw [List.cons_append, List.append_assoc] at hcs
    exact h (name_eq (.inl (by decide)) hc (List.cons.inj hcs).2).1.symm
  stop rest := opens_stop n _

theorem skips_closes (h : m ≠ n) : Skips (spell none) (closes n) m where
  start c rest hc := by
    rw [closes, ← Bool.not_eq_true, List.isPrefixOf_iff_prefix]
    rintro ⟨cs, hcs⟩
    exact chars_ne (.inl (by decide)) _ _ (List.cons.inj hcs).2.symm
  stop rest := by
    rw [closes, ← Bool.not_eq_true, List.isPrefixOf_iff_prefix]
    rintro ⟨cs, hcs⟩
    rw [List.cons_append, List.cons_append, List.append_assoc] at hcs
    have hnames := (List.cons.inj (List.cons.inj hcs).2).2
    exact h (name_eq (.inl (by decide)) (.inl (by decide)) hnames).1.symm

theorem skips_starts (h : ¬ n.chars <+: m.chars) : Skips (spell none) (starts n) m where
  start c rest hc := by
    rw [starts, ← Bool.not_eq_true, List.isPrefixOf_iff_prefix, List.cons_prefix_cons]
    rintro ⟨-, hprefix⟩
    have hlong : m.chars ++ [c] <+: m.chars ++ c :: rest :=
      (List.prefix_append_right_inj _).mpr (List.prefix_append [c] rest)
    rcases Nat.lt_or_ge m.chars.length n.chars.length with hlt | hge
    · have hmem := List.prefix_of_prefix_length_le hlong hprefix (by
        rw [List.length_append, List.length_singleton]
        exact hlt)
      exact spelling.plain n c (hmem.subset (by simp)) hc
    · exact h (List.prefix_of_prefix_length_le hprefix (List.prefix_append _ _) hge)
  stop rest := by
    rw [starts, ← Bool.not_eq_true, List.isPrefixOf_iff_prefix]
    rintro ⟨cs, hcs⟩
    rw [List.cons_append] at hcs
    exact chars_ne (.inl (by decide)) _ _ (List.cons.inj hcs).2

end

/-! ## Blocks -/

theorem ntryBlocks_none {cs : List Char} (h : nextBlock cs = none) : ntryBlocks cs = [] := by
  rw [ntryBlocks]
  split
  · rfl
  · next heq => rw [h] at heq; cases heq

theorem ntryBlocks_some {cs block rest : List Char} (h : nextBlock cs = some (block, rest)) :
    ntryBlocks cs = String.ofList block :: ntryBlocks rest := by
  rw [ntryBlocks]
  split
  · next heq => rw [h] at heq; cases heq
  · next heq =>
      rw [h] at heq
      cases heq
      rfl

theorem ntryBlocks_passes {t : List Char} (ht : Passes (opens ntryName) t) (cs : List Char) :
    ntryBlocks (t ++ cs) = ntryBlocks cs := by
  have hnext : nextBlock (t ++ cs) = nextBlock cs := by
    have hcut : cutBefore (fun s => "<Ntry>".toList.isPrefixOf s) (t ++ cs) =
        (cutBefore (fun s => "<Ntry>".toList.isPrefixOf s) cs).map fun r => (t ++ r.1, r.2) := ht cs
    rw [nextBlock, nextBlock, cutAtStr, cutAtStr, hcut, Option.map_map, Option.map_map,
      Option.map_map]
    rfl
  cases hcs : nextBlock cs with
  | none => rw [ntryBlocks_none (hnext.trans hcs), ntryBlocks_none hcs]
  | some r => rw [ntryBlocks_some (hnext.trans hcs), ntryBlocks_some hcs]

theorem ntryBlocks_block {block : List Char} (hblock : Passes (closes ntryName) block)
    (cs : List Char) :
    ntryBlocks ('<' :: (ntryName.chars ++ '>' :: (block ++ '<' :: '/' :: (ntryName.chars ++
      '>' :: cs)))) = String.ofList block :: ntryBlocks cs := by
  have hstart : (fun s => "<Ntry>".toList.isPrefixOf s) ('<' :: (ntryName.chars ++ '>' ::
      (block ++ '<' :: '/' :: (ntryName.chars ++ '>' :: cs)))) = true :=
    List.isPrefixOf_iff_prefix.mpr ⟨_, rfl⟩
  have hend : closes ntryName ('<' :: '/' :: (ntryName.chars ++ '>' :: cs)) = true :=
    List.isPrefixOf_iff_prefix.mpr ⟨cs, rfl⟩
  have hpasses : cutBefore (fun s => "</Ntry>".toList.isPrefixOf s)
      (block ++ '<' :: '/' :: (ntryName.chars ++ '>' :: cs)) = _ := hblock _
  have hnext : nextBlock ('<' :: (ntryName.chars ++ '>' :: (block ++ '<' :: '/' ::
      (ntryName.chars ++ '>' :: cs)))) =
        some (block, '<' :: '/' :: (ntryName.chars ++ '>' :: cs)) := by
    have hdrop : ∀ ds : List Char,
        ('<' :: (ntryName.chars ++ '>' :: ds)).drop "<Ntry>".toList.length = ds := fun ds => rfl
    rw [nextBlock, cutAtStr, cutBefore_pos hstart, Option.map_some, Option.map_some, hdrop, hpasses,
      cutBefore_pos hend, Option.map_some, Option.getD_some, List.append_nil]
  have htag : Passes (opens ntryName) ('<' :: '/' :: (ntryName.chars ++ ['>'])) := by
    refine .cons ((search_opens ntryName).passes_plain (by decide)) fun ds => ?_
    exact opens_stop ntryName _
  rw [ntryBlocks_some hnext]
  exact congrArg _ (ntryBlocks_passes htag cs)

variable {lib : Libraries}

theorem names_followed {f : Forest Name} {k : Text → Forest Name} {ns : List Name}
    (h : ∀ t, (k t).names = ns) : (f.followed k).names = f.names ++ ns := by
  induction f with
  | last t => exact h t
  | instruction t body next ih => exact ih
  | empty t n a next ih => exact congrArg (n :: ·) ih
  | element t n a children next ihc ih =>
    rw [Forest.followed, Forest.names, ih, Forest.names, List.cons_append, List.append_assoc]

theorem Entry.passes_closes (e : Entry lib) :
    Passes (closes ntryName) (e.children.render (spell none)) := by
  have hnames : e.children.names = e.before.names ++ amtName :: e.after.names :=
    names_followed fun t => rfl
  refine (search_closes ntryName).passes spelling fun n hn => skips_closes ?_
  rw [hnames, List.mem_append, List.mem_cons] at hn
  rcases hn with hn | rfl | hn
  · exact (e.before_plain n hn).1
  · intro h
    exact absurd (congrArg Name.chars h) (by decide)
  · exact e.after_plain n hn

/-- The blocks that are cut out of a document are its entries. -/
theorem Document.ntryBlocks_append (doc : Document lib) (cs : List Char) :
    ntryBlocks (doc.forest.render (spell none) ++ cs) =
      doc.entries.map Entry.block ++ ntryBlocks cs := by
  have hopens := search_opens ntryName
  induction doc generalizing cs with
  | last t => exact ntryBlocks_passes (hopens.passes_text t) cs
  | instruction t body next ih =>
    have hpieces : (instruction t body next).forest.render (spell none) ++ cs =
        t.chars ++ ('<' :: '?' :: (body.chars ++ ['?', '>']) ++
          (next.forest.render (spell none) ++ cs)) := by
      simp [forest, Forest.render]
    rw [hpieces, ntryBlocks_passes (hopens.passes_text t),
      ntryBlocks_passes (hopens.passes_instruction body), ih]
    rfl
  | empty t n a next other ih =>
    have hopen := hopens.passes_start spelling (skips_opens other) a ['/', '>'] (by decide)
      (by simp [EndsName]) (by simp)
    have hpieces : (empty t n a next other).forest.render (spell none) ++ cs =
        t.chars ++ ('<' :: (spell none n ++ (a.chars ++ ['/', '>'])) ++
          (next.forest.render (spell none) ++ cs)) := by
      simp [forest, Forest.render]
    rw [hpieces, ntryBlocks_passes (hopens.passes_text t), ntryBlocks_passes hopen, ih]
    rfl
  | element t n a children next other ihc ih =>
    have hopen := hopens.passes_start spelling (skips_opens other) a ['>'] (by decide)
      (by simp [EndsName]) (by simp)
    have hstop := hopens.passes_stop spelling (skips_opens other)
    have hpieces : (element t n a children next other).forest.render (spell none) ++ cs =
        t.chars ++ ('<' :: (spell none n ++ (a.chars ++ ['>'])) ++
          (children.forest.render (spell none) ++ ('<' :: '/' :: (spell none n ++ ['>']) ++
            (next.forest.render (spell none) ++ cs)))) := by
      simp [forest, Forest.render]
    rw [hpieces, ntryBlocks_passes (hopens.passes_text t), ntryBlocks_passes hopen, ihc,
      ntryBlocks_passes hstop, ih, ← List.append_assoc, ← List.map_append]
    rfl
  | entry t e next ih =>
    have hpieces : (entry t e next).forest.render (spell none) ++ cs =
        t.chars ++ ('<' :: (ntryName.chars ++ '>' :: (e.children.render (spell none) ++ '<' ::
          '/' :: (ntryName.chars ++ '>' :: (next.forest.render (spell none) ++ cs))))) := by
      simp [forest, Forest.render, spell]
    rw [hpieces, ntryBlocks_passes (hopens.passes_text t), ntryBlocks_block e.passes_closes, ih]
    rfl

/-! ## Amounts -/

namespace Entry

variable (e : Entry lib)

/-- An entry, from the tag of its amount on. -/
def fromAmount : List Char :=
  '<' :: (amtName.chars ++ (e.attributes.chars ++ '>' :: (e.amountText.chars ++
    '<' :: '/' :: (amtName.chars ++ '>' :: e.after.render (spell none)))))

theorem toList_block : e.block.toList = e.before.render (spell none) ++ e.fromAmount := by
  rw [block, String.toList_ofList, children]
  exact Forest.render_followed fun t => by simp [Forest.render, fromAmount, spell]

theorem suffixFrom_block : suffixFrom "<Amt" e.block = some (String.ofList e.fromAmount) := by
  have hpasses : Passes (starts amtName) (e.before.render (spell none)) :=
    (search_starts amtName).passes spelling fun n hn => skips_starts (e.before_plain n hn).2
  have hstart : starts amtName e.fromAmount = true :=
    List.isPrefixOf_iff_prefix.mpr (List.prefix_append ('<' :: amtName.chars) _)
  have hcut := hpasses e.fromAmount
  rw [cutBefore_pos hstart, ← e.toList_block] at hcut
  exact congrArg (Option.map fun r => String.ofList r.2) hcut

/-- The text of the first `Amt` of an entry is that of its amount. -/
theorem xmlText_fromAmount :
    xmlText (String.ofList e.fromAmount) "Amt" =
      some (trim (String.ofList e.amountText.chars)) := by
  obtain ⟨value, hvalue⟩ := e.attributed
  have hclose : closes amtName
      ('<' :: '/' :: (amtName.chars ++ '>' :: e.after.render (spell none))) = true :=
    List.isPrefixOf_iff_prefix.mpr ⟨_, rfl⟩
  have hplain : '>' ∉ value := fun h =>
    (e.attributes.plain '>' (by rw [hvalue]; exact List.mem_cons_of_mem _ h)).2 rfl
  have hfrom : e.fromAmount = '<' :: (amtName.chars ++ ' ' :: (value ++ '>' ::
      (e.amountText.chars ++ '<' :: '/' :: (amtName.chars ++ '>' ::
        e.after.render (spell none))))) := by
    rw [fromAmount, hvalue]
    rfl
  have hopen : splitAtStr ("<" ++ "Amt" ++ " ") (String.ofList e.fromAmount) =
      some ("", String.ofList (value ++ '>' :: (e.amountText.chars ++ '<' :: '/' ::
        (amtName.chars ++ '>' :: e.after.render (spell none))))) := by
    have hstart : (fun s => ("<" ++ "Amt" ++ " ").toList.isPrefixOf s) e.fromAmount = true :=
      List.isPrefixOf_iff_prefix.mpr (by rw [hfrom]; exact ⟨_, rfl⟩)
    rw [splitAtStr, cutAtStr, String.toList_ofList, cutBefore_pos hstart, hfrom]
    rfl
  have htag : splitOnce '>' (String.ofList (value ++ '>' :: (e.amountText.chars ++ '<' :: '/' ::
      (amtName.chars ++ '>' :: e.after.render (spell none))))) =
        some (String.ofList value, String.ofList (e.amountText.chars ++ '<' :: '/' ::
          (amtName.chars ++ '>' :: e.after.render (spell none)))) := by
    have hcut := cutAt_eq_some.mpr ⟨(rfl : value ++ '>' :: (e.amountText.chars ++ '<' :: '/' ::
      (amtName.chars ++ '>' :: e.after.render (spell none))) = _), hplain⟩
    rw [splitOnce, String.toList_ofList, hcut, Option.map_some]
  have htext : splitAtStr ("</" ++ "Amt" ++ ">") (String.ofList (e.amountText.chars ++ '<' :: '/' ::
      (amtName.chars ++ '>' :: e.after.render (spell none)))) =
        some (String.ofList e.amountText.chars, String.ofList (e.after.render (spell none))) := by
    have hpasses := (search_closes amtName).passes_text e.amountText
      ('<' :: '/' :: (amtName.chars ++ '>' :: e.after.render (spell none)))
    rw [cutBefore_pos hclose] at hpasses
    have hcut : cutBefore (fun s => ("</" ++ "Amt" ++ ">").toList.isPrefixOf s)
        (e.amountText.chars ++ '<' :: '/' :: (amtName.chars ++ '>' ::
          e.after.render (spell none))) = _ := hpasses
    rw [splitAtStr, cutAtStr, String.toList_ofList, hcut, Option.map_some, Option.map_some,
      Option.map_some, List.append_nil]
    rfl
  rw [xmlText, hopen]
  simp only [htag, htext, Option.bind_eq_bind, Option.bind_some]

theorem parseBlock_eq_ok {l : StatementLine} (h : parseBlock lib e.block = .ok l) :
    e.Dated ∧ l.amount = e.amount := by
  simp only [parseBlock, bind_eq_ok, okOr_eq_ok] at h
  obtain ⟨raw, hraw, date, hdate, amt, hamt, text, htext, amount, hamount, hl⟩ := h
  rw [e.suffixFrom_block] at hamt
  obtain rfl := Option.some.inj hamt
  rw [e.xmlText_fromAmount] at htext
  obtain rfl := Option.some.inj htext
  rw [e.reads] at hamount
  obtain rfl := Option.some.inj hamount
  have hfound : dateRaw e.block = some raw := hraw
  refine ⟨?_, (congrArg StatementLine.amount (Except.ok.inj hl)).symm⟩
  rw [Dated, hfound, Option.bind_some, hdate]
  exact Option.some_ne_none date

theorem exists_parseBlock (h : e.Dated) : ∃ l, parseBlock lib e.block = .ok l := by
  obtain ⟨date, hdate⟩ := Option.ne_none_iff_exists'.mp h
  obtain ⟨raw, hraw, hdate⟩ := Option.bind_eq_some_iff.mp hdate
  simp only [parseBlock, bind_eq_ok, okOr_eq_ok]
  exact ⟨_, raw, hraw, date, hdate, _, e.suffixFrom_block, _, e.xmlText_fromAmount, _, e.reads, rfl⟩

end Entry

/-! ## All entries -/

theorem mapM_block {es : List (Entry lib)} {ls : List StatementLine}
    (h : (es.map Entry.block).mapM (parseBlock lib) = .ok ls) :
    (∀ e ∈ es, e.Dated) ∧ ls.map StatementLine.amount = es.map Entry.amount := by
  induction es generalizing ls with
  | nil =>
    cases h
    exact ⟨by simp, rfl⟩
  | cons e es ih =>
    rw [List.map_cons, List.mapM_cons] at h
    obtain ⟨l, hl, h⟩ := bind_eq_ok.mp h
    obtain ⟨ks, hks, h⟩ := bind_eq_ok.mp h
    cases h
    obtain ⟨hdated, hamount⟩ := e.parseBlock_eq_ok hl
    obtain ⟨hall, hamounts⟩ := ih hks
    refine ⟨List.forall_mem_cons.mpr ⟨hdated, hall⟩, ?_⟩
    rw [List.map_cons, List.map_cons, hamount, hamounts]

theorem exists_mapM_block {es : List (Entry lib)} (h : ∀ e ∈ es, e.Dated) :
    ∃ ls, (es.map Entry.block).mapM (parseBlock lib) = .ok ls := by
  induction es with
  | nil => exact ⟨[], rfl⟩
  | cons e es ih =>
    obtain ⟨hdated, hall⟩ := List.forall_mem_cons.mp h
    obtain ⟨l, hl⟩ := e.exists_parseBlock hdated
    obtain ⟨ls, hls⟩ := ih hall
    refine ⟨l :: ls, ?_⟩
    rw [List.map_cons, List.mapM_cons, hl, hls]
    rfl

theorem parse_render (pre : Option Prefix) (doc : Document lib) :
    parse lib (String.ofList (doc.forest.render (spell pre))) =
      ((doc.entries.map Entry.block).mapM (parseBlock lib)).bind fun out =>
        (ensure (out ≠ []) (.message "no Ntry entries found in CAMT document")).bind fun _ =>
          .ok out := by
  have hblocks := doc.ntryBlocks_append []
  have hend : ntryBlocks [] = [] := ntryBlocks_none rfl
  rw [hend, List.append_nil, List.append_nil] at hblocks
  rw [parse, String.toList_ofList, stripPrefixes_render, hblocks]
  rfl

theorem parse_eq_ok {pre : Option Prefix} {doc : Document lib} {ls : List StatementLine}
    (h : parse lib (String.ofList (doc.forest.render (spell pre))) = .ok ls) :
    doc.entries ≠ [] ∧ (∀ e ∈ doc.entries, e.Dated) ∧
      ls.map StatementLine.amount = doc.entries.map Entry.amount := by
  rw [parse_render] at h
  obtain ⟨out, hout, h⟩ := bind_eq_ok.mp h
  obtain ⟨u, hfound, h⟩ := bind_eq_ok.mp h
  cases h
  obtain ⟨hdated, hamounts⟩ := mapM_block hout
  refine ⟨fun hnil => ?_, hdated, hamounts⟩
  rw [hnil, List.map_nil, List.map_eq_nil_iff] at hamounts
  exact ensure_eq_ok.mp hfound hamounts

theorem exists_parse (pre : Option Prefix) {doc : Document lib} (hfound : doc.entries ≠ [])
    (h : ∀ e ∈ doc.entries, e.Dated) :
    ∃ ls, parse lib (String.ofList (doc.forest.render (spell pre))) = .ok ls := by
  obtain ⟨ls, hls⟩ := exists_mapM_block h
  have hne : ls ≠ [] := by
    rintro rfl
    have hnone := (mapM_block hls).2
    exact hfound (List.map_eq_nil_iff.mp hnone.symm)
  refine ⟨ls, ?_⟩
  rw [parse_render]
  exact bind_eq_ok.mpr ⟨ls, hls, bind_eq_ok.mpr ⟨(), ensure_eq_ok.mpr hne, rfl⟩⟩

theorem Entry.amount_eq_signed {e : Entry lib} :
    e.amount = e.signed ↔ (e.indicator = .debit → e.amount = 0) := by
  rw [signed]
  cases e.indicator with
  | credit => simp
  | debit =>
    simp only [true_implies]
    constructor
    · intro h
      linarith
    · rintro h
      rw [h, neg_zero]

/-- The amounts have their signs exactly in a document whose entries, of which there is one at
least, all have dates and none of which takes something from the account. -/
theorem parse_signed_iff (lib : Libraries) (pre : Option Prefix) (doc : Document lib) :
    (∃ ls, parse lib (String.ofList (doc.forest.render (spell pre))) = .ok ls ∧
        ls.map StatementLine.amount = doc.entries.map Entry.signed) ↔
      doc.entries ≠ [] ∧ ∀ e ∈ doc.entries, e.Dated ∧ (e.indicator = .debit → e.amount = 0) := by
  constructor
  · rintro ⟨ls, hparse, hsigned⟩
    obtain ⟨hfound, hdated, hamounts⟩ := parse_eq_ok hparse
    rw [hamounts] at hsigned
    exact ⟨hfound, fun e he =>
      ⟨hdated e he, Entry.amount_eq_signed.mp (List.map_inj_left.mp hsigned e he)⟩⟩
  · rintro ⟨hfound, hall⟩
    obtain ⟨ls, hparse⟩ := exists_parse pre hfound fun e he => (hall e he).1
    obtain ⟨-, -, hamounts⟩ := parse_eq_ok hparse
    refine ⟨ls, hparse, hamounts.trans (List.map_inj_left.mpr fun e he => ?_)⟩
    exact Entry.amount_eq_signed.mpr (hall e he).2

/-! ## A payment -/

namespace Sample

open StatementUpload.Sample (asciiLibraries)

def none : Text where
  chars := []

def debit : Forest Name :=
  .element none ⟨"CdtDbtInd".toList, by decide, by decide⟩ {}
    (.last ⟨Indicator.debit.code, by decide⟩) (.last none)

def booked : Forest Name :=
  .element none ⟨"BookgDt".toList, by decide, by decide⟩ {}
    (.element none ⟨"Dt".toList, by decide, by decide⟩ {} (.last ⟨"2026-07-01".toList, by decide⟩)
      (.last none)) debit

def rent : Entry asciiLibraries where
  before := .last none
  attributes := { chars := " Ccy=\"EUR\"".toList }
  amountText := ⟨"42.50".toList, by decide⟩
  amount := 85 / 2
  after := booked
  indicator := .debit
  before_plain := by simp [Forest.names]
  after_plain := by decide
  attributed := ⟨_, rfl⟩
  reads := by decide +kernel
  nonneg := by norm_num
  indicated := by decide

/-- A payment is read as a receipt. -/
theorem not_parse_signed_rent :
    ¬ ∃ ls, parse asciiLibraries (String.ofList ((Document.entry none rent
          (.last none)).forest.render (spell .none))) = .ok ls ∧
        ls.map StatementLine.amount = [rent.signed] := by
  rintro ⟨ls, hparse, hsigned⟩
  obtain ⟨-, -, hamounts⟩ := parse_eq_ok hparse
  rw [hsigned] at hamounts
  exact absurd (List.cons.inj hamounts).1 (by norm_num [Entry.signed, rent])

end Sample

end OpenAccounting.Import.Statement.Camt
