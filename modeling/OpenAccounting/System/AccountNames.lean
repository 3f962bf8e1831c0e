import OpenAccounting.Import.Pta
import OpenAccounting.Lib.Words
import OpenAccounting.System.BeancountRoundTrip

/-!
# Account names, written and resolved

The exporter writes the name of an account with underscores for spaces, tabs, dashes and colons.  The
importer cuts a posting at comments and annotations, takes the first word, and looks for an account
with this name, or with spaces for its underscores.  Both candidates are mangled to what has been
looked for already.

So a dash, a colon or a tab is lost, and so are names that are cut.  A name with spaces comes back if
it has no underscores and is not taken for the account that has underscores in their place:
`resolvesBack_iff`.
-/

namespace OpenAccounting.Export.Beancount

open Commit RustStr
open Import (Libraries PtaPosting plainLibraries plainLibraries_lawful)
open Import.Beancount Import.Pta

structure IsChart (accounts : List AccountRow) : Prop where
  ids_nodup : (accounts.map AccountRow.id).Nodup
  names_nodup : (accounts.map AccountRow.name).Nodup
  ne_empty : ∀ a ∈ accounts, a.name ≠ ""

/-- The accounts as the importer has them. -/
def namesOf (accounts : List AccountRow) : List (Uuid × String) :=
  accounts.map fun a => (a.id, a.name)

/-- The line of the posting is read as a posting on the account. -/
def ResolvesBack (lib : Libraries) (s : LedgerSnapshot) (p : PostingRow) : Prop :=
  ∃ line posting, postingLine s lib p = some line ∧
    parsePosting lib (trimStart (trimEnd line)) = .ok (some posting) ∧
    resolveAccount (namesOf s.accounts) posting.accountName = some p.accountId

structure Survives (accounts : List AccountRow) (name : String) : Prop where
  uncut : ∀ c ∈ name.toList, c ≠ ';' ∧ c ≠ '@' ∧ c ≠ '#' ∧ (isWhitespace c = true → c = ' ')
  kept : ∀ c ∈ name.toList, c ≠ '-' ∧ c ≠ ':'
  spaces : ' ' ∈ name.toList →
    '_' ∉ name.toList ∧ ∀ a ∈ accounts, a.name ≠ beancountAccountName name

/-! ## Resolving a name -/

/-- The mangled name has only underscores and characters of the name, and none that is replaced. -/
theorem mem_beancountAccountName {name : String} {c : Char}
    (h : c ∈ (beancountAccountName name).toList) :
    (c = '_' ∨ c ∈ name.toList) ∧ c ≠ ' ' ∧ c ≠ '\t' ∧ c ≠ '-' ∧ c ≠ ':' := by
  rw [toList_beancountAccountName] at h
  obtain ⟨d, hd, rfl⟩ := List.mem_map.mp h
  split
  · exact ⟨Or.inl rfl, by decide⟩
  · next hkept =>
      simp only [not_or] at hkept
      exact ⟨Or.inr hd, hkept⟩

theorem beancountAccountName_eq_self {name : String}
    (h : ∀ c ∈ name.toList, c ≠ ' ' ∧ c ≠ '\t' ∧ c ≠ '-' ∧ c ≠ ':') :
    beancountAccountName name = name := by
  apply String.toList_inj.mp
  rw [toList_beancountAccountName]
  refine (List.map_congr_left fun c hc => if_neg ?_).trans (List.map_id' _)
  simpa [not_or] using h c hc

theorem toList_unmangleAccountName (name : String) : (unmangleAccountName name).toList =
    name.toList.map fun c => if c = '_' then ' ' else c := String.toList_map

theorem mem_candidates {name candidate : String} (h : candidate ∈ candidates name) {c : Char}
    (hc : c ∈ candidate.toList) : c ∈ name.toList ∨ c = ' ' := by
  simp only [candidates, List.cons_append, List.mem_cons, List.mem_append, Option.mem_toList,
    List.not_mem_nil, or_false] at h
  rcases h with rfl | htail | rfl
  · exact Or.inl hc
  · rw [afterLast] at htail
    split at htail
    · cases htail
      rw [String.toList_ofList, List.mem_reverse] at hc
      exact Or.inl (List.mem_reverse.mp ((List.takeWhile_sublist _).subset hc))
    · cases htail
  · rw [toList_unmangleAccountName] at hc
    obtain ⟨d, hd, rfl⟩ := List.mem_map.mp hc
    split
    · exact Or.inr rfl
    · exact Or.inl hd

/-- An account that is found has only characters of the name, spaces and underscores. -/
theorem resolveAccount_mem {accounts : List (Uuid × String)} {name : String} {id : Uuid}
    (h : resolveAccount accounts name = some id) :
    ∃ n, (id, n) ∈ accounts ∧ ∀ c ∈ n.toList, c ∈ name.toList ∨ c = ' ' ∨ c = '_' := by
  obtain ⟨candidate, hcandidate, hfound⟩ := List.exists_of_findSome?_eq_some h
  cases hexact : accounts.find? fun a => a.2 = candidate with
  | some b =>
    rw [hexact] at hfound
    obtain rfl : b.1 = id := Option.some.inj hfound
    have hname : b.2 = candidate := by simpa using List.find?_some hexact
    refine ⟨b.2, List.mem_of_find?_eq_some hexact, fun c hc => ?_⟩
    rw [hname] at hc
    exact (mem_candidates hcandidate hc).imp_right Or.inl
  | none =>
    rw [hexact] at hfound
    obtain ⟨b, hmangled, rfl⟩ := Option.map_eq_some_iff.mp hfound
    have hmangled : (accounts.find? fun a => a.2 = beancountAccountName candidate) = some b :=
      hmangled
    have hname : b.2 = beancountAccountName candidate := by simpa using List.find?_some hmangled
    refine ⟨b.2, List.mem_of_find?_eq_some hmangled, fun c hc => ?_⟩
    rw [hname] at hc
    rcases (mem_beancountAccountName hc).1 with hline | hc
    · exact Or.inr (Or.inr hline)
    · exact (mem_candidates hcandidate hc).imp_right Or.inl

/-- Of a mangled name there are two candidates, and both are mangled to itself. -/
theorem resolveAccount_mangled (accounts : List (Uuid × String)) {name : String}
    (h : ∀ c ∈ name.toList, c ≠ ' ' ∧ c ≠ '\t' ∧ c ≠ '-' ∧ c ≠ ':') :
    resolveAccount accounts name = ((accounts.find? fun a => a.2 = name).or
      (accounts.find? fun a => a.2 = unmangleAccountName name)).map Prod.fst := by
  have hself : beancountAccountName name = name := beancountAccountName_eq_self h
  have hback : beancountAccountName (unmangleAccountName name) = name := by
    apply String.toList_inj.mp
    rw [toList_beancountAccountName, toList_unmangleAccountName, List.map_map]
    refine (List.map_congr_left fun c hc => ?_).trans (List.map_id' _)
    obtain ⟨hspace, htab, hdash, hcolon⟩ := h c hc
    rw [Function.comp_apply]
    by_cases hline : c = '_'
    · simp [hline]
    · simp [hline, hspace, htab, hdash, hcolon]
  have hwhole : afterLast ':' name = none := if_neg fun hmem => (h ':' hmem).2.2.2 rfl
  have hcandidates : candidates name = [name, unmangleAccountName name] := by
    rw [candidates, hwhole]
    rfl
  rw [resolveAccount, hcandidates]
  simp only [List.findSome?_cons, List.findSome?_nil, hself, hback]
  cases accounts.find? fun a => a.2 = name with
  | some a => rfl
  | none =>
    cases accounts.find? fun a => a.2 = unmangleAccountName name with
    | some a => rfl
    | none => rfl

section Chart

variable {accounts : List AccountRow} (hchart : IsChart accounts) {a : AccountRow}
  (ha : a ∈ accounts)

include hchart ha

theorem find?_namesOf (name : String) :
    ((namesOf accounts).find? fun b => b.2 = name) = some (a.id, a.name) ↔ a.name = name := by
  constructor
  · intro h
    simpa using List.find?_some h
  · rintro rfl
    cases hfind : (namesOf accounts).find? fun b => b.2 = a.name with
    | none =>
      have hmissing := List.find?_eq_none.mp hfind (a.id, a.name) (List.mem_map_of_mem ha)
      simp at hmissing
    | some b =>
      obtain ⟨b', hb', rfl⟩ := List.mem_map.mp (List.mem_of_find?_eq_some hfind)
      have hname : b'.name = a.name := by simpa using List.find?_some hfind
      rw [List.inj_on_of_nodup_map hchart.names_nodup hb' ha hname]

/-- A mangled name comes back as the account of the name, or else of the one with spaces. -/
theorem resolveAccount_eq_some_iff {name : String}
    (h : ∀ c ∈ name.toList, c ≠ ' ' ∧ c ≠ '\t' ∧ c ≠ '-' ∧ c ≠ ':') :
    resolveAccount (namesOf accounts) name = some a.id ↔
      a.name = name ∨ (∀ b ∈ accounts, b.name ≠ name) ∧ a.name = unmangleAccountName name := by
  have hid : ∀ b : Uuid × String, b ∈ namesOf accounts → b.1 = a.id → b = (a.id, a.name) := by
    rintro b hb hbid
    obtain ⟨b', hb', rfl⟩ := List.mem_map.mp hb
    rw [List.inj_on_of_nodup_map hchart.ids_nodup hb' ha hbid]
  rw [resolveAccount_mangled _ h]
  cases hexact : (namesOf accounts).find? fun b => b.2 = name with
  | some b =>
    have hb : b ∈ namesOf accounts := List.mem_of_find?_eq_some hexact
    obtain ⟨b', hb', rfl⟩ := List.mem_map.mp hb
    have hname : b'.name = name := by simpa using List.find?_some hexact
    have hnot : ¬ ∀ b ∈ accounts, b.name ≠ name := fun h => h b' hb' hname
    simp only [Option.some_or, Option.map_some, Option.some.injEq, hnot, false_and, or_false]
    rw [← find?_namesOf hchart ha name, hexact, Option.some.injEq]
    exact ⟨hid _ hb, fun h => congrArg Prod.fst h⟩
  | none =>
    have hnone : ∀ b ∈ accounts, b.name ≠ name := by
      intro b hb
      simpa using List.find?_eq_none.mp hexact (b.id, b.name) (List.mem_map_of_mem hb)
    have hother : a.name ≠ name := hnone a ha
    simp only [Option.none_or, hother, false_or]
    rw [and_iff_right hnone, ← find?_namesOf hchart ha]
    constructor
    · intro hfound
      obtain ⟨b, hb, hbid⟩ := Option.map_eq_some_iff.mp hfound
      rw [hb, hid b (List.mem_of_find?_eq_some hb) hbid]
    · intro hfound
      rw [hfound]
      rfl

end Chart

/-- A name is unmangled to itself if it has no underscore, tab, dash or colon. -/
theorem eq_unmangleAccountName_iff (name : String) :
    name = unmangleAccountName (beancountAccountName name) ↔
      ∀ c ∈ name.toList, c ≠ '_' ∧ c ≠ '\t' ∧ c ≠ '-' ∧ c ≠ ':' := by
  have hlist : (unmangleAccountName (beancountAccountName name)).toList = name.toList.map fun c =>
      if c = '_' ∨ c = ' ' ∨ c = '\t' ∨ c = '-' ∨ c = ':' then ' ' else c := by
    rw [toList_unmangleAccountName, toList_beancountAccountName, List.map_map]
    refine List.map_congr_left fun c _ => ?_
    rw [Function.comp_apply]
    by_cases hreplaced : c = ' ' ∨ c = '\t' ∨ c = '-' ∨ c = ':'
    · simp [hreplaced]
    · by_cases hline : c = '_' <;> simp [hreplaced, hline]
  have hsame : name = unmangleAccountName (beancountAccountName name) ↔ ∀ c ∈ name.toList,
      (if c = '_' ∨ c = ' ' ∨ c = '\t' ∨ c = '-' ∨ c = ':' then ' ' else c) = c := by
    rw [← String.toList_inj, hlist, ← List.map_inj_left, List.map_id', eq_comm]
  rw [hsame]
  refine forall₂_congr fun c _ => ?_
  constructor
  · intro h
    refine ⟨?_, ?_, ?_, ?_⟩ <;> rintro rfl <;> simp at h
  · rintro ⟨hline, htab, hdash, hcolon⟩
    by_cases hspace : c = ' '
    · simp [hspace]
    · simp [hspace, hline, htab, hdash, hcolon]

/-! ## Reading a line -/

/-- The account of a posting is a word in front of comments and annotations. -/
theorem parsePosting_accountName {lib : Libraries} {line : String} {posting : PtaPosting}
    (h : parsePosting lib line = .ok (some posting)) :
    ∀ c ∈ posting.accountName.toList, isWhitespace c = false ∧ c ≠ ';' ∧ c ≠ '@' ∧
      ('@' ∉ line.toList → c ≠ '#') := by
  delta parsePosting at h
  dsimp only at h
  split at h
  · next account amountTok rest hwords =>
      simp only [bind_eq_ok] at h
      obtain ⟨signed, -, h⟩ := h
      have haccount : posting.accountName = account := by
        have hsigned : PtaPosting.ofSigned account signed = some posting := Except.ok.inj h
        rw [PtaPosting.ofSigned] at hsigned
        split at hsigned
        · cases hsigned
        · split at hsigned <;> (cases hsigned; rfl)
      intro c hc
      rw [haccount] at hc
      have hword := List.mem_cons_self (a := account) (l := amountTok :: rest)
      rw [← hwords, ← String.ofList_toList (s := trimEnd _)] at hword
      have hsolid := (isWord_of_mem hword).2 c hc
      obtain ⟨hcut, hmark⟩ := mem_toList_before
        (mem_toList_trimEnd (subset_of_mem_splitWhitespace hword hc))
      obtain ⟨hline, hsemi⟩ := mem_toList_before hcut
      refine ⟨hsolid, hsemi, ?_⟩
      split at hmark
      · next hat => exact ⟨hmark, fun hnone => absurd (mem_toList_before hat).1 hnone⟩
      · next hat =>
          refine ⟨?_, fun _ => hmark⟩
          rintro rfl
          exact hat hcut
  · cases h

theorem mem_postingLine {lib : Libraries} {s : LedgerSnapshot} (hlib : lib.Lawful) {p : PostingRow}
    (hcurrency : IsCurrency p.currency) {line : String} (h : postingLine s lib p = some line)
    {c : Char} (hc : c ∈ line.toList) :
    c = ' ' ∨ c ∈ (accountName s p.accountId).toList ∨
      isWhitespace c = false ∧ c ≠ ';' ∧ c ≠ '@' ∧ c ≠ '#' := by
  obtain ⟨signed, -, rfl⟩ := Option.map_eq_some_iff.mp h
  have hbody : c ∈ "  ".toList ∨ c ∈ (postingBody (accountName s p.accountId)
      (formatDecimal lib signed) p.currency).toList := by
    simpa [postingBody, or_assoc] using hc
  obtain ⟨k, hlist⟩ := toList_postingBody (accountName s p.accountId) (formatDecimal lib signed)
    p.currency
  rw [hlist] at hbody
  simp only [List.mem_append, List.mem_cons, List.mem_replicate] at hbody
  rcases hbody with hc | hc | rfl | ⟨-, rfl⟩ | hc | rfl | hc
  · exact Or.inl (by simpa using hc)
  · exact Or.inr (Or.inl hc)
  · exact Or.inl rfl
  · exact Or.inl rfl
  · exact Or.inr (Or.inr ((formatDecimal_spec hlib signed).1.chars c hc))
  · exact Or.inl rfl
  · exact Or.inr (Or.inr ((isWord_currency hcurrency).chars c hc))

/-! ## There and back -/

section

variable {lib : Libraries} {s : LedgerSnapshot} {a : AccountRow} {p : PostingRow}

theorem findAccount_eq (hchart : IsChart s.accounts) (ha : a ∈ s.accounts) :
    s.findAccount a.id = some a := by
  cases hfind : s.findAccount a.id with
  | none =>
    have hmissing := List.find?_eq_none.mp hfind a (List.mem_reverse.mpr ha)
    simp at hmissing
  | some b =>
    have hb : b ∈ s.accounts := List.mem_reverse.mp (List.mem_of_find?_eq_some hfind)
    have hid : b.id = a.id := by simpa using List.find?_some hfind
    rw [List.inj_on_of_nodup_map hchart.ids_nodup hb ha hid]

variable (hlib : lib.Lawful) (hchart : IsChart s.accounts) (ha : a ∈ s.accounts)
  (haccount : p.accountId = a.id) (hvalid : p.Valid) (hcurrency : IsCurrency p.currency)

include hlib hchart ha haccount hcurrency

/-- Nothing in a name that comes back may start a comment or end the name. -/
theorem ResolvesBack.uncut (h : ResolvesBack lib s p) :
    ∀ c ∈ a.name.toList, c ≠ ';' ∧ c ≠ '@' ∧ c ≠ '#' ∧ (isWhitespace c = true → c = ' ') := by
  obtain ⟨line, posting, hline, hread, hresolved⟩ := h
  obtain ⟨n, hn, hchars⟩ := resolveAccount_mem hresolved
  obtain ⟨b, hb, hpair⟩ := List.mem_map.mp hn
  obtain ⟨hid, rfl⟩ := (Prod.mk.injEq ..).mp hpair
  obtain rfl : b = a := List.inj_on_of_nodup_map hchart.ids_nodup hb ha (hid.trans haccount)
  have hword := parsePosting_accountName hread
  have hname : accountName s p.accountId = beancountAccountName b.name := by
    rw [accountName, haccount, findAccount_eq hchart ha]
    rfl
  have hat : '@' ∉ b.name.toList := by
    intro hmem
    rcases hchars '@' hmem with hc | hc | hc
    · exact (hword '@' hc).2.2.1 rfl
    · cases hc
    · cases hc
  have hatLine : '@' ∉ (trimStart (trimEnd line)).toList := by
    intro hmem
    have hmem : '@' ∈ line.toList := by
      rw [trimStart, String.toList_ofList] at hmem
      exact mem_toList_trimEnd ((List.dropWhile_sublist _).subset hmem)
    rcases mem_postingLine hlib hcurrency hline hmem with hc | hc | hc
    · cases hc
    · rw [hname] at hc
      rcases (mem_beancountAccountName hc).1 with hc | hc
      · cases hc
      · exact hat hc
    · exact hc.2.2.1 rfl
  intro c hc
  rcases hchars c hc with hc | rfl | rfl
  · obtain ⟨hsolid, hsemi, hat, hhash⟩ := hword c hc
    exact ⟨hsemi, hat, hhash hatLine, fun hwhite => absurd hwhite (by simp [hsolid])⟩
  · decide
  · decide

include hvalid

/-- Of a name that is not cut, only the lookup of the account decides. -/
theorem resolvesBack_iff_of_uncut
    (h : ∀ c ∈ a.name.toList, c ≠ ';' ∧ c ≠ '@' ∧ c ≠ '#' ∧ (isWhitespace c = true → c = ' ')) :
    ResolvesBack lib s p ↔
      resolveAccount (namesOf s.accounts) (beancountAccountName a.name) = some a.id := by
  have hname : accountName s p.accountId = beancountAccountName a.name := by
    rw [accountName, haccount, findAccount_eq hchart ha]
    rfl
  have hword : IsWord (accountName s p.accountId) := by
    rw [hname]
    exact isWord_beancountAccountName ⟨hchart.ne_empty a ha, fun c hc =>
      ⟨(h c hc).1, (h c hc).2.1, (h c hc).2.2.1, fun hwhite => Or.inl ((h c hc).2.2.2 hwhite)⟩⟩
  obtain ⟨line, hline, hstarts, hends, -, -, hread⟩ :=
    postingLine_word hlib hword hvalid hcurrency
  have htrim : trimStart (trimEnd ("  " ++ line)) = line := by
    rw [(hends.append "  ").trimEnd, trimStart_append (by simp [isWhitespace]), hstarts.trimStart]
  rw [← hname, ← haccount]
  constructor
  · rintro ⟨line', posting, hline', hread', hresolved⟩
    rw [hline] at hline'
    cases hline'
    rw [htrim, hread] at hread'
    cases hread'
    exact hresolved
  · intro hresolved
    rw [← htrim] at hread
    exact ⟨_, _, hline, hread, hresolved⟩

/-- The posting line of an account comes back to the account if and only if its name survives. -/
theorem resolvesBack_iff : ResolvesBack lib s p ↔ Survives s.accounts a.name := by
  have hmangled : ∀ c ∈ (beancountAccountName a.name).toList,
      c ≠ ' ' ∧ c ≠ '\t' ∧ c ≠ '-' ∧ c ≠ ':' := fun c hc => (mem_beancountAccountName hc).2
  have hkeep : a.name = beancountAccountName a.name → ∀ c ∈ a.name.toList,
      c ≠ ' ' ∧ c ≠ '\t' ∧ c ≠ '-' ∧ c ≠ ':' := by
    intro heq c hc
    rw [heq] at hc
    exact hmangled c hc
  constructor
  · intro h
    have huncut := h.uncut hlib hchart ha haccount hcurrency
    have hresolved :=
      (resolvesBack_iff_of_uncut hlib hchart ha haccount hvalid hcurrency huncut).mp h
    rcases (resolveAccount_eq_some_iff hchart ha hmangled).mp hresolved with heq | ⟨hnone, heq⟩
    · have hchars := hkeep heq
      exact ⟨huncut, fun c hc => (hchars c hc).2.2, fun hspace => absurd rfl (hchars ' ' hspace).1⟩
    · have hchars := (eq_unmangleAccountName_iff a.name).mp heq
      exact ⟨huncut, fun c hc => (hchars c hc).2.2,
        fun _ => ⟨fun hline => (hchars '_' hline).1 rfl, hnone⟩⟩
  · rintro ⟨huncut, hkept, hspaces⟩
    rw [resolvesBack_iff_of_uncut hlib hchart ha haccount hvalid hcurrency huncut,
      resolveAccount_eq_some_iff hchart ha hmangled]
    have htab : ∀ c ∈ a.name.toList, c ≠ '\t' := by
      rintro c hc rfl
      exact absurd ((huncut _ hc).2.2.2 rfl) (by decide)
    by_cases hspace : ' ' ∈ a.name.toList
    · obtain ⟨hline, hnone⟩ := hspaces hspace
      refine Or.inr ⟨hnone, (eq_unmangleAccountName_iff a.name).mpr fun c hc => ?_⟩
      exact ⟨fun h => hline (h ▸ hc), htab c hc, hkept c hc⟩
    · refine Or.inl (beancountAccountName_eq_self fun c hc => ?_).symm
      exact ⟨fun h => hspace (h ▸ hc), htab c hc, hkept c hc⟩

end

namespace Sample

def account (id : Uuid) (name : String) : AccountRow where
  id := id
  name := name
  type := "ASSET"
  currency := "USD"

/-- Names with a space, with an underscore in its place, and with a dash. -/
def petty : LedgerSnapshot where
  ledger := snapshot.ledger
  accounts := [account 11 "Petty Cash", account 12 "Petty_Cash", account 13 "Cash-Box"]
  transactions := []
  postings := []
  currencies := ["USD"]

def posting (account : Uuid) : PostingRow where
  id := account
  transactionId := 1
  accountId := account
  amount := ⟨42, 0, Export.Beancount.Sample.coeff_range, Decimal.Scaled.whole_range⟩
  currency := "USD"
  direction := "DEBIT"

theorem posting_valid (account : Uuid) : (posting account).Valid :=
  ⟨by norm_num [posting, Decimal.Scaled.value], Or.inl rfl⟩

theorem usd_isCurrency : IsCurrency "USD" := ⟨by decide, by decide⟩

theorem petty_isChart : IsChart petty.accounts where
  ids_nodup := by decide
  names_nodup := by decide
  ne_empty := by decide

theorem snapshot_isChart : IsChart snapshot.accounts where
  ids_nodup := by decide
  names_nodup := by decide
  ne_empty := by decide

end Sample

theorem resolvesBack_iff_cash : ResolvesBack plainLibraries Sample.snapshot (Sample.posting 11) := by
  have ha : Sample.account 11 "Cash on Hand" ∈ Sample.snapshot.accounts := List.mem_cons_self
  refine (resolvesBack_iff plainLibraries_lawful Sample.snapshot_isChart ha rfl
    (Sample.posting_valid 11) Sample.usd_isCurrency).mpr ⟨forall_chars rfl, forall_chars rfl, ?_⟩
  have hline : '_' ∉ (Sample.account 11 "Cash on Hand").name.toList := by decide
  have hnone : ∀ a ∈ Sample.snapshot.accounts,
      a.name ≠ beancountAccountName (Sample.account 11 "Cash on Hand").name := by
    decide +kernel
  exact fun _ => ⟨hline, hnone⟩

/-- "Cash-Box" is not found, and "Petty Cash" comes back as "Petty_Cash". -/
theorem not_resolvesBack_petty :
    resolveAccount (namesOf Sample.petty.accounts) (beancountAccountName "Cash-Box") = none ∧
      ¬ ResolvesBack plainLibraries Sample.petty (Sample.posting 13) ∧
      resolveAccount (namesOf Sample.petty.accounts) (beancountAccountName "Petty Cash") = some 12 ∧
      ¬ ResolvesBack plainLibraries Sample.petty (Sample.posting 11) := by
  have hbox : resolveAccount (namesOf Sample.petty.accounts) (beancountAccountName "Cash-Box") =
      none := by decide +kernel
  have hcash : resolveAccount (namesOf Sample.petty.accounts) (beancountAccountName "Petty Cash") =
      some 12 := by decide +kernel
  have hread : ∀ a ∈ Sample.petty.accounts, (∀ c ∈ a.name.toList,
      c ≠ ';' ∧ c ≠ '@' ∧ c ≠ '#' ∧ (isWhitespace c = true → c = ' ')) →
      (ResolvesBack plainLibraries Sample.petty (Sample.posting a.id) ↔
        resolveAccount (namesOf Sample.petty.accounts) (beancountAccountName a.name) = some a.id) :=
    fun a ha huncut => resolvesBack_iff_of_uncut plainLibraries_lawful Sample.petty_isChart ha rfl
      (Sample.posting_valid a.id) Sample.usd_isCurrency huncut
  refine ⟨hbox, fun h => ?_, hcash, fun h => ?_⟩
  · have hid := (hread (Sample.account 13 "Cash-Box") (by simp [Sample.petty])
      (forall_chars rfl)).mp h
    cases hbox.symm.trans hid
  · have hid := (hread (Sample.account 11 "Petty Cash") (by simp [Sample.petty])
      (forall_chars rfl)).mp h
    exact absurd (Option.some.inj (hcash.symm.trans hid)) (by decide)

end OpenAccounting.Export.Beancount
