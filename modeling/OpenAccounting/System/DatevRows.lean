import OpenAccounting.Export.Filings

/-!
# What a DATEV batch covers

A row has one debit and one credit, and so it covers a transaction of two postings and no other one.
The texts of a transaction are written into the row without quotes around them, so that a separator
in one of them adds a field.  `rows_complete_iff` says which ledgers the batch covers.
-/

namespace OpenAccounting.Export.Datev

open Calendar Csv
open SafT (inPeriod)

/-! ## Rows -/

theorem mem_belegdatum {d : NaiveDate} {c : Char} (h : c ∈ (belegdatum d).toList) :
    c.isAlphanum = true ∨ c = '-' ∨ c = '+' := by
  have hdigits : ∀ {width n : ℕ}, c ∈ (RustStr.padZero width n).toList → c.isAlphanum = true :=
    fun hc => RustStr.isAlphanum_of_isDigit (RustStr.isDigit_of_mem_padZero hc)
  simp only [belegdatum, String.toList_append, List.mem_append] at h
  rcases h with ((h | h) | h) | h
  · exact .inl (hdigits h)
  · exact .inl (hdigits h)
  · split at h
    · exact .inr (.inl (by simpa using h))
    · split at h
      · exact .inr (.inr (by simpa using h))
      · simp at h
  · exact .inl (hdigits h)

theorem separator : ';' ≠ '"' ∧ ';' ≠ '\n' ∧ ';' ≠ '\r' := by decide

/-- What is neither a separator nor a quote nor the end of a line. -/
def IsValue (cs : List Char) : Prop := ∀ c ∈ cs, c ≠ ';' ∧ c ≠ '"' ∧ c ≠ '\n' ∧ c ≠ '\r'

theorem isValue_of_forall {cs : List Char}
    (h : ∀ c ∈ cs, c.isAlphanum = true ∨ c = '-' ∨ c = '+' ∨ c = '.') : IsValue cs := by
  intro c hc
  rcases h c hc with hc | rfl | rfl | rfl
  · refine ⟨?_, ?_, ?_, ?_⟩ <;> · rintro rfl; cases hc
  · decide
  · decide
  · decide

theorem isValue_belegdatum (d : NaiveDate) : IsValue (belegdatum d).toList :=
  isValue_of_forall fun _ hc => (mem_belegdatum hc).imp_right (Or.imp_right .inl)

theorem isValue_hyphenated (u : Uuid) : IsValue u.hyphenated.toList :=
  isValue_of_forall fun _ hc => (Uuid.mem_hyphenated hc).imp_right .inl

theorem isValue_amount {dec : Decimal.Text} (hdec : dec.Lawful) (x : Decimal.Scaled) :
    IsValue (dec.display x).toList := isValue_of_forall fun _ => hdec.mem_display

theorem width_cons {cs : List Char} (h : IsValue cs) (rest : List Char) :
    width ';' (cs ++ ';' :: rest) = (width ';' rest).map (1 + ·) :=
  width_append separator (width_value separator h) rest

theorem toList_rowOf (dec : Decimal.Text) (t : TransactionRow) (debit credit : PostingRow) :
    (rowOf dec t debit credit).toList =
      (dec.display debit.amount).toList ++ ';' :: ((dec.display credit.amount).toList ++ ';' ::
      (['U', 'S', 'D'] ++ ';' :: ([] ++ ';' ::
      ((dec.display debit.amount).toList ++ ';' :: ((dec.display credit.amount).toList ++ ';' ::
      (debit.accountId.hyphenated.toList ++ ';' :: (credit.accountId.hyphenated.toList ++ ';' ::
      (['"', '"'] ++ ';' :: ((belegdatum t.txnDate).toList ++ ';' ::
      ((t.reference.getD "").toList ++ ';' :: (doubled t.description.toList ++ ';' ::
      ((belegdatum t.txnDate).toList ++ ';' :: ([] ++ ';' :: []))))))))))))) := by
  have hcomma : ";".toList = [';'] := String.toList_ofList
  have hcurrency : ";USD;;".toList = [';', 'U', 'S', 'D', ';', ';'] := String.toList_ofList
  have hquotes : ";\"\";".toList = [';', '"', '"', ';'] := String.toList_ofList
  have hend : ";;".toList = [';', ';'] := String.toList_ofList
  delta rowOf escape
  simp only [String.toList_append, String.toList_ofList, hcomma, hcurrency, hquotes,
    hend, List.append_assoc, List.cons_append, List.nil_append]

/-- The texts of a transaction are one field each. -/
def Legible (t : TransactionRow) : Prop :=
  width ';' (t.reference.getD "").toList = some 1 ∧
    ∀ c ∈ t.description.toList, c ≠ ';' ∧ c ≠ '\n' ∧ c ≠ '\r'

/-- A row has as many fields as there are columns exactly if the texts in it are legible. -/
theorem width_rowOf {dec : Decimal.Text} (hdec : dec.Lawful) (t : TransactionRow)
    (debit credit : PostingRow) :
    width ';' (rowOf dec t debit credit).toList = some 15 ↔ Legible t := by
  have hempty : IsValue [] := fun c hc => absurd hc (by simp)
  have hdate := isValue_belegdatum t.txnDate
  -- The columns behind the texts.
  have hend : width ';' ((belegdatum t.txnDate).toList ++ ';' :: ([] ++ ';' :: [])) = some 3 := by
    rw [width_cons hdate, width_cons hempty]
    rfl
  have hpaired : Paired ((belegdatum t.txnDate).toList ++ ';' :: ([] ++ ';' :: [])) := by
    refine (Paired.of_notMem fun hmem => (hdate _ hmem).2.1 rfl).append ?_
    exact .char (by decide) (.char (by decide) .nil)
  have htexts : width ';' ((t.reference.getD "").toList ++ ';' :: (doubled t.description.toList ++
      ';' :: ((belegdatum t.txnDate).toList ++ ';' :: ([] ++ ';' :: [])))) = some 5 ↔ Legible t := by
    rw [Legible, ← width_doubled_eq_one separator]
    cases href : width ';' (t.reference.getD "").toList with
    | none =>
      rw [width_append_none separator href
        ((Paired.doubled _).append (.char (by decide) hpaired))]
      simp
    | some n =>
      rw [width_append separator href]
      have hn := width_pos href
      cases hdesc : width ';' (doubled t.description.toList) with
      | none =>
        rw [width_append_none separator hdesc hpaired]
        simp
      | some m =>
        have hm := width_pos hdesc
        rw [width_append separator hdesc, hend]
        simp only [Option.map_some, Option.some.injEq]
        omega
  have hcurrency : IsValue ['U', 'S', 'D'] := isValue_of_forall (by decide)
  have hquotes : width ';' ['"', '"'] = some 1 := by decide
  rw [toList_rowOf, width_cons (isValue_amount hdec _), width_cons (isValue_amount hdec _),
    width_cons hcurrency, width_cons hempty, width_cons (isValue_amount hdec _),
    width_cons (isValue_amount hdec _), width_cons (isValue_hyphenated _),
    width_cons (isValue_hyphenated _), width_append separator hquotes, width_cons hdate, ← htexts]
  cases width ';' ((t.reference.getD "").toList ++ ';' :: (doubled t.description.toList ++
      ';' :: ((belegdatum t.txnDate).toList ++ ';' :: ([] ++ ';' :: [])))) with
  | none => simp
  | some n =>
    simp only [Option.map_some, Option.some.injEq]
    omega

/-! ## Amounts -/

def total (ps : List PostingRow) : ℚ := (ps.map fun p => p.amount.value).sum

@[simp] theorem total_nil : total [] = 0 := rfl

@[simp] theorem total_cons (p : PostingRow) (ps : List PostingRow) :
    total (p :: ps) = p.amount.value + total ps := List.sum_cons

section

variable {ps : List PostingRow}

theorem total_nonneg (h : ∀ p ∈ ps, p.Valid) : 0 ≤ total ps := by
  induction ps with
  | nil => exact le_rfl
  | cons p ps ih =>
    obtain ⟨hp, hps⟩ := List.forall_mem_cons.mp h
    rw [total_cons]
    exact add_nonneg hp.positive.le (ih hps)

theorem total_eq_zero_iff (h : ∀ p ∈ ps, p.Valid) : total ps = 0 ↔ ps.length = 0 := by
  cases ps with
  | nil => simp
  | cons p ps =>
    obtain ⟨hp, hps⟩ := List.forall_mem_cons.mp h
    have hpos := add_pos_of_pos_of_nonneg hp.positive (total_nonneg hps)
    rw [total_cons]
    exact iff_of_false hpos.ne' (by simp)

end

section

variable (s : LedgerSnapshot) (t : TransactionRow)

def debits : List PostingRow := (s.postingsOf t).filter fun p => p.direction = "DEBIT"

def credits : List PostingRow := (s.postingsOf t).filter fun p => p.direction = "CREDIT"

/-- The debits of the transaction are as much as its credits. -/
def Balanced : Prop := total (debits s t) = total (credits s t)

theorem row_eq (dec : Decimal.Text) : row dec s t =
    match (debits s t).head?, (credits s t).head? with
    | some debit, some credit =>
      if debit.amount.value ≠ credit.amount.value then none else some (rowOf dec t debit credit)
    | _, _ => none := by
  rw [debits, credits, List.head?_filter, List.head?_filter]
  rfl

end

/-- The amount in the first column of a row. -/
def soll (dec : Decimal.Text) (r : String) : Option ℚ := dec.parse (RustStr.before ';' r)

theorem soll_rowOf {dec : Decimal.Text} (hdec : dec.Lawful) (t : TransactionRow)
    (debit credit : PostingRow) : soll dec (rowOf dec t debit credit) = some debit.amount.value := by
  have hvalue := isValue_amount hdec debit.amount
  have hbefore : RustStr.before ';' (rowOf dec t debit credit) = dec.display debit.amount := by
    rw [RustStr.before, toList_rowOf, List.takeWhile_append_of_pos, List.takeWhile_cons_of_neg,
      List.append_nil, String.ofList_toList]
    · simp
    · intro c hc
      simpa using (hvalue c hc).1
  rw [soll, hbefore, hdec.parse_display]

/-- What the row of a transaction has in its first column. -/
def covered (dec : Decimal.Text) (s : LedgerSnapshot) (t : TransactionRow) : ℚ :=
  ((row dec s t).bind (soll dec)).getD 0

theorem sum_soll (dec : Decimal.Text) (s : LedgerSnapshot) (ts : List TransactionRow) :
    ((ts.filterMap (row dec s)).filterMap (soll dec)).sum = (ts.map (covered dec s)).sum := by
  rw [List.filterMap_filterMap]
  induction ts with
  | nil => rfl
  | cons t ts ih =>
    rw [List.map_cons, List.sum_cons, ← ih, covered, List.filterMap_cons]
    cases (row dec s t).bind (soll dec) with
    | none => simp
    | some a => simp

section

variable {dec : Decimal.Text} {s : LedgerSnapshot} {t : TransactionRow}

theorem length_postingsOf (h : ∀ p ∈ s.postings, p.Valid) :
    (s.postingsOf t).length = (debits s t).length + (credits s t).length := by
  have hvalid : ∀ p ∈ s.postingsOf t, p.Valid := fun p hp => h p (List.mem_of_mem_filter hp)
  rw [debits, credits]
  generalize s.postingsOf t = ps at hvalid
  induction ps with
  | nil => rfl
  | cons p ps ih =>
    obtain ⟨hp, hps⟩ := List.forall_mem_cons.mp hvalid
    rcases hp.direction with hdebit | hcredit
    · simp [hdebit, ih hps]
      omega
    · simp [hcredit, ih hps]
      omega

/-- The row of a transaction covers its debits only if it has two postings, or none. -/
theorem covered_spec (hdec : dec.Lawful) (h : ∀ p ∈ s.postings, p.Valid) (hbalanced : Balanced s t) :
    covered dec s t ≤ total (debits s t) ∧
      (covered dec s t = total (debits s t) ↔
        (s.postingsOf t).length = 0 ∨ (s.postingsOf t).length = 2) := by
  have hdebits : ∀ p ∈ debits s t, p.Valid := fun p hp =>
    h p (List.mem_of_mem_filter (List.mem_of_mem_filter hp))
  have hcredits : ∀ p ∈ credits s t, p.Valid := fun p hp =>
    h p (List.mem_of_mem_filter (List.mem_of_mem_filter hp))
  rw [length_postingsOf h, covered, row_eq]
  rw [Balanced] at hbalanced
  generalize debits s t = ds at hdebits hbalanced
  generalize credits s t = cs at hcredits hbalanced
  cases ds with
  | nil =>
    have hnone := (total_eq_zero_iff hcredits).mp hbalanced.symm
    simp [hnone]
  | cons d ds =>
    obtain ⟨hd, hds⟩ := List.forall_mem_cons.mp hdebits
    have hdpos := hd.positive
    have hdsum := total_nonneg hds
    have hdzero := total_eq_zero_iff hds
    cases cs with
    | nil =>
      rw [total_nil, total_cons] at hbalanced
      linarith
    | cons c cs =>
      obtain ⟨hc, hcs⟩ := List.forall_mem_cons.mp hcredits
      have hczero := total_eq_zero_iff hcs
      simp only [List.head?_cons, total_cons, List.length_cons] at hbalanced ⊢
      by_cases hsame : d.amount.value = c.amount.value
      · have hrest : total ds = total cs := by linarith
        rw [if_neg (not_not.mpr hsame), Option.bind_some, soll_rowOf hdec, Option.getD_some,
          left_eq_add, hdzero]
        rw [← hrest, hdzero] at hczero
        exact ⟨by linarith, by omega⟩
      · rw [if_pos hsame, Option.bind_none, Option.getD_none]
        refine ⟨by linarith, iff_of_false (by linarith) fun hlen => hsame ?_⟩
        have hdnil := hdzero.mpr (by omega)
        have hcnil := hczero.mpr (by omega)
        linarith

theorem row_ne_none (hdec : dec.Lawful) (h : ∀ p ∈ s.postings, p.Valid) (hbalanced : Balanced s t)
    (hlen : (s.postingsOf t).length = 2) : row dec s t ≠ none := by
  intro hnone
  have hcovered := (covered_spec hdec h hbalanced).2.mpr (.inr hlen)
  rw [covered, hnone, Option.bind_none, Option.getD_none] at hcovered
  have hdebits : ∀ p ∈ debits s t, p.Valid := fun p hp =>
    h p (List.mem_of_mem_filter (List.mem_of_mem_filter hp))
  have hcredits : ∀ p ∈ credits s t, p.Valid := fun p hp =>
    h p (List.mem_of_mem_filter (List.mem_of_mem_filter hp))
  have hdzero := (total_eq_zero_iff hdebits).mp hcovered.symm
  have hczero := (total_eq_zero_iff hcredits).mp (hbalanced.symm.trans hcovered.symm)
  have hsum := length_postingsOf (t := t) h
  omega

theorem exists_of_row {r : String} (h : row dec s t = some r) :
    ∃ debit credit, r = rowOf dec t debit credit := by
  rw [row_eq] at h
  split at h
  · next debit credit _ _ =>
      split at h
      · cases h
      · exact ⟨debit, credit, (Option.some.inj h).symm⟩
  · cases h

end

/-! ## The batch -/

/-- Read with semicolons between the fields, every row has fifteen of them, and the Soll amounts are
as much as the debits of the transactions in the period. -/
structure Complete (dec : Decimal.Text) (s : LedgerSnapshot) (start stop : NaiveDate) : Prop where
  shape : ∀ r ∈ rows dec s start stop, ∃ fs, fields ';' r = some fs ∧ fs.length = 15
  amounts : ((rows dec s start stop).filterMap (soll dec)).sum =
    ((inPeriod s start stop).map fun t => total (debits s t)).sum

/-- A batch is complete exactly if every transaction of the period that has postings has two of
them, and legible texts. -/
theorem rows_complete_iff {dec : Decimal.Text} (hdec : dec.Lawful) {s : LedgerSnapshot}
    (h : ∀ p ∈ s.postings, p.Valid) (hbalanced : ∀ t ∈ s.transactions, Balanced s t)
    (start stop : NaiveDate) :
    Complete dec s start stop ↔ ∀ t ∈ inPeriod s start stop, (s.postingsOf t).length = 0 ∨
      (s.postingsOf t).length = 2 ∧ Legible t := by
  have hspec : ∀ t ∈ inPeriod s start stop, _ := fun t ht =>
    covered_spec (t := t) hdec h (hbalanced t (List.mem_of_mem_filter ht))
  constructor
  · rintro ⟨hshape, hamounts⟩ t ht
    -- No row covers more than its transaction, and so none covers less.
    have hcovered : covered dec s t = total (debits s t) := by
      refine (hspec t ht).1.eq_or_lt.resolve_right fun hlt => ?_
      have hsum := List.sum_lt_sum _ _ (fun t ht => (hspec t ht).1) ⟨t, ht, hlt⟩
      rw [← sum_soll] at hsum
      exact hsum.ne hamounts
    refine ((hspec t ht).2.mp hcovered).imp_right fun hlen => ⟨hlen, ?_⟩
    have hne := row_ne_none hdec h (hbalanced t (List.mem_of_mem_filter ht)) hlen
    obtain ⟨r, hr⟩ := Option.ne_none_iff_exists'.mp hne
    obtain ⟨debit, credit, rfl⟩ := exists_of_row hr
    exact (width_rowOf hdec t debit credit).mp
      (exists_fields_iff.mp (hshape _ (List.mem_filterMap.mpr ⟨t, ht, hr⟩)))
  · intro hall
    refine ⟨fun r hr => ?_, ?_⟩
    · obtain ⟨t, ht, hr⟩ := List.mem_filterMap.mp hr
      obtain ⟨debit, credit, rfl⟩ := exists_of_row hr
      refine exists_fields_iff.mpr ((width_rowOf hdec t debit credit).mpr ?_)
      refine ((hall t ht).resolve_left fun hlen => ?_).2
      have hsum := length_postingsOf (t := t) h
      have hnil : debits s t = [] := List.length_eq_zero_iff.mp (by omega)
      rw [row_eq, hnil] at hr
      cases hr
    · have hcovered : ∀ t ∈ inPeriod s start stop, covered dec s t = total (debits s t) :=
        fun t ht => (hspec t ht).2.mpr ((hall t ht).imp_right And.left)
      rw [rows, sum_soll, List.map_congr_left hcovered]

namespace Sample

def transfer (description : String) : TransactionRow where
  id := 1
  txnDate := default
  description := description
  reference := some "42"
  createdAt := { micros := 0, micros_range := DateTime.epoch_range }

def leg (account : Uuid) (amount : Decimal.Scaled) (direction : String) : PostingRow where
  id := account
  transactionId := 1
  accountId := account
  amount := amount
  currency := "USD"
  direction := direction

def ledger (description : String) (postings : List PostingRow) : LedgerSnapshot where
  ledger :=
    { id := 1, name := "Books", baseCurrency := "USD",
      createdAt := { date := default, second := 0, second_range := UtcTime.midnight_range } }
  accounts := []
  transactions := [transfer description]
  postings := postings
  currencies := ["USD"]

def pair : List PostingRow :=
  [leg 11 { coeff := 100, scale := 0, scale_range := Decimal.Scaled.whole_range } "DEBIT",
    leg 12 { coeff := 100, scale := 0, scale_range := Decimal.Scaled.whole_range } "CREDIT"]

def shared : List PostingRow :=
  [leg 11 { coeff := 100, scale := 0, scale_range := Decimal.Scaled.whole_range } "DEBIT",
    leg 12 { coeff := 60, scale := 0, scale_range := Decimal.Scaled.whole_range } "CREDIT",
    leg 13 { coeff := 40, scale := 0, scale_range := Decimal.Scaled.whole_range } "CREDIT"]

theorem valid_pair : ∀ p ∈ pair, p.Valid := by
  simp only [pair, List.forall_mem_cons]
  refine ⟨⟨by simp [leg, Decimal.Scaled.value], .inl rfl⟩,
    ⟨by simp [leg, Decimal.Scaled.value], .inr rfl⟩, fun p hp => nomatch hp⟩

theorem valid_shared : ∀ p ∈ shared, p.Valid := by
  simp only [shared, List.forall_mem_cons]
  refine ⟨⟨by simp [leg, Decimal.Scaled.value], .inl rfl⟩,
    ⟨by simp [leg, Decimal.Scaled.value], .inr rfl⟩,
    ⟨by simp [leg, Decimal.Scaled.value], .inr rfl⟩, fun p hp => nomatch hp⟩

theorem balanced_pair (description : String) :
    ∀ t ∈ (ledger description pair).transactions, Balanced (ledger description pair) t := by
  intro t ht
  rw [List.mem_singleton.mp ht]
  simp [Balanced, debits, credits, LedgerSnapshot.postingsOf, ledger, pair, leg, transfer]

theorem balanced_shared (description : String) :
    ∀ t ∈ (ledger description shared).transactions, Balanced (ledger description shared) t := by
  intro t ht
  rw [List.mem_singleton.mp ht]
  simp [Balanced, debits, credits, LedgerSnapshot.postingsOf, ledger, shared, leg, transfer,
    Decimal.Scaled.value]
  norm_num

theorem mem_inPeriod (description : String) (postings : List PostingRow) :
    transfer description ∈ inPeriod (ledger description postings) default default := by
  simp [inPeriod, ledger, transfer]

/-- A separator in the description adds a field, and a transaction with two credits is left out. -/
theorem not_complete_rent :
    ¬ Complete Decimal.plain (ledger "Rent; July" pair) default default ∧
      ¬ Complete Decimal.plain (ledger "Desk" shared) default default := by
  constructor
  · rintro ⟨hshape, -⟩
    have hbalanced := balanced_pair "Rent; July" (transfer "Rent; July") (List.mem_singleton_self _)
    obtain ⟨r, hr⟩ := Option.ne_none_iff_exists'.mp
      (row_ne_none Decimal.plain_lawful valid_pair hbalanced rfl)
    have hfields := hshape r (List.mem_filterMap.mpr ⟨_, mem_inPeriod _ _, hr⟩)
    obtain ⟨debit, credit, rfl⟩ := exists_of_row hr
    have hlegible := (width_rowOf Decimal.plain_lawful _ debit credit).mp
      (exists_fields_iff.mp hfields)
    exact (hlegible.2 ';' (by decide)).1 rfl
  · rintro ⟨-, hamounts⟩
    have hbalanced := balanced_shared "Desk" (transfer "Desk") (List.mem_singleton_self _)
    have hperiod : inPeriod (ledger "Desk" shared) default default = [transfer "Desk"] := by
      simp [inPeriod, ledger, transfer]
    rw [rows, sum_soll, hperiod, List.map_singleton, List.map_singleton, List.sum_singleton,
      List.sum_singleton, (covered_spec Decimal.plain_lawful valid_shared hbalanced).2] at hamounts
    exact absurd hamounts (by decide)

end Sample

open Datev.Sample in
/-- A transaction of two postings. -/
theorem rows_complete_iff_pair : Complete Decimal.plain (ledger "Rent" pair) default default := by
  refine (rows_complete_iff Decimal.plain_lawful valid_pair (balanced_pair "Rent") default
    default).mpr ?_
  intro t ht
  rw [List.mem_singleton.mp (List.mem_of_mem_filter ht)]
  exact .inr ⟨rfl, by decide, by decide⟩

end OpenAccounting.Export.Datev
