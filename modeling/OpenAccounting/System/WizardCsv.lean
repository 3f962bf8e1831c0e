import OpenAccounting.Handlers.Import
import OpenAccounting.Lib.Csv

/-!
# Lines of the CSV wizard

A line of fields is written with quotes around the fields that need them, and with the quotes inside
doubled.  The wizard drops every quote when it reads the line, and a line without characters has no
fields for it.
-/

namespace OpenAccounting.ImportWizard

/-- The characters of a field that are no quotes. -/
def unquoted (cs : List Char) : List Char := cs.filter fun c => c ≠ '"'

section

variable {field : List Char} {out : List String} {cs rest : List Char}

theorem fieldsFrom_char {c : Char} {inQuotes : Bool} (hquote : c ≠ '"')
    (hcomma : c ≠ ',' ∨ inQuotes = true) :
    fieldsFrom inQuotes field out (c :: cs) = fieldsFrom inQuotes (c :: field) out cs := by
  by_cases hc : c = ','
  · subst hc
    rw [fieldsFrom, if_pos (hcomma.resolve_left fun h => h rfl)]
  · rw [fieldsFrom]
    · exact hquote
    · exact hc

theorem fieldsFrom_doubled :
    fieldsFrom true field out (Csv.doubled cs ++ '"' :: rest) =
      fieldsFrom false ((unquoted cs).reverse ++ field) out rest := by
  induction cs generalizing field with
  | nil => rfl
  | cons c cs ih =>
    rw [Csv.doubled, List.flatMap_cons, ← Csv.doubled, List.append_assoc]
    by_cases hc : c = '"'
    · subst hc
      exact ih
    · rw [if_neg hc, unquoted, List.filter_cons_of_pos (by simpa using hc), List.reverse_cons,
        List.append_assoc]
      exact (fieldsFrom_char hc (.inr rfl)).trans ih

theorem fieldsFrom_plain (h : ∀ c ∈ cs, c ≠ ',' ∧ c ≠ '"') :
    fieldsFrom false field out (cs ++ rest) = fieldsFrom false (cs.reverse ++ field) out rest := by
  induction cs generalizing field with
  | nil => rfl
  | cons c cs ih =>
    obtain ⟨hc, hcs⟩ := List.forall_mem_cons.mp h
    rw [List.cons_append, fieldsFrom_char hc.2 (.inl hc.1), ih hcs, List.reverse_cons,
      List.append_assoc]
    rfl

theorem fieldsFrom_quoteField (f : String) :
    fieldsFrom false [] out ((Csv.quoteField f).toList ++ rest) =
      fieldsFrom false (unquoted f.toList).reverse out rest := by
  rw [Csv.quoteField]
  split
  · rw [String.toList_ofList, List.cons_append, List.append_assoc]
    have hread : fieldsFrom true [] out (Csv.doubled f.toList ++ '"' :: rest) =
        fieldsFrom false ((unquoted f.toList).reverse ++ []) out rest := fieldsFrom_doubled
    rw [List.append_nil] at hread
    exact hread
  · next hplain =>
      have hcs : ∀ c ∈ f.toList, c ≠ ',' ∧ c ≠ '"' := by
        intro c hc
        have hspecial : Csv.special c = false := by
          have hall : ∀ c ∈ f.toList, Csv.special c = false := by simpa using hplain
          exact hall c hc
        simp only [Csv.special, Bool.or_eq_false_iff, beq_eq_false_iff_ne] at hspecial
        exact hspecial.1.1
      have hself : unquoted f.toList = f.toList :=
        List.filter_eq_self.mpr fun c hc => by simpa using (hcs c hc).2
      rw [fieldsFrom_plain hcs, hself, List.append_nil]

end

/-- The fields of a line are read without their quotes, unless the line is empty. -/
theorem fieldsFrom_row {fields : List String} (hne : fields ≠ []) (out : List String) :
    fieldsFrom false [] out (Csv.row Csv.quoteField fields).toList =
      if out = [] ∧ fields.map (fun f => String.ofList (unquoted f.toList)) = [""] then []
      else out ++ fields.map fun f => String.ofList (unquoted f.toList) := by
  obtain ⟨f, fields, rfl⟩ := List.exists_cons_of_ne_nil hne
  rw [Csv.row, String.toList_append, fieldsFrom_quoteField]
  induction fields generalizing f out with
  | nil =>
    rw [Csv.more, String.toList_empty, fieldsFrom, List.reverse_reverse, List.map_singleton]
    by_cases hempty : unquoted f.toList = [] ∧ out = []
    · obtain ⟨hf, rfl⟩ := hempty
      simp [hf]
    · rw [if_pos (by simpa using not_and_or.mp hempty), if_neg]
      rintro ⟨hout, heq⟩
      have hf : String.ofList (unquoted f.toList) = "" := List.singleton_inj.mp heq
      exact hempty ⟨String.ofList_eq_empty_iff.mp hf, hout⟩
  | cons g fields ih =>
    rw [Csv.toList_more_cons, fieldsFrom, if_neg Bool.false_ne_true, List.reverse_reverse,
      fieldsFrom_quoteField, ih _ g (List.cons_ne_nil g fields), if_neg (by simp),
      if_neg (by simp), List.append_assoc]
    rfl

/-- A line of fields is read back if and only if no field has a quote, and the line is not that of a
single empty field. -/
theorem parseCsvLine_row_iff {fields : List String} (hne : fields ≠ []) :
    parseCsvLine (Csv.row Csv.quoteField fields) = fields ↔
      (∀ f ∈ fields, '"' ∉ f.toList) ∧ fields ≠ [""] := by
  have hread := fieldsFrom_row hne []
  rw [← parseCsvLine, List.nil_append] at hread
  have hself : ∀ f : String, String.ofList (unquoted f.toList) = f ↔ '"' ∉ f.toList := by
    intro f
    rw [← String.toList_inj, String.toList_ofList, unquoted, List.filter_eq_self]
    simp only [decide_eq_true_eq, List.forall_mem_ne']
  have hmap : fields.map (fun f => String.ofList (unquoted f.toList)) = fields ↔
      ∀ f ∈ fields, '"' ∉ f.toList := by
    have hinj := List.map_inj_left (l := fields) (f := fun f => String.ofList (unquoted f.toList))
      (g := id)
    simpa only [List.map_id, id, hself] using hinj
  rw [hread]
  split
  · next hempty =>
      constructor
      · exact fun h => absurd h.symm hne
      · rintro ⟨hquotes, hsingle⟩
        exact absurd (hmap.mpr hquotes ▸ hempty.2) hsingle
  · next hempty =>
      rw [hmap]
      refine ⟨fun hquotes => ⟨hquotes, ?_⟩, And.left⟩
      rintro rfl
      exact hempty ⟨rfl, hmap.mpr hquotes⟩

theorem parseCsvLine_row_rent :
    parseCsvLine (Csv.row Csv.quoteField ["2024-01-31", "Rent, \"January\"", "-950.00"]) =
        ["2024-01-31", "Rent, \"January\"", "-950.00"] ↔
      (∀ f ∈ ["2024-01-31", "Rent, \"January\"", "-950.00"], '"' ∉ f.toList) ∧
        ["2024-01-31", "Rent, \"January\"", "-950.00"] ≠ [""] :=
  parseCsvLine_row_iff (by decide)

/-- Quotes inside a field are lost. -/
theorem parseCsvLine_quotes_lost :
    parseCsvLine (Csv.row Csv.quoteField ["a\"b"]) = ["ab"] ∧
      parseCsvLine (Csv.row Csv.quoteField ["a\"b"]) ≠ ["a\"b"] := by
  decide

end OpenAccounting.ImportWizard
