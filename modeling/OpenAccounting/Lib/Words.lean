import OpenAccounting.Lib.RustStr
import Mathlib.Data.List.Infix

/-!
# Texts word by word

White space is collapsed when the words of a text are joined with a blank between them.  This keeps
the words, and what occurs in a text without white space occurs in a word.
-/

namespace RustStr

/-- The words of a text, with a blank between them. -/
def collapse (s : String) : String := " ".intercalate (splitWhitespace s)

/-- Not empty, and without white space. -/
def IsWord (w : String) : Prop := w ≠ "" ∧ ∀ c ∈ w.toList, isWhitespace c = false

theorem splitWhitespace_nil : splitWhitespace "" = [] := by
  simp [splitWhitespace]

theorem splitWhitespace_last {w : String} (hw : IsWord w) :
    splitWhitespace (String.ofList w.toList) = [w] := by
  have hlist : w.toList ≠ [] := fun h => hw.1 (String.toList_inj.mp h)
  have hsplit := List.splitOnP_eq_singleton (p := isWhitespace) hw.2
  simp [splitWhitespace, hsplit, hlist]

/-- A text is empty, or starts with white space, or with a word that ends with it or in front of
white space. -/
theorem words_induction {motive : List Char → Prop} (nil : motive [])
    (blank : ∀ c cs, isWhitespace c = true → motive cs → motive (c :: cs))
    (last : ∀ w, IsWord w → motive w.toList)
    (word : ∀ w c cs, IsWord w → isWhitespace c = true → motive cs → motive (w.toList ++ c :: cs))
    (cs : List Char) : motive cs := by
  induction hlen : cs.length using Nat.strong_induction_on generalizing cs with
  | _ n ih =>
    cases cs with
    | nil => exact nil
    | cons c cs =>
      rw [List.length_cons] at hlen
      by_cases hc : isWhitespace c = true
      · exact blank c cs hc (ih cs.length (by omega) cs rfl)
      · have hsplit := List.takeWhile_append_dropWhile (p := fun d => !isWhitespace d) (l := cs)
        have hword : IsWord (String.ofList (c :: cs.takeWhile fun d => !isWhitespace d)) := by
          refine ⟨fun hnil => ?_, fun d hd => ?_⟩
          · have hlist := congrArg String.toList hnil
            simp at hlist
          · rw [String.toList_ofList, List.mem_cons] at hd
            rcases hd with rfl | hd
            · exact Bool.not_eq_true _ ▸ hc
            · simpa using List.mem_takeWhile_imp hd
        cases hrest : cs.dropWhile fun d => !isWhitespace d with
        | nil =>
          have hlast := last _ hword
          rw [hrest, List.append_nil] at hsplit
          rwa [String.toList_ofList, hsplit] at hlast
        | cons d ds =>
          have hd : isWhitespace d = true := by
            have hhead := List.head?_dropWhile_not (fun d => !isWhitespace d) cs
            rw [hrest] at hhead
            simpa using hhead
          have hds := congrArg List.length hsplit
          rw [hrest, List.length_append, List.length_cons] at hds
          have hnext := word _ d ds hword hd (ih ds.length (by omega) ds rfl)
          rwa [String.toList_ofList, List.cons_append, ← hrest, hsplit] at hnext

theorem splitWhitespace_words {w : String} {c : Char} (hw : IsWord w) (hc : isWhitespace c = true)
    (cs : List Char) : splitWhitespace (String.ofList (w.toList ++ c :: cs)) =
      w :: splitWhitespace (String.ofList cs) :=
  splitWhitespace_word hw.1 hw.2 hc cs

theorem isWord_of_mem {cs : List Char} {w : String} (h : w ∈ splitWhitespace (String.ofList cs)) :
    IsWord w := by
  induction cs using words_induction with
  | nil => simp [splitWhitespace_nil] at h
  | blank c cs hc ih =>
    rw [splitWhitespace_cons hc] at h
    exact ih h
  | last v hv =>
    rw [splitWhitespace_last hv] at h
    exact List.mem_singleton.mp h ▸ hv
  | word v c cs hv hc ih =>
    rw [splitWhitespace_words hv hc] at h
    rcases List.mem_cons.mp h with rfl | h
    · exact hv
    · exact ih h

theorem subset_of_mem_splitWhitespace {cs : List Char} {w : String}
    (h : w ∈ splitWhitespace (String.ofList cs)) : w.toList ⊆ cs := by
  induction cs using words_induction with
  | nil => simp [splitWhitespace_nil] at h
  | blank c cs hc ih =>
    rw [splitWhitespace_cons hc] at h
    exact List.subset_cons_of_subset c (ih h)
  | last v hv =>
    rw [splitWhitespace_last hv] at h
    rw [List.mem_singleton.mp h]
    exact List.Subset.refl _
  | word v c cs hv hc ih =>
    rw [splitWhitespace_words hv hc] at h
    rcases List.mem_cons.mp h with rfl | h
    · exact List.subset_append_left _ _
    · exact List.subset_append_of_subset_right _ (List.subset_cons_of_subset c (ih h))

theorem infix_append_cons {α : Type} {p x y : List α} {c : α} (hc : c ∉ p) :
    p <:+: x ++ c :: y ↔ p <:+: x ∨ p <:+: y := by
  constructor
  · rintro ⟨u, v, huv⟩
    rw [List.append_assoc] at huv
    rcases List.append_eq_append_iff.mp huv with ⟨t, rfl, ht⟩ | ⟨t, rfl, ht⟩
    · rcases List.append_eq_append_iff.mp ht with ⟨r, rfl, -⟩ | ⟨r, rfl, hr⟩
      · exact .inl ⟨u, r, by simp⟩
      · cases r with
        | nil => exact .inl ⟨u, [], by simp⟩
        | cons d r =>
          obtain ⟨rfl, -⟩ := List.cons.inj hr
          exact absurd (by simp) hc
    · cases t with
      | nil =>
        cases p with
        | nil => exact .inl (List.nil_infix)
        | cons d p =>
          obtain ⟨rfl, -⟩ := List.cons.inj ht
          exact absurd List.mem_cons_self hc
      | cons d t =>
        obtain ⟨-, hy⟩ := List.cons.inj ht
        exact .inr ⟨t, v, (List.append_assoc t p v).trans hy.symm⟩
  · rintro (⟨u, v, rfl⟩ | ⟨u, v, rfl⟩)
    · exact ⟨u, v ++ c :: y, by simp⟩
    · exact ⟨x ++ c :: u, v, by simp⟩

/-- Characters that a list does not have are not a part of its occurrences. -/
theorem infix_foreign_append {α : Type} {p x y : List α} (hp : p ≠ []) (hx : ∀ c ∈ x, c ∉ p) :
    p <:+: x ++ y ↔ p <:+: y := by
  induction x with
  | nil => rfl
  | cons c x ih =>
    obtain ⟨hc, hx⟩ := List.forall_mem_cons.mp hx
    have hcons : p <:+: [] ++ c :: (x ++ y) ↔ p <:+: [] ∨ p <:+: x ++ y := infix_append_cons hc
    rw [List.infix_nil, or_iff_right hp, ih hx] at hcons
    exact hcons

/-- What has no white space occurs in a text exactly if it does in a word. -/
theorem infix_iff_word {p cs : List Char} (hp : p ≠ []) (hsolid : ∀ c ∈ p, isWhitespace c = false) :
    p <:+: cs ↔ ∃ w ∈ splitWhitespace (String.ofList cs), p <:+: w.toList := by
  have hnot : ∀ {c}, isWhitespace c = true → c ∉ p := by
    intro c hc hmem
    rw [hsolid c hmem] at hc
    cases hc
  induction cs using words_induction with
  | nil => simp [splitWhitespace_nil, hp]
  | blank c cs hc ih =>
    have hcons : p <:+: [] ++ c :: cs ↔ p <:+: [] ∨ p <:+: cs := infix_append_cons (hnot hc)
    rw [splitWhitespace_cons hc]
    refine Iff.trans ?_ ih
    simpa [hp] using hcons
  | last w hw =>
    rw [splitWhitespace_last hw]
    simp
  | word w c cs hw hc ih =>
    rw [splitWhitespace_words hw hc, infix_append_cons (hnot hc), List.exists_mem_cons_iff]
    exact or_congr_right ih

/-! ## Joining words -/

section

variable {ws : List String}

theorem toList_intercalate_cons (w : String) (ws : List String) :
    (" ".intercalate (w :: ws)).toList =
      w.toList ++ if ws = [] then [] else ' ' :: (" ".intercalate ws).toList := by
  by_cases hws : ws = []
  · simp [hws]
  · rw [if_neg hws, String.intercalate_cons_of_ne_nil hws]
    simp

theorem splitWhitespace_intercalate (h : ∀ w ∈ ws, IsWord w) :
    splitWhitespace (" ".intercalate ws) = ws := by
  induction ws with
  | nil => rw [String.intercalate_nil, splitWhitespace_nil]
  | cons w ws ih =>
    obtain ⟨hw, hws⟩ := List.forall_mem_cons.mp h
    rw [← String.ofList_toList (s := " ".intercalate (w :: ws)), toList_intercalate_cons]
    by_cases hnil : ws = []
    · rw [if_pos hnil, List.append_nil, splitWhitespace_last hw, hnil]
    · rw [if_neg hnil, splitWhitespace_words hw (by decide), String.ofList_toList, ih hws]

theorem count_intercalate {c : Char} (hc : c ≠ ' ') (ws : List String) :
    (" ".intercalate ws).toList.count c = (ws.map fun w => w.toList.count c).sum := by
  induction ws with
  | nil => simp
  | cons w ws ih =>
    rw [toList_intercalate_cons, List.count_append, List.map_cons, List.sum_cons, ← ih]
    by_cases hnil : ws = []
    · simp [hnil]
    · rw [if_neg hnil, List.count_cons_of_ne hc.symm]

theorem exists_mem_of_mem_intercalate {c : Char} (hc : c ≠ ' ')
    (h : c ∈ (" ".intercalate ws).toList) : ∃ w ∈ ws, c ∈ w.toList := by
  rw [← List.count_pos_iff, count_intercalate hc] at h
  by_contra hnone
  have hzero : ∀ n ∈ ws.map fun w => w.toList.count c, n = 0 := by
    intro n hn
    obtain ⟨w, hw, rfl⟩ := List.mem_map.mp hn
    exact List.count_eq_zero.mpr fun hmem => hnone ⟨w, hw, hmem⟩
  exact absurd (List.sum_eq_zero_iff_forall_eq_nat.mpr hzero) h.ne'

theorem trim_intercalate (h : ∀ w ∈ ws, IsWord w) :
    trim (" ".intercalate ws) = " ".intercalate ws := by
  have hends : ws ≠ [] → StartsSolid (" ".intercalate ws) ∧ EndsSolid (" ".intercalate ws) := by
    induction ws with
    | nil => exact fun hne => absurd rfl hne
    | cons w ws ih =>
      intro
      obtain ⟨hw, hws⟩ := List.forall_mem_cons.mp h
      have hstarts := startsSolid_of_forall hw.1 hw.2
      by_cases hnil : ws = []
      · rw [hnil, String.intercalate_singleton]
        exact ⟨hstarts, endsSolid_of_forall hw.1 hw.2⟩
      · rw [String.intercalate_cons_of_ne_nil hnil, String.append_assoc]
        refine ⟨hstarts.append _, ?_⟩
        rw [← String.append_assoc]
        exact (ih hws hnil).2.append _
  cases ws with
  | nil => rfl
  | cons w ws =>
    obtain ⟨hstarts, hend⟩ := hends (List.cons_ne_nil w ws)
    rw [hstarts.trim, hend.trimEnd]

end

/-! ## Collapsed texts -/

section

variable (s : String)

theorem isWord_words : ∀ w ∈ splitWhitespace s, IsWord w := by
  intro w hw
  rw [← String.ofList_toList (s := s)] at hw
  exact isWord_of_mem hw

theorem splitWhitespace_collapse : splitWhitespace (collapse s) = splitWhitespace s :=
  splitWhitespace_intercalate (isWord_words s)

theorem collapse_collapse : collapse (collapse s) = collapse s :=
  congrArg (fun ws => " ".intercalate ws) (splitWhitespace_collapse s)

theorem trim_collapse : trim (collapse s) = collapse s := trim_intercalate (isWord_words s)

theorem infix_collapse {p : List Char} (hp : p ≠ []) (hsolid : ∀ c ∈ p, isWhitespace c = false) :
    p <:+: (collapse s).toList ↔ p <:+: s.toList := by
  rw [infix_iff_word hp hsolid, infix_iff_word hp hsolid, String.ofList_toList,
    String.ofList_toList, splitWhitespace_collapse]

theorem count_collapse {c : Char} (hc : isWhitespace c = false) :
    (collapse s).toList.count c = s.toList.count c := by
  have hne : c ≠ ' ' := by
    rintro rfl
    cases hc
  rw [collapse, count_intercalate hne, ← String.ofList_toList (s := s)]
  generalize s.toList = cs
  rw [String.toList_ofList]
  induction cs using words_induction with
  | nil => simp [splitWhitespace_nil]
  | blank d cs hd ih =>
    have hcd : d ≠ c := by
      rintro rfl
      rw [hd] at hc
      cases hc
    rw [splitWhitespace_cons hd, ih, List.count_cons_of_ne hcd]
  | last w hw =>
    rw [splitWhitespace_last hw]
    simp
  | word w d cs hw hd ih =>
    have hcd : d ≠ c := by
      rintro rfl
      rw [hd] at hc
      cases hc
    rw [splitWhitespace_words hw hd, List.map_cons, List.sum_cons, ih, List.count_append,
      List.count_cons_of_ne hcd]

theorem mem_collapse {c : Char} (h : c ∈ (collapse s).toList) : c = ' ' ∨ c ∈ s.toList := by
  by_cases hc : c = ' '
  · exact .inl hc
  · have hword : isWhitespace c = false := by
      obtain ⟨w, hw, hcw⟩ := exists_mem_of_mem_intercalate hc h
      exact (isWord_words s w hw).2 c hcw
    have hcount := count_collapse s hword
    right
    rw [← List.count_pos_iff, ← hcount, List.count_pos_iff]
    exact h

end

end RustStr
