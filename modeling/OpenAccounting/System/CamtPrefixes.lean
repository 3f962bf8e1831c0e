import OpenAccounting.Import.Statement
import OpenAccounting.Lib.Xml

/-!
# Prefixes in a CAMT statement

Banks put a prefix in front of the names of all elements, or none.  The prefixes are taken off by a
scan of the text, which looks for a colon behind each `<`.  Behind a name without a prefix something
stands in between that cannot be a part of a prefix.
-/

namespace OpenAccounting.Import.Statement.Camt

open RustStr Xml

/-- The name of an element. -/
@[ext] structure Name where
  chars : List Char
  filled : chars ≠ [] := by decide
  plain : ∀ c ∈ chars, c.isAlphanum = true := by decide

instance : DecidableEq Name := fun _ _ => decidable_of_iff _ Name.ext_iff.symm

/-- A prefix of names. -/
structure Prefix where
  chars : List Char
  filled : chars ≠ [] := by decide
  plain : ∀ c ∈ chars, isPrefixChar c = true := by decide

/-- A name, with a prefix or without. -/
def spell (pre : Option Prefix) (n : Name) : List Char :=
  (pre.elim [] fun p => p.chars ++ [':']) ++ n.chars

/-! ## Characters -/

theorem isPrefixChar_of_endsName {c : Char} (h : EndsName c) : isPrefixChar c = false := by
  rw [← Bool.not_eq_true]
  intro hc
  simp only [isPrefixChar, Bool.or_eq_true, beq_iff_eq] at hc
  rcases hc with ((halnum | rfl) | rfl) | rfl
  · rcases h with hmem | hblank
    · simp only [List.mem_cons, List.not_mem_nil, or_false] at hmem
      rcases hmem with rfl | rfl | rfl | rfl <;> cases halnum
    · rw [isWhitespace_of_isAlphanum halnum] at hblank
      cases hblank
  · exact absurd h (by simp [EndsName, isWhitespace])
  · exact absurd h (by simp [EndsName, isWhitespace])
  · exact absurd h (by simp [EndsName, isWhitespace])

theorem ne_of_endsName {c : Char} (h : EndsName c) : c ≠ ':' := by
  rintro rfl
  exact absurd h (by simp [EndsName, isWhitespace])

theorem Prefix.ne (p : Prefix) {c d : Char} (hc : c ∈ p.chars) (hd : isPrefixChar d = false) :
    c ≠ d := by
  rintro rfl
  rw [p.plain c hc] at hd
  cases hd

theorem Name.ne (n : Name) {c d : Char} (hc : c ∈ n.chars) (hd : d.isAlphanum = false) : c ≠ d := by
  rintro rfl
  rw [n.plain c hc] at hd
  cases hd

/-! ## Tags -/

section

variable {n : Name} {rest : List Char}

/-- A name without a prefix stays as it is, whatever colons there are behind it. -/
theorem afterPrefix_name (hrest : ∃ c cs, rest = c :: cs ∧ EndsName c) :
    afterPrefix (n.chars ++ rest) = n.chars ++ rest := by
  obtain ⟨c, cs, rfl, hc⟩ := hrest
  rw [afterPrefix]
  split
  · next name behind hcut =>
      obtain ⟨htext, -⟩ := cutAt_eq_some.mp hcut
      have hmem : c ∈ name := by
        rcases List.append_eq_append_iff.mp htext with ⟨front, rfl, hfront⟩ | ⟨front, hname, hfront⟩
        · cases front with
          | nil => exact absurd (List.cons.inj hfront).1 (ne_of_endsName hc)
          | cons d front =>
            rw [(List.cons.inj hfront).1]
            simp
        · cases front with
          | nil => exact absurd (List.cons.inj hfront).1.symm (ne_of_endsName hc)
          | cons d front =>
            have hcolon : ':' ∈ n.chars := by
              rw [hname, (List.cons.inj hfront).1]
              simp
            exact absurd rfl (n.ne hcolon (by decide))
      refine if_neg fun h => ?_
      have hprefix := List.all_eq_true.mp h.2 c hmem
      rw [isPrefixChar_of_endsName hc] at hprefix
      cases hprefix
  · rfl

theorem afterPrefix_spell (pre : Option Prefix) (hrest : ∃ c cs, rest = c :: cs ∧ EndsName c) :
    afterPrefix (spell pre n ++ rest) = n.chars ++ rest := by
  cases pre with
  | none => exact afterPrefix_name hrest
  | some p =>
    have hcolon : ':' ∉ p.chars := fun h => p.ne h (by decide) rfl
    have hcut : cutAt ':' (spell (some p) n ++ rest) = some (p.chars, n.chars ++ rest) := by
      refine cutAt_eq_some.mpr ⟨?_, hcolon⟩
      simp [spell]
    have hall : p.chars.all isPrefixChar = true := List.all_eq_true.mpr p.plain
    rw [afterPrefix, hcut]
    exact if_pos ⟨p.filled, hall⟩

theorem stripPrefixes_text {t : List Char} (ht : ∀ c ∈ t, c ≠ '<') (rest : List Char) :
    stripPrefixes (t ++ rest) = t ++ stripPrefixes rest := by
  induction t with
  | nil => rfl
  | cons c t ih =>
    obtain ⟨hc, ht⟩ := List.forall_mem_cons.mp ht
    rw [List.cons_append, stripPrefixes, ih ht, List.cons_append]
    · exact fun _ h _ => hc h
    · exact fun h => hc h

theorem stripPrefixes_close (pre : Option Prefix) (hrest : ∃ c cs, rest = c :: cs ∧ EndsName c) :
    stripPrefixes ('<' :: '/' :: (spell pre n ++ rest)) =
      '<' :: '/' :: (n.chars ++ stripPrefixes rest) := by
  have hname : ∀ c ∈ n.chars, c ≠ '<' := fun c hc => n.ne hc (by decide)
  rw [stripPrefixes, afterPrefix_spell pre hrest, stripPrefixes_text hname]

theorem stripPrefixes_open (pre : Option Prefix) (hrest : ∃ c cs, rest = c :: cs ∧ EndsName c) :
    stripPrefixes ('<' :: (spell pre n ++ rest)) = '<' :: (n.chars ++ stripPrefixes rest) := by
  have hname : ∀ c ∈ n.chars, c ≠ '<' := fun c hc => n.ne hc (by decide)
  rw [stripPrefixes, afterPrefix_spell pre hrest, stripPrefixes_text hname]
  intro cs heq
  cases pre with
  | none =>
    obtain ⟨c, ds, hc⟩ := List.exists_cons_of_ne_nil n.filled
    rw [spell, Option.elim_none, List.nil_append, hc, List.cons_append] at heq
    exact n.ne (hc ▸ List.mem_cons_self) (by decide) (List.cons.inj heq).1
  | some p =>
    obtain ⟨c, ds, hc⟩ := List.exists_cons_of_ne_nil p.filled
    rw [spell, Option.elim_some, hc, List.cons_append, List.cons_append, List.cons_append] at heq
    exact p.ne (hc ▸ List.mem_cons_self) (by decide) (List.cons.inj heq).1

theorem stripPrefixes_instruction (rest : List Char) :
    stripPrefixes ('<' :: '?' :: rest) = '<' :: '?' :: stripPrefixes rest := by
  have hsame : afterPrefix ('?' :: rest) = '?' :: rest := by
    rw [afterPrefix]
    split
    · next name behind hcut =>
        obtain ⟨htext, -⟩ := cutAt_eq_some.mp hcut
        cases name with
        | nil => cases htext
        | cons c name =>
          obtain ⟨rfl, -⟩ := List.cons.inj htext
          exact if_neg fun h => absurd (List.all_eq_true.mp h.2 '?' List.mem_cons_self) (by decide)
    · rfl
  have hmark : ∀ c ∈ ['?'], c ≠ '<' := by decide
  rw [stripPrefixes, hsame]
  · exact congrArg _ (stripPrefixes_text hmark rest)
  · exact fun _ h => absurd (List.cons.inj h).1 (by decide)

end

/-! ## Documents -/

/-- The prefixes of a document are taken off, and nothing else of it. -/
theorem stripPrefixes_append (pre : Option Prefix) (doc : Forest Name) (rest : List Char) :
    stripPrefixes (doc.render (spell pre) ++ rest) =
      doc.render (spell none) ++ stripPrefixes rest := by
  have htext : ∀ (t : Text) r, stripPrefixes (t.chars ++ r) = t.chars ++ stripPrefixes r :=
    fun t r => stripPrefixes_text (fun c hc => (t.plain c hc).1) r
  have hattributes : ∀ (a : Attributes) r, stripPrefixes (a.chars ++ r) = a.chars ++ stripPrefixes r :=
    fun a r => stripPrefixes_text (fun c hc => (a.plain c hc).1) r
  have hend : ∀ r, stripPrefixes ('>' :: r) = '>' :: stripPrefixes r :=
    stripPrefixes_text (t := ['>']) (by decide)
  have hinstruction : ∀ r, stripPrefixes ('?' :: '>' :: r) = '?' :: '>' :: stripPrefixes r :=
    stripPrefixes_text (t := ['?', '>']) (by decide)
  have hempty : ∀ r, stripPrefixes ('/' :: '>' :: r) = '/' :: '>' :: stripPrefixes r :=
    stripPrefixes_text (t := ['/', '>']) (by decide)
  have hbehind : ∀ (a : Attributes) d r, EndsName d →
      ∃ c cs, a.chars ++ d :: r = c :: cs ∧ EndsName c := by
    intro a d r hd
    obtain ⟨c, cs, hcs⟩ := List.exists_cons_of_ne_nil (List.append_ne_nil_of_right_ne_nil a.chars
      (List.cons_ne_nil d r))
    exact ⟨c, cs, hcs, a.head_append hd c (by rw [hcs]; rfl)⟩
  have hslash : EndsName '/' := .inl (by decide)
  have hclose : EndsName '>' := .inl (by decide)
  induction doc generalizing rest with
  | last t => exact htext t rest
  | instruction t body next ih =>
    simp only [Forest.render, List.append_assoc, List.cons_append]
    rw [htext, stripPrefixes_instruction, htext, hinstruction, ih]
  | empty t n a next ih =>
    simp only [Forest.render, List.append_assoc, List.cons_append]
    rw [htext, stripPrefixes_open pre (hbehind a '/' _ hslash), hattributes, hempty, ih]
    rfl
  | element t n a children next ihc ih =>
    simp only [Forest.render, List.append_assoc, List.cons_append]
    rw [htext, stripPrefixes_open pre (hbehind a '>' _ hclose), hattributes, hend, ihc,
      stripPrefixes_close pre ⟨'>', _, rfl, hclose⟩, hend, ih]
    rfl

theorem stripPrefixes_render (pre : Option Prefix) (doc : Forest Name) :
    stripPrefixes (doc.render (spell pre)) = doc.render (spell none) := by
  have happend := stripPrefixes_append pre doc []
  rwa [List.append_nil, stripPrefixes, List.append_nil] at happend

/-- A document with one prefix, or with none, is read as the document without prefixes. -/
theorem prefix_independent (pre : Option Prefix) (doc : Forest Name) :
    stripPrefixes (doc.render (spell pre)) = doc.render (spell none) ∧
      ∀ lib, parse lib (String.ofList (doc.render (spell pre))) =
        parse lib (String.ofList (doc.render (spell none))) := by
  refine ⟨stripPrefixes_render pre doc, fun lib => ?_⟩
  rw [parse, parse, String.toList_ofList, String.toList_ofList, stripPrefixes_render,
    stripPrefixes_render]

end OpenAccounting.Import.Statement.Camt
