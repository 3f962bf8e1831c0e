import Mathlib.Data.List.Infix
import Mathlib.Data.List.Nodup
import Mathlib.Data.List.Count

/-!
# Removing words

The occurrences of a word are removed from left to right, and then those of the next word.  What
remains may have one of the words in it again, as its characters have come together when what was
between them was removed.  `exists_infix_removeAll_iff` says of which texts this is so, for words
that have no character in common, with themselves or with each other.
-/

namespace Removal

variable {α : Type}

/-! ## Words with gaps -/

/-- A word, with texts between its characters. -/
inductive Spread (gap : List α → Prop) : List α → List α → Prop where
  | single (c : α) : Spread gap [c] [c]
  | cons (c : α) {g p x : List α} : gap g → Spread gap p x → Spread gap (c :: p) (c :: (g ++ x))

namespace Spread

variable {gap gap' : List α → Prop} {p x : List α}

theorem ne_nil (h : Spread gap p x) : p ≠ [] := by
  cases h <;> simp

theorem length_le (h : Spread gap p x) : p.length ≤ x.length := by
  induction h with
  | single c => exact le_rfl
  | cons c hg h ih =>
    rw [List.length_cons, List.length_cons, List.length_append]
    omega

theorem mono (h : Spread gap p x) (hgap : ∀ g, gap g → gap' g) : Spread gap' p x := by
  induction h with
  | single c => exact .single c
  | cons c hg h ih => exact .cons c (hgap _ hg) ih

theorem eq_of_nil (h : Spread (fun g => g = []) p x) : x = p := by
  induction h with
  | single c => rfl
  | cons c hg h ih => rw [hg, ih, List.nil_append]

theorem of_nil (hgap : gap []) (hp : p ≠ []) : Spread gap p p := by
  induction p with
  | nil => exact absurd rfl hp
  | cons c p ih =>
    cases p with
    | nil => exact .single c
    | cons d p => exact .cons c hgap (ih (List.cons_ne_nil d p))

theorem exists_gap (h : Spread gap p x) (hne : x ≠ p) :
    ∃ q g r y, p = q ++ r ∧ q ≠ [] ∧ r ≠ [] ∧ x = q ++ (g ++ y) ∧ g ≠ [] ∧ gap g ∧
      Spread gap r y := by
  induction h with
  | single c => exact absurd rfl hne
  | @cons c g p x hg h ih =>
    by_cases hnil : g = []
    · subst hnil
      obtain ⟨q, g, r, y, rfl, -, hr, rfl, hgne, hgap, hy⟩ := ih fun heq => hne (by rw [heq]; rfl)
      exact ⟨c :: q, g, r, y, rfl, List.cons_ne_nil _ _, hr, rfl, hgne, hgap, hy⟩
    · exact ⟨[c], g, p, x, rfl, List.cons_ne_nil _ _, h.ne_nil, rfl, hnil, hg, h⟩

theorem append (hgap : gap []) {q g r y : List α} (hq : q ≠ []) (hg : gap g) (h : Spread gap r y) :
    Spread gap (q ++ r) (q ++ (g ++ y)) := by
  induction q with
  | nil => exact absurd rfl hq
  | cons c q ih =>
    cases q with
    | nil =>
      show Spread gap (c :: r) (c :: (g ++ y))
      exact .cons c hg h
    | cons d q =>
      show Spread gap (c :: (d :: q ++ r)) (c :: ([] ++ (d :: q ++ (g ++ y))))
      exact .cons c hgap (ih (List.cons_ne_nil _ _))

end Spread

/-- Words that have no character in common, with themselves or with each other. -/
structure Separate (ps : List (List α)) : Prop where
  filled : ∀ p ∈ ps, p ≠ [] := by decide
  distinct : ∀ p ∈ ps, p.Nodup := by decide
  apart : ps.Pairwise (fun p q => ∀ c ∈ p, c ∉ q) := by decide

namespace Separate

variable {before after : List (List α)} {p : List α} (h : Separate (before ++ p :: after))

include h

theorem word : p ≠ [] ∧ p.Nodup :=
  ⟨h.filled p (by simp), h.distinct p (by simp)⟩

theorem front : (∀ w ∈ before, w ≠ []) ∧ ∀ w ∈ before, ∀ c ∈ p, c ∉ w := by
  refine ⟨fun w hw => h.filled w (by simp [hw]), fun w hw c hc hcw => ?_⟩
  exact (List.pairwise_append.mp h.apart).2.2 w hw p List.mem_cons_self c hcw hc

theorem back : (∀ w ∈ after, w ≠ []) ∧ ∀ w ∈ after, ∀ c ∈ p, c ∉ w := by
  refine ⟨fun w hw => h.filled w (by simp [hw]), fun w hw c hc hcw => ?_⟩
  have hapart := (List.pairwise_append.mp h.apart).2.1
  exact (List.pairwise_cons.mp hapart).1 w hw c hc hcw

end Separate

/-! ## Removing -/

variable [DecidableEq α]

/-- The text behind the next `skip` characters without the occurrences of a word. -/
def removeFrom (p : List α) : ℕ → List α → List α
  | _, [] => []
  | skip + 1, _ :: cs => removeFrom p skip cs
  | 0, c :: cs =>
    if p.isPrefixOf (c :: cs) = true then removeFrom p (p.length - 1) cs
    else c :: removeFrom p 0 cs

def remove (p cs : List α) : List α := removeFrom p 0 cs

/-- The words are removed one after the other. -/
def removeAll (ps : List (List α)) (cs : List α) : List α := ps.foldl (fun cs p => remove p cs) cs

/-! ## One word -/

section

variable {p cs : List α} {c : α}

@[simp] theorem remove_nil (p : List α) : remove p [] = [] := rfl

theorem removeFrom_append (p : List α) (cs : List α) : ∀ front : List α,
    removeFrom p front.length (front ++ cs) = remove p cs
  | [] => rfl
  | _ :: front => removeFrom_append p cs front

theorem remove_word (hp : p ≠ []) (cs : List α) : remove p (p ++ cs) = remove p cs := by
  obtain ⟨c, q, rfl⟩ := List.exists_cons_of_ne_nil hp
  have hprefix : (c :: q).isPrefixOf (c :: (q ++ cs)) = true :=
    List.isPrefixOf_iff_prefix.mpr (List.prefix_append (c :: q) cs)
  rw [remove, List.cons_append, removeFrom, if_pos hprefix]
  exact removeFrom_append (c :: q) cs q

theorem remove_keep (h : ¬ p <+: c :: cs) : remove p (c :: cs) = c :: remove p cs := by
  have hprefix : ¬ p.isPrefixOf (c :: cs) = true := fun hp => h (List.isPrefixOf_iff_prefix.mp hp)
  rw [remove, removeFrom, if_neg hprefix]
  rfl

/-- A text is empty, or starts with the word, or its first character is kept. -/
theorem remove_induction (hp : p ≠ []) {motive : List α → Prop} (nil : motive [])
    (word : ∀ cs, motive cs → motive (p ++ cs))
    (keep : ∀ c cs, ¬ p <+: c :: cs → motive cs → motive (c :: cs)) (cs : List α) : motive cs := by
  induction hlen : cs.length using Nat.strong_induction_on generalizing cs with
  | _ n ih =>
    by_cases hprefix : p <+: cs
    · obtain ⟨rest, rfl⟩ := hprefix
      have hpos := List.length_pos_iff.mpr hp
      rw [List.length_append] at hlen
      exact word rest (ih rest.length (by omega) rest rfl)
    · cases cs with
      | nil => exact nil
      | cons c cs =>
        rw [List.length_cons] at hlen
        exact keep c cs hprefix (ih cs.length (by omega) cs rfl)

/-- A character of what remains is one of the text, and what is in front of it and behind it comes
from what is in front of it and behind it there. -/
theorem exists_of_remove (hp : p ≠ []) {u v : List α} (h : remove p cs = u ++ c :: v) :
    ∃ a b, cs = a ++ c :: b ∧ remove p a = u ∧ remove p b = v := by
  induction cs using remove_induction hp generalizing u with
  | nil => simp at h
  | word cs ih =>
    rw [remove_word hp] at h
    obtain ⟨a, b, rfl, ha, hb⟩ := ih h
    exact ⟨p ++ a, b, by simp, by rw [remove_word hp, ha], hb⟩
  | keep d cs hd ih =>
    rw [remove_keep hd] at h
    cases u with
    | nil =>
      obtain ⟨rfl, htail⟩ := List.cons.inj h
      exact ⟨[], cs, rfl, rfl, htail⟩
    | cons e u =>
      obtain ⟨rfl, htail⟩ := List.cons.inj h
      obtain ⟨a, b, rfl, ha, hb⟩ := ih htail
      refine ⟨d :: a, b, rfl, ?_, hb⟩
      rw [remove_keep fun hprefix => hd ?_, ha]
      exact hprefix.trans (List.prefix_append (d :: a) (c :: b))

/-- No occurrence of the word goes from one text into the next one. -/
def Apart (p x y : List α) : Prop :=
  ∀ s t, p = s ++ t → s ≠ [] → t ≠ [] → s <:+ x → ¬ t <+: y

theorem remove_append (hp : p ≠ []) {x y : List α} (h : Apart p x y) :
    remove p (x ++ y) = remove p x ++ remove p y := by
  induction x using remove_induction hp with
  | nil => rfl
  | word x ih =>
    have hx : Apart p x y := fun s t hst hs ht hsuffix =>
      h s t hst hs ht (hsuffix.trans (List.suffix_append p x))
    rw [List.append_assoc, remove_word hp, remove_word hp, ih hx]
  | keep c x hc ih =>
    have hx : Apart p x y := fun s t hst hs ht hsuffix =>
      h s t hst hs ht (hsuffix.trans (List.suffix_cons c x))
    have hkeep : ¬ p <+: c :: (x ++ y) := by
      intro hprefix
      obtain ⟨rest, hrest⟩ := hprefix
      rw [← List.cons_append] at hrest
      rcases List.append_eq_append_iff.mp hrest with ⟨t, hx, -⟩ | ⟨t, hword, ht⟩
      · exact hc ⟨t, hx.symm⟩
      · rcases List.eq_nil_or_concat t with rfl | ⟨t', e, rfl⟩
        · exact hc ⟨[], by rw [hword]; simp⟩
        · exact h _ _ hword (List.cons_ne_nil c x) (by simp) (List.suffix_refl _) ⟨rest, ht.symm⟩
    rw [List.cons_append, remove_keep hkeep, remove_keep hc, ih hx, List.cons_append]

theorem remove_foreign (hp : p ≠ []) (hc : c ∉ p) (x y : List α) :
    remove p (x ++ c :: y) = remove p x ++ c :: remove p y := by
  have hkeep : ¬ p <+: c :: y := by
    rintro ⟨rest, hrest⟩
    obtain ⟨d, q, rfl⟩ := List.exists_cons_of_ne_nil hp
    exact hc ((List.cons.inj hrest).1 ▸ List.mem_cons_self)
  rw [remove_append hp, remove_keep hkeep]
  rintro s t rfl hs ht - hprefix
  obtain ⟨d, q, rfl⟩ := List.exists_cons_of_ne_nil ht
  obtain ⟨rest, hrest⟩ := hprefix
  exact hc ((List.cons.inj hrest).1 ▸ by simp)

theorem remove_short (h : cs.length < p.length) : remove p cs = cs := by
  induction cs with
  | nil => rfl
  | cons c cs ih =>
    have hlen : cs.length < p.length := Nat.lt_of_succ_lt h
    rw [remove_keep fun hprefix => absurd hprefix.length_le (by omega), ih hlen]

theorem count_remove (hp : p ≠ []) (hc : c ∉ p) (cs : List α) :
    (remove p cs).count c = cs.count c := by
  induction cs using remove_induction hp with
  | nil => rfl
  | word cs ih =>
    rw [remove_word hp, ih, List.count_append, List.count_eq_zero.mpr hc, Nat.zero_add]
  | keep d cs hd ih => rw [remove_keep hd, List.count_cons, List.count_cons, ih]

theorem remove_sublist (hp : p ≠ []) (cs : List α) : (remove p cs).Sublist cs := by
  induction cs using remove_induction hp with
  | nil => exact .slnil
  | word cs ih =>
    rw [remove_word hp]
    exact ih.trans (List.sublist_append_right p cs)
  | keep c cs hc ih =>
    rw [remove_keep hc]
    exact ih.cons_cons c

theorem remove_eq_self (h : ¬ p <:+: cs) : remove p cs = cs := by
  induction cs with
  | nil => rfl
  | cons c cs ih =>
    rw [remove_keep fun hprefix => h hprefix.isInfix,
      ih fun hinside => h (hinside.trans (List.suffix_cons c cs).isInfix)]

theorem remove_occurrence (hnodup : p.Nodup) (hp : p ≠ []) (a b : List α) :
    remove p (a ++ (p ++ b)) = remove p a ++ remove p b := by
  rw [remove_append hp, remove_word hp]
  rintro s t rfl hs ht - hprefix
  obtain ⟨c, q, rfl⟩ := List.exists_cons_of_ne_nil hs
  obtain ⟨d, r, rfl⟩ := List.exists_cons_of_ne_nil ht
  obtain ⟨rest, hrest⟩ := hprefix
  have hsame : d = c := (List.cons.inj hrest).1
  exact (List.disjoint_of_nodup_append hnodup) (a := c) (by simp) (by simp [hsame])

/-- If nothing of a word remains of a text, then the text starts with the start of the word. -/
theorem head_of_remove (hp : p ≠ []) {g : List α} (h : ∀ e ∈ p, e ∉ remove p (c :: g))
    (hc : c ∈ p) : p.head? = some c := by
  by_cases hprefix : p <+: c :: g
  · obtain ⟨d, q, rfl⟩ := List.exists_cons_of_ne_nil hp
    obtain ⟨rest, hrest⟩ := hprefix
    rw [(List.cons.inj hrest).1]
    rfl
  · rw [remove_keep hprefix] at h
    exact absurd List.mem_cons_self (h c hc)

theorem getLast_of_remove (hp : p ≠ []) {g : List α} (h : ∀ e ∈ p, e ∉ remove p (g ++ [c]))
    (hc : c ∈ p) : p.getLast? = some c := by
  by_contra hlast
  have hsingle : ∀ t : List α, t ≠ [] → t <+: [c] → t = [c] := by
    rintro t ht ⟨rest, hrest⟩
    obtain ⟨d, q, rfl⟩ := List.exists_cons_of_ne_nil ht
    obtain ⟨rfl, htail⟩ := List.cons.inj hrest
    rw [(List.append_eq_nil_iff.mp htail).1]
  have happart : Apart p g [c] := by
    rintro s t rfl hs ht - hprefix
    rw [hsingle t ht hprefix] at hlast
    exact hlast (by simp)
  have hkeep : ¬ p <+: [c] := by
    intro hprefix
    rw [hsingle p hp hprefix] at hlast
    exact hlast rfl
  rw [remove_append hp happart, remove_keep hkeep] at h
  exact h c hc (by simp)

end

/-! ## Words one after the other -/

section

variable {ps : List (List α)} {cs : List α}

@[simp] theorem removeAll_nil (ps : List (List α)) : removeAll ps [] = [] := by
  induction ps with
  | nil => rfl
  | cons p ps ih => exact ih

theorem removeAll_append (ps qs : List (List α)) (cs : List α) :
    removeAll (ps ++ qs) cs = removeAll qs (removeAll ps cs) := List.foldl_append

theorem removeAll_foreign {c : α} (hfilled : ∀ p ∈ ps, p ≠ []) (hc : ∀ p ∈ ps, c ∉ p)
    (x y : List α) : removeAll ps (x ++ c :: y) = removeAll ps x ++ c :: removeAll ps y := by
  induction ps generalizing x y with
  | nil => rfl
  | cons p ps ih =>
    obtain ⟨hp, hps⟩ := List.forall_mem_cons.mp hfilled
    obtain ⟨hcp, hcps⟩ := List.forall_mem_cons.mp hc
    show removeAll ps (remove p (x ++ c :: y)) = _
    rw [remove_foreign hp hcp, ih hps hcps]
    rfl

theorem count_removeAll {c : α} (hfilled : ∀ p ∈ ps, p ≠ []) (hc : ∀ p ∈ ps, c ∉ p) (cs : List α) :
    (removeAll ps cs).count c = cs.count c := by
  induction ps generalizing cs with
  | nil => rfl
  | cons p ps ih =>
    obtain ⟨hp, hps⟩ := List.forall_mem_cons.mp hfilled
    obtain ⟨hcp, hcps⟩ := List.forall_mem_cons.mp hc
    exact (ih hps hcps _).trans (count_remove hp hcp cs)

theorem removeAll_sublist (hfilled : ∀ p ∈ ps, p ≠ []) (cs : List α) :
    (removeAll ps cs).Sublist cs := by
  induction ps generalizing cs with
  | nil => exact List.Sublist.refl cs
  | cons p ps ih =>
    obtain ⟨hp, hps⟩ := List.forall_mem_cons.mp hfilled
    exact (ih hps _).trans (remove_sublist hp cs)

theorem removeAll_eq_self (h : ∀ p ∈ ps, ¬ p <:+: cs) : removeAll ps cs = cs := by
  induction ps with
  | nil => rfl
  | cons p ps ih =>
    obtain ⟨hp, hps⟩ := List.forall_mem_cons.mp h
    show removeAll ps (remove p cs) = cs
    rw [remove_eq_self hp, ih hps]

theorem exists_of_removeAll (hfilled : ∀ p ∈ ps, p ≠ []) {u v : List α} {c : α}
    (h : removeAll ps cs = u ++ c :: v) :
    ∃ a b, cs = a ++ c :: b ∧ removeAll ps a = u ∧ removeAll ps b = v := by
  induction ps generalizing cs with
  | nil => exact ⟨u, v, h, rfl, rfl⟩
  | cons p ps ih =>
    obtain ⟨hp, hps⟩ := List.forall_mem_cons.mp hfilled
    obtain ⟨a, b, hremove, rfl, rfl⟩ := ih hps h
    obtain ⟨a', b', hcs, rfl, rfl⟩ := exists_of_remove hp hremove
    exact ⟨a', b', hcs, rfl, rfl⟩

/-- A word that remains comes from one with gaps of which nothing remains. -/
theorem exists_spread (hfilled : ∀ p ∈ ps, p ≠ []) {p u v : List α} (hp : p ≠ [])
    (h : removeAll ps cs = u ++ (p ++ v)) :
    ∃ a x b, cs = a ++ (x ++ b) ∧ Spread (fun g => removeAll ps g = []) p x ∧
      removeAll ps a = u ∧ removeAll ps b = v := by
  induction p generalizing cs u with
  | nil => exact absurd rfl hp
  | cons c p ih =>
    obtain ⟨a, rest, rfl, ha, hrest⟩ := exists_of_removeAll hfilled h
    cases p with
    | nil => exact ⟨a, [c], rest, rfl, .single c, ha, hrest⟩
    | cons d p =>
      obtain ⟨g, x, b, rfl, hx, hg, hb⟩ := ih (List.cons_ne_nil _ _) (u := []) hrest
      exact ⟨a, c :: (g ++ x), b, by simp, .cons c hg hx, ha, hb⟩

theorem Spread.removeAll_foreign {gap : List α → Prop} {p x : List α} (h : Spread gap p x)
    (hfilled : ∀ w ∈ ps, w ≠ []) (hp : ∀ w ∈ ps, ∀ c ∈ p, c ∉ w) :
    ∃ y, Spread (fun g => ∃ g', gap g' ∧ g = removeAll ps g') p y ∧
      (y = p → Spread (fun g => removeAll ps g = []) p x) ∧
      ∀ a b, removeAll ps (a ++ (x ++ b)) = removeAll ps a ++ (y ++ removeAll ps b) := by
  induction h with
  | single c =>
    refine ⟨[c], .single c, fun _ => .single c, fun a b => ?_⟩
    exact Removal.removeAll_foreign hfilled (fun w hw => hp w hw c List.mem_cons_self) a b
  | @cons c g p x hg h ih =>
    obtain ⟨y, hy, hword, hremove⟩ :=
      ih fun w hw d hd => hp w hw d (List.mem_cons_of_mem c hd)
    refine ⟨c :: (removeAll ps g ++ y), .cons c ⟨g, hg, rfl⟩ hy, fun heq => ?_, fun a b => ?_⟩
    · have htail := (List.cons.inj heq).2
      have hlen := congrArg List.length htail
      have hle := hy.length_le
      rw [List.length_append] at hlen
      have hnil : removeAll ps g = [] := List.length_eq_zero_iff.mp (by omega)
      rw [hnil, List.nil_append] at htail
      exact .cons c hnil (hword htail)
    · have hc := Removal.removeAll_foreign hfilled
        (fun w hw => hp w hw c List.mem_cons_self) a (g ++ (x ++ b))
      rw [List.cons_append, List.append_assoc, hc, hremove, List.cons_append, List.append_assoc]

/-- No occurrence of a word goes from a gap of which no character of the word remains into what is
behind it. -/
theorem apart_of_gap {p g : List α} (hnodup : p.Nodup) (h : ∀ e ∈ p, e ∉ remove p g) (y : List α) :
    Apart p g y := by
  rintro s t rfl hs ht ⟨front, rfl⟩ -
  obtain rfl | ⟨s, e, rfl⟩ := List.eq_nil_or_concat s
  · exact hs rfl
  · rw [List.concat_eq_append, ← List.append_assoc] at h
    have hlast := getLast_of_remove (List.append_ne_nil_of_right_ne_nil _ ht) h (by simp)
    rw [List.getLast?_append_of_ne_nil _ ht] at hlast
    exact List.disjoint_of_nodup_append hnodup (by simp) (List.mem_of_getLast? hlast)

theorem apart_gap {p g : List α} (hnodup : p.Nodup) (h : ∀ e ∈ p, e ∉ remove p g) (hg : g ≠ [])
    (x y : List α) : Apart p x (g ++ y) := by
  rintro s t rfl hs ht - ⟨rest, hrest⟩
  obtain ⟨e, g, rfl⟩ := List.exists_cons_of_ne_nil hg
  obtain ⟨d, t, rfl⟩ := List.exists_cons_of_ne_nil ht
  obtain ⟨c, s, rfl⟩ := List.exists_cons_of_ne_nil hs
  obtain ⟨rfl, -⟩ := List.cons.inj hrest
  have hhead : (c :: (s ++ d :: t)).head? = some d :=
    head_of_remove (List.cons_ne_nil _ _) h (by simp)
  rw [List.head?_cons, Option.some.injEq] at hhead
  exact List.disjoint_of_nodup_append hnodup (a := d) (by simp [hhead]) (by simp)

section

variable {p : List α} {gap : List α → Prop} (hnodup : p.Nodup)
  (hgap : ∀ g, gap g → ∀ e ∈ p, e ∉ remove p g)

include hnodup hgap

theorem Spread.remove_tail {q r y : List α} (h : Spread gap r y) (hq : q ≠ []) (hp : p = q ++ r) :
    ∃ y', Spread (fun g => ∃ g', gap g' ∧ g = remove p g') r y' ∧
      ∀ b, remove p (y ++ b) = y' ++ remove p b := by
  have hpne : p ≠ [] := by
    rw [hp]
    exact List.append_ne_nil_of_left_ne_nil hq r
  have hkeep : ∀ {q c r}, q ≠ [] → p = q ++ c :: r → ∀ b, remove p (c :: b) = c :: remove p b := by
    intro q c r hq hp b
    refine remove_keep fun ⟨rest, hrest⟩ => ?_
    obtain ⟨d, q, rfl⟩ := List.exists_cons_of_ne_nil hq
    rw [hp, List.cons_append] at hrest
    rw [hp] at hnodup
    obtain ⟨rfl, -⟩ := List.cons.inj hrest
    exact List.disjoint_of_nodup_append hnodup (a := d) (by simp) (by simp)
  induction h generalizing q with
  | single c => exact ⟨[c], .single c, fun b => hkeep hq hp b⟩
  | @cons c g r y hg h ih =>
    obtain ⟨y', hy', hremove⟩ := ih (q := q ++ [c]) (by simp) (by simp [hp])
    refine ⟨c :: (remove p g ++ y'), .cons c ⟨g, hg, rfl⟩ hy', fun b => ?_⟩
    rw [List.cons_append, List.append_assoc, hkeep hq hp,
      remove_append hpne (apart_of_gap hnodup (hgap g hg) _), hremove, List.cons_append,
      List.append_assoc]

theorem Spread.remove_self (hnil : gap []) {x : List α} (h : Spread gap p x) (hne : x ≠ p) :
    ∃ y, Spread (fun g => ∃ g', gap g' ∧ g = remove p g') p y ∧
      ∀ a b, remove p (a ++ (x ++ b)) = remove p a ++ (y ++ remove p b) := by
  obtain ⟨q, g, r, y, hp, hq, hr, rfl, hg, hgap', hy⟩ := h.exists_gap hne
  obtain ⟨y', hy', hremove⟩ := hy.remove_tail hnodup hgap hq hp
  have hpne := h.ne_nil
  have hfront : ∀ a, Apart p a q := by
    rintro a s t hst hs ht - ⟨rest, hrest⟩
    obtain ⟨d, t, rfl⟩ := List.exists_cons_of_ne_nil ht
    obtain ⟨c, s, rfl⟩ := List.exists_cons_of_ne_nil hs
    have hsame : c = d := by
      rw [hst, ← hrest, List.cons_append, List.cons_append, List.cons_append] at hp
      exact (List.cons.inj hp).1
    rw [hst] at hnodup
    exact List.disjoint_of_nodup_append hnodup (a := c) (by simp) (by simp [hsame])
  have hshort : remove p q = q := remove_short (by
    have hpos := List.length_pos_iff.mpr hr
    rw [hp, List.length_append]
    omega)
  refine ⟨q ++ (remove p g ++ y'), ?_, fun a b => ?_⟩
  · have happend : Spread (fun g => ∃ g', gap g' ∧ g = remove p g') (q ++ r)
        (q ++ (remove p g ++ y')) := .append ⟨[], hnil, rfl⟩ hq ⟨g, hgap', rfl⟩ hy'
    rwa [← hp] at happend
  · have hsplit : a ++ (q ++ (g ++ y) ++ b) = (a ++ q) ++ (g ++ (y ++ b)) := by simp
    rw [hsplit, remove_append hpne (apart_gap hnodup (hgap g hgap') hg _ _),
      remove_append hpne (hfront a), hshort,
      remove_append hpne (apart_of_gap hnodup (hgap g hgap') _), hremove]
    simp

end

namespace Separate

variable {before after : List (List α)} {p : List α}

/-- If nothing remains of a gap, no character of the word does when that word has been removed. -/
theorem gone (h : Separate (before ++ p :: after)) {g : List α}
    (hg : removeAll after (remove p g) = []) : ∀ e ∈ p, e ∉ remove p g := by
  intro e he hmem
  have hcount := count_removeAll h.back.1 (fun w hw => h.back.2 w hw e he) (remove p g)
  rw [hg, List.count_nil] at hcount
  exact absurd (List.count_pos_iff.mpr hmem) (by omega)

/-- A word with gaps of which nothing remains comes together, unless it did so before it was
removed. -/
theorem exists_infix (h : Separate (before ++ p :: after)) {a x b : List α}
    (hx : Spread (fun g => removeAll (before ++ p :: after) g = []) p x)
    (hlate : ¬ Spread (fun g => removeAll before g = []) p x) :
    p <:+: removeAll (before ++ p :: after) (a ++ (x ++ b)) := by
  obtain ⟨hp, hnodup⟩ := h.word
  -- The words in front of it leave its characters alone, and so it has a gap.
  obtain ⟨y, hy, hword, hbefore⟩ := hx.removeAll_foreign h.front.1 h.front.2
  have hy : Spread (fun g => removeAll after (remove p g) = []) p y :=
    hy.mono fun g ⟨g', hg', hg⟩ => by
      rw [removeAll_append] at hg'
      rw [hg]
      exact hg'
  -- The gap keeps it from being removed.
  obtain ⟨z, hz, hself⟩ := hy.remove_self hnodup (fun g hg => h.gone hg) (removeAll_nil after)
    fun heq => hlate (hword heq)
  have hz : Spread (fun g => removeAll after g = []) p z :=
    hz.mono fun g ⟨g', hg', hg⟩ => hg ▸ hg'
  obtain ⟨w, hw, -, hafter⟩ := hz.removeAll_foreign h.back.1 h.back.2
  have hnil : Spread (fun g => g = []) p w := hw.mono fun g ⟨g', hg', hg⟩ => hg.trans hg'
  rw [hnil.eq_of_nil] at hafter
  have hsplit : removeAll (before ++ p :: after) (a ++ (x ++ b)) =
      removeAll after (remove p (removeAll before (a ++ (x ++ b)))) := removeAll_append _ _ _
  refine ⟨removeAll after (remove p (removeAll before a)),
    removeAll after (remove p (removeAll before b)), ?_⟩
  rw [hsplit, hbefore, hself, hafter, List.append_assoc]

/-- A word that has come together when its turn comes is removed with its characters. -/
theorem count_spread (h : Separate (before ++ p :: after)) {c : α} (hc : c ∈ p) {a x b : List α}
    (hx : Spread (fun g => removeAll before g = []) p x) :
    (removeAll (before ++ p :: after) (a ++ (x ++ b))).count c =
      (removeAll (before ++ p :: after) a).count c +
        (removeAll (before ++ p :: after) b).count c := by
  obtain ⟨hp, hnodup⟩ := h.word
  have hsplit : ∀ cs, removeAll (before ++ p :: after) cs =
      removeAll after (remove p (removeAll before cs)) := fun cs => removeAll_append _ _ _
  obtain ⟨y, hy, -, hbefore⟩ := hx.removeAll_foreign h.front.1 h.front.2
  have hnil : Spread (fun g => g = []) p y := hy.mono fun g ⟨g', hg', hg⟩ => hg.trans hg'
  -- The words behind it do not have the character.
  have hcount : ∀ cs, (removeAll after cs).count c = cs.count c := fun cs =>
    count_removeAll h.back.1 (fun w hw => h.back.2 w hw c hc) cs
  rw [hsplit, hsplit, hsplit, hbefore, hnil.eq_of_nil, remove_occurrence hnodup hp, hcount, hcount,
    hcount, List.count_append]

theorem not_spread (h : Separate (before ++ p :: after)) {a x b u v : List α}
    (hu : removeAll (before ++ p :: after) a = u) (hv : removeAll (before ++ p :: after) b = v)
    (hremoved : removeAll (before ++ p :: after) (a ++ (x ++ b)) = u ++ (p ++ v)) :
    ¬ Spread (fun g => removeAll before g = []) p x := by
  intro hx
  obtain ⟨c, hc⟩ := List.exists_mem_of_ne_nil p h.word.1
  have hcount := h.count_spread hc (a := a) (b := b) hx
  have hpos := List.count_pos_iff.mpr hc
  rw [hremoved, hu, hv, List.count_append, List.count_append] at hcount
  omega

theorem count_removeAll_lt (h : Separate (before ++ p :: after)) {c : α} (hc : c ∈ p)
    {cs : List α} (hcs : p <:+: cs) :
    (removeAll (before ++ p :: after) cs).count c < cs.count c := by
  obtain ⟨a, b, rfl⟩ := hcs
  have hcount := h.count_spread hc (a := a) (b := b) (.of_nil (removeAll_nil before) h.word.1)
  have ha := (removeAll_sublist h.filled a).count_le c
  have hb := (removeAll_sublist h.filled b).count_le c
  have hpos := List.count_pos_iff.mpr hc
  rw [List.append_assoc, hcount, List.count_append, List.count_append]
  omega

end Separate

/-- One of the words remains in a text exactly when its characters are there with gaps of which
nothing remains, but something does when only the words in front of it have been removed. -/
theorem exists_infix_removeAll_iff (hps : Separate ps) :
    (∃ p ∈ ps, p <:+: removeAll ps cs) ↔ ∃ before p after, ps = before ++ p :: after ∧
      ∃ a x b, cs = a ++ (x ++ b) ∧ Spread (fun g => removeAll ps g = []) p x ∧
        ¬ Spread (fun g => removeAll before g = []) p x := by
  constructor
  · rintro ⟨p, hp, u, v, huv⟩
    obtain ⟨before, after, rfl⟩ := List.append_of_mem hp
    rw [List.append_assoc] at huv
    obtain ⟨a, x, b, rfl, hx, ha, hb⟩ := exists_spread hps.filled hps.word.1 huv.symm
    exact ⟨before, p, after, rfl, a, x, b, rfl, hx, hps.not_spread ha hb huv.symm⟩
  · rintro ⟨before, p, after, rfl, a, x, b, rfl, hx, hlate⟩
    exact ⟨p, by simp, hps.exists_infix hx hlate⟩

end

end Removal
