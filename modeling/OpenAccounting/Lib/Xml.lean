import Mathlib.Data.List.Nodup
import OpenAccounting.Lib.TextSearch

/-!
# XML texts

Elements with attributes, processing instructions, and text between them, as they are written.  What
is written can be read in one way only.  Text is written with an entity for each character that is
markup, which loses nothing either.

Comments, character data sections and a `>` in the value of an attribute are left out.
-/

namespace Xml

open RustStr (isWhitespace Passes)

/-! ## Forests -/

theorem plain_nil : ∀ c ∈ ([] : List Char), c ≠ '<' ∧ c ≠ '>' := by decide

theorem separated_nil : ∀ c ∈ ([] : List Char).head?, isWhitespace c = true := by decide

theorem unclosed_nil : ([] : List Char).getLast? ≠ some '/' := by decide

/-- A text without markup. -/
@[ext] structure Text where
  chars : List Char
  plain : ∀ c ∈ chars, c ≠ '<' ∧ c ≠ '>' := by first | exact plain_nil | decide

/-- What is behind the name of a tag: nothing, or white space and attributes. -/
@[ext] structure Attributes where
  chars : List Char := []
  plain : ∀ c ∈ chars, c ≠ '<' ∧ c ≠ '>' := by first | exact plain_nil | decide
  separated : ∀ c ∈ chars.head?, isWhitespace c = true := by
    first | exact separated_nil | decide
  unclosed : chars.getLast? ≠ some '/' := by first | exact unclosed_nil | decide

/-- What is between two tags, or around them.  There is a text in front of each tag and behind the
last one. -/
inductive Forest (ν : Type) where
  | last (text : Text)
  | instruction (text body : Text) (next : Forest ν)
  | empty (text : Text) (name : ν) (attributes : Attributes) (next : Forest ν)
  | element (text : Text) (name : ν) (attributes : Attributes) (children next : Forest ν)

/-- A forest, with the names as they are spelled. -/
def Forest.render {ν : Type} (spell : ν → List Char) : Forest ν → List Char
  | last text => text.chars
  | instruction text body next =>
    text.chars ++ '<' :: '?' :: (body.chars ++ '?' :: '>' :: render spell next)
  | empty text name attributes next =>
    text.chars ++ '<' :: (spell name ++ (attributes.chars ++ '/' :: '>' :: render spell next))
  | element text name attributes children next =>
    text.chars ++ '<' :: (spell name ++ (attributes.chars ++ '>' :: (render spell children ++
      '<' :: '/' :: (spell name ++ '>' :: render spell next))))

/-- A character that ends a name. -/
def EndsName (c : Char) : Prop := c ∈ ['<', '>', '/', '?'] ∨ isWhitespace c = true

/-- Different names are spelled differently, and what ends a name is not in one. -/
structure Spelling {ν : Type} (spell : ν → List Char) : Prop where
  injective : Function.Injective spell
  filled : ∀ n, spell n ≠ []
  plain : ∀ n, ∀ c ∈ spell n, ¬ EndsName c

/-! ## Reading in one way -/

theorem cut_eq {p : Char → Prop} {t t' r r' : List Char} (ht : ∀ c ∈ t, ¬ p c)
    (ht' : ∀ c ∈ t', ¬ p c) (hr : ∀ c ∈ r.head?, p c) (hr' : ∀ c ∈ r'.head?, p c)
    (h : t ++ r = t' ++ r') : t = t' ∧ r = r' := by
  induction t generalizing t' with
  | nil =>
    cases t' with
    | nil => exact ⟨rfl, h⟩
    | cons c t' =>
      rw [List.nil_append, List.cons_append] at h
      exact absurd (hr c (by rw [h]; rfl)) (ht' c List.mem_cons_self)
  | cons c t ih =>
    cases t' with
    | nil =>
      rw [List.nil_append, List.cons_append] at h
      exact absurd (hr' c (by rw [← h]; rfl)) (ht c List.mem_cons_self)
    | cons d t' =>
      obtain ⟨rfl, htail⟩ := List.cons.inj h
      obtain ⟨rfl, hrest⟩ := ih (fun x hx => ht x (List.mem_cons_of_mem _ hx))
        (fun x hx => ht' x (List.mem_cons_of_mem _ hx)) htail
      exact ⟨rfl, hrest⟩

/-- The text ends, or the forest around it does. -/
def Closes (rest : List Char) : Prop := rest = [] ∨ ∃ cs, rest = '<' :: '/' :: cs

section

variable {ν : Type} {spell : ν → List Char}
variable {r r' rest : List Char}

theorem Closes.head (h : Closes rest) : ∀ c ∈ rest.head?, c = '<' := by
  rcases h with rfl | ⟨cs, rfl⟩
  · simp
  · simp

theorem text_eq {t t' : Text} (hr : ∀ c ∈ r.head?, c = '<') (hr' : ∀ c ∈ r'.head?, c = '<')
    (h : t.chars ++ r = t'.chars ++ r') : t = t' ∧ r = r' := by
  obtain ⟨hchars, hrest⟩ := cut_eq (fun c hc => (t.plain c hc).1) (fun c hc => (t'.plain c hc).1)
    hr hr' h
  exact ⟨Text.ext hchars, hrest⟩

theorem tag_eq {t t' : List Char} (ht : ∀ c ∈ t, c ≠ '>') (ht' : ∀ c ∈ t', c ≠ '>')
    (h : t ++ '>' :: r = t' ++ '>' :: r') : t = t' ∧ r = r' := by
  obtain ⟨ht, hr⟩ := cut_eq (p := fun c => c = '>') ht ht' (by simp) (by simp) h
  exact ⟨ht, (List.cons.inj hr).2⟩

theorem Spelling.name_eq (hspell : Spelling spell) {n n' : ν} (hr : ∀ c ∈ r.head?, EndsName c)
    (hr' : ∀ c ∈ r'.head?, EndsName c) (h : spell n ++ r = spell n' ++ r') : n = n' ∧ r = r' := by
  obtain ⟨hname, hrest⟩ := cut_eq (hspell.plain n) (hspell.plain n') hr hr' h
  exact ⟨hspell.injective hname, hrest⟩

theorem Attributes.head_append {a : Attributes} {c : Char} (hc : EndsName c) :
    ∀ d ∈ (a.chars ++ c :: r).head?, EndsName d := by
  intro d hd
  cases hchars : a.chars with
  | nil =>
    rw [hchars, List.nil_append, List.head?_cons, Option.mem_some_iff] at hd
    exact hd ▸ hc
  | cons e es =>
    rw [hchars, List.cons_append, List.head?_cons, Option.mem_some_iff] at hd
    refine .inr (a.separated d ?_)
    rw [hchars, hd]
    rfl

theorem Spelling.cons_ne (hspell : Spelling spell) {n : ν} {c : Char} (hc : EndsName c)
    (r r' : List Char) : spell n ++ r ≠ c :: r' := by
  intro h
  obtain ⟨d, ds, hd⟩ := List.exists_cons_of_ne_nil (hspell.filled n)
  rw [hd, List.cons_append] at h
  obtain ⟨rfl, -⟩ := List.cons.inj h
  exact hspell.plain n d (hd ▸ List.mem_cons_self) hc

/-- The text in front of the first tag. -/
def Forest.text : Forest ν → Text
  | last text | instruction text _ _ | empty text _ _ _ | element text _ _ _ _ => text

/-- What is behind the text in front of the first tag. -/
def Forest.behind (spell : ν → List Char) (rest : List Char) : Forest ν → List Char
  | last _ => rest
  | instruction _ body next =>
    '<' :: '?' :: (body.chars ++ '?' :: '>' :: (render spell next ++ rest))
  | empty _ name attributes next =>
    '<' :: (spell name ++ (attributes.chars ++ '/' :: '>' :: (render spell next ++ rest)))
  | element _ name attributes children next =>
    '<' :: (spell name ++ (attributes.chars ++ '>' :: (render spell children ++
      '<' :: '/' :: (spell name ++ '>' :: (render spell next ++ rest)))))

theorem Forest.render_append (f : Forest ν) (rest : List Char) :
    f.render spell ++ rest = f.text.chars ++ f.behind spell rest := by
  cases f <;> simp [render, Forest.text, behind]

theorem Forest.head_behind (f : Forest ν) (h : Closes rest) :
    ∀ c ∈ (f.behind spell rest).head?, c = '<' := by
  cases f with
  | last => exact h.head
  | instruction => simp [behind]
  | empty => simp [behind]
  | element => simp [behind]

theorem Closes.ne_tag {cs : List Char} (h : Closes rest) (hcs : ∀ ds, cs ≠ '/' :: ds) :
    rest ≠ '<' :: cs := by
  rintro rfl
  rcases h with hnil | ⟨ds, heq⟩
  · cases hnil
  · exact hcs ds (List.cons.inj heq).2

/-- An instruction ends with a question mark, and a tag of an empty element with a slash. -/
theorem closed_tag_eq {t t' : List Char} (ht : ∀ c ∈ t, c ≠ '<' ∧ c ≠ '>')
    (ht' : ∀ c ∈ t', c ≠ '<' ∧ c ≠ '>') {d : Char} (hd : d ≠ '>')
    (h : t ++ d :: '>' :: r = t' ++ d :: '>' :: r') : t = t' ∧ r = r' := by
  have hsplit : ∀ cs ds : List Char, cs ++ d :: '>' :: ds = (cs ++ [d]) ++ '>' :: ds := by simp
  have hplain : ∀ cs : List Char, (∀ c ∈ cs, c ≠ '<' ∧ c ≠ '>') → ∀ c ∈ cs ++ [d], c ≠ '>' := by
    intro cs hcs c hc
    rcases List.mem_append.mp hc with hc | hc
    · exact (hcs c hc).2
    · exact List.mem_singleton.mp hc ▸ hd
  rw [hsplit, hsplit] at h
  obtain ⟨htags, hrest⟩ := tag_eq (hplain t ht) (hplain t' ht') h
  exact ⟨List.append_cancel_right htags, hrest⟩

/-- The attributes of a tag do not end with the slash of an empty element. -/
theorem Attributes.ne_closed {a a' : Attributes} :
    a.chars ++ '/' :: '>' :: r ≠ a'.chars ++ '>' :: r' := by
  intro h
  have hsplit : a.chars ++ '/' :: '>' :: r = (a.chars ++ ['/']) ++ '>' :: r := by simp
  rw [hsplit] at h
  have hplain : ∀ c ∈ a.chars ++ ['/'], c ≠ '>' := by
    intro c hc
    rcases List.mem_append.mp hc with hc | hc
    · exact (a.plain c hc).2
    · rw [List.mem_singleton.mp hc]
      decide
  obtain ⟨htag, -⟩ := tag_eq hplain (fun c hc => (a'.plain c hc).2) h
  refine a'.unclosed ?_
  rw [← htag, List.getLast?_concat]

/-- A forest is read in one way, up to the end of the forest around it. -/
theorem Forest.render_eq (hspell : Spelling spell) {f g : Forest ν} (hr : Closes r)
    (hr' : Closes r') (h : f.render spell ++ r = g.render spell ++ r') :
    f = g ∧ r = r' := by
  induction f generalizing g r r' with
  | last t =>
    rw [render_append, render_append] at h
    obtain ⟨ht, hbehind⟩ := text_eq (head_behind _ hr) (head_behind _ hr') h
    cases g with
    | last t' => exact ⟨congrArg last ht, hbehind⟩
    | instruction => exact absurd hbehind (hr.ne_tag (by simp))
    | empty => exact absurd hbehind (hr.ne_tag fun ds => hspell.cons_ne (.inl (by decide)) _ ds)
    | element => exact absurd hbehind (hr.ne_tag fun ds => hspell.cons_ne (.inl (by decide)) _ ds)
  | instruction t body next ih =>
    rw [render_append, render_append] at h
    obtain ⟨rfl, hbehind⟩ := text_eq (head_behind _ hr) (head_behind _ hr') h
    cases g with
    | last => exact absurd hbehind.symm (hr'.ne_tag (by simp))
    | instruction t' body' next' =>
      obtain ⟨-, htail⟩ := List.cons.inj hbehind
      obtain ⟨hbody, hnext⟩ := closed_tag_eq body.plain body'.plain (by decide)
        (List.cons.inj htail).2
      obtain ⟨rfl, hrest⟩ := ih hr hr' hnext
      exact ⟨by rw [Text.ext hbody]; rfl, hrest⟩
    | empty =>
      exact absurd (List.cons.inj hbehind).2.symm (hspell.cons_ne (.inl (by decide)) _ _)
    | element =>
      exact absurd (List.cons.inj hbehind).2.symm (hspell.cons_ne (.inl (by decide)) _ _)
  | empty t n a next ih =>
    rw [render_append, render_append] at h
    obtain ⟨rfl, hbehind⟩ := text_eq (head_behind _ hr) (head_behind _ hr') h
    cases g with
    | last =>
      exact absurd hbehind.symm (hr'.ne_tag fun ds => hspell.cons_ne (.inl (by decide)) _ ds)
    | instruction =>
      exact absurd (List.cons.inj hbehind).2 (hspell.cons_ne (.inl (by decide)) _ _)
    | empty t' n' a' next' =>
      obtain ⟨rfl, htail⟩ := hspell.name_eq (a.head_append (.inl (by decide)))
        (a'.head_append (.inl (by decide))) (List.cons.inj hbehind).2
      obtain ⟨ha, hnext⟩ := closed_tag_eq a.plain a'.plain (by decide) htail
      obtain ⟨rfl, hrest⟩ := ih hr hr' hnext
      exact ⟨by rw [Attributes.ext ha]; rfl, hrest⟩
    | element t' n' a' children' next' =>
      obtain ⟨-, htail⟩ := hspell.name_eq (a.head_append (.inl (by decide)))
        (a'.head_append (.inl (by decide))) (List.cons.inj hbehind).2
      exact absurd htail Attributes.ne_closed
  | element t n a children next ihc ih =>
    rw [render_append, render_append] at h
    obtain ⟨rfl, hbehind⟩ := text_eq (head_behind _ hr) (head_behind _ hr') h
    cases g with
    | last =>
      exact absurd hbehind.symm (hr'.ne_tag fun ds => hspell.cons_ne (.inl (by decide)) _ ds)
    | instruction =>
      exact absurd (List.cons.inj hbehind).2 (hspell.cons_ne (.inl (by decide)) _ _)
    | empty t' n' a' next' =>
      obtain ⟨-, htail⟩ := hspell.name_eq (a.head_append (.inl (by decide)))
        (a'.head_append (.inl (by decide))) (List.cons.inj hbehind).2
      exact absurd htail.symm Attributes.ne_closed
    | element t' n' a' children' next' =>
      obtain ⟨rfl, htail⟩ := hspell.name_eq (a.head_append (.inl (by decide)))
        (a'.head_append (.inl (by decide))) (List.cons.inj hbehind).2
      obtain ⟨ha, htail⟩ := tag_eq (fun c hc => (a.plain c hc).2)
        (fun c hc => (a'.plain c hc).2) htail
      obtain ⟨rfl, hend⟩ := ihc (.inr ⟨_, rfl⟩) (.inr ⟨_, rfl⟩) htail
      have hname := (List.cons.inj (List.cons.inj hend).2).2
      obtain ⟨rfl, hrest⟩ := ih hr hr' (List.cons.inj (List.append_cancel_left hname)).2
      exact ⟨by rw [Attributes.ext ha]; rfl, hrest⟩

theorem Forest.render_injective (hspell : Spelling spell) :
    Function.Injective (Forest.render spell) := by
  intro f g h
  exact (render_eq hspell (.inl rfl) (.inl rfl) (congrArg (· ++ []) h)).1

end

/-! ## Searching -/

section

variable {ν : Type} {spell : ν → List Char}

def Forest.names : Forest ν → List ν
  | last _ => []
  | instruction _ _ next => next.names
  | empty _ name _ next => name :: next.names
  | element _ name _ children next => name :: (children.names ++ next.names)

/-- A search for a tag. -/
structure Search (spell : ν → List Char) (p : List Char → Bool) : Prop where
  text : ∀ c ≠ '<', ∀ rest, p (c :: rest) = false
  instruction : ∀ rest, p ('<' :: '?' :: rest) = false

/-- A search that stops neither at the start tags of a name nor at its end tags. -/
structure Skips (spell : ν → List Char) (p : List Char → Bool) (n : ν) : Prop where
  start : ∀ c rest, EndsName c → p ('<' :: (spell n ++ c :: rest)) = false
  stop : ∀ rest, p ('<' :: '/' :: (spell n ++ '>' :: rest)) = false

namespace Search

variable {p : List Char → Bool} (hp : Search spell p)

include hp

theorem passes_plain {cs : List Char} (h : ∀ c ∈ cs, c ≠ '<') : Passes p cs :=
  .of_forall fun c hc => hp.text c (h c hc)

theorem passes_text (t : Text) : Passes p t.chars := hp.passes_plain fun c hc => (t.plain c hc).1

theorem passes_instruction (body : Text) : Passes p ('<' :: '?' :: (body.chars ++ ['?', '>'])) := by
  have hbody : ∀ c ∈ '?' :: (body.chars ++ ['?', '>']), c ≠ '<' := by
    intro c hc
    rcases List.mem_cons.mp hc with rfl | hc
    · decide
    · rcases List.mem_append.mp hc with hc | hc
      · exact (body.plain c hc).1
      · rcases List.mem_pair.mp hc with rfl | rfl <;> decide
  exact .cons (hp.passes_plain hbody) fun cs => hp.instruction _

variable (hspell : Spelling spell)

include hspell

theorem passes_start {n : ν} (hn : Skips spell p n) (a : Attributes) (close : List Char)
    (hclose : ∀ c ∈ close, c ≠ '<') (hne : ∀ c ∈ close.head?, EndsName c) (hfilled : close ≠ []) :
    Passes p ('<' :: (spell n ++ (a.chars ++ close))) := by
  obtain ⟨d, ds, rfl⟩ := List.exists_cons_of_ne_nil hfilled
  have hd : EndsName d := hne d rfl
  refine .cons (hp.passes_plain fun c hc => ?_) fun cs => ?_
  · rcases List.mem_append.mp hc with hc | hc
    · rintro rfl
      exact hspell.plain n '<' hc (.inl (by decide))
    · rcases List.mem_append.mp hc with hc | hc
      · exact (a.plain c hc).1
      · exact hclose c hc
  · obtain ⟨e, es, hes⟩ := List.exists_cons_of_ne_nil
      (List.append_ne_nil_of_right_ne_nil a.chars (List.cons_ne_nil d (ds ++ cs)))
    have he : EndsName e := a.head_append hd e (by rw [hes]; rfl)
    rw [List.append_assoc, List.append_assoc, List.cons_append, hes]
    exact hn.start e es he

theorem passes_stop {n : ν} (hn : Skips spell p n) :
    Passes p ('<' :: '/' :: (spell n ++ ['>'])) := by
  have hplain : ∀ c ∈ '/' :: (spell n ++ ['>']), c ≠ '<' := by
    intro c hc
    rcases List.mem_cons.mp hc with rfl | hc
    · decide
    · rcases List.mem_append.mp hc with hc | hc
      · rintro rfl
        exact hspell.plain n '<' hc (.inl (by decide))
      · rw [List.mem_singleton.mp hc]
        decide
  refine .cons (hp.passes_plain hplain) fun cs => ?_
  rw [List.cons_append, List.append_assoc]
  exact hn.stop cs

theorem passes {f : Forest ν} (hf : ∀ n ∈ f.names, Skips spell p n) :
    Passes p (f.render spell) := by
  induction f with
  | last t => exact hp.passes_text t
  | instruction t body next ih =>
    have hpieces : (Forest.instruction t body next).render spell =
        t.chars ++ ('<' :: '?' :: (body.chars ++ ['?', '>']) ++ next.render spell) := by
      simp [Forest.render]
    rw [hpieces]
    exact (hp.passes_text t).append ((hp.passes_instruction body).append (ih hf))
  | empty t n a next ih =>
    obtain ⟨hn, hnext⟩ := List.forall_mem_cons.mp hf
    have hopen := hp.passes_start hspell hn a ['/', '>'] (by decide)
      (by simp [EndsName]) (by simp)
    have hpieces : (Forest.empty t n a next).render spell =
        t.chars ++ ('<' :: (spell n ++ (a.chars ++ ['/', '>'])) ++ next.render spell) := by
      simp [Forest.render]
    rw [hpieces]
    exact (hp.passes_text t).append (hopen.append (ih hnext))
  | element t n a children next ihc ih =>
    obtain ⟨hn, hrest⟩ := List.forall_mem_cons.mp hf
    obtain ⟨hchildren, hnext⟩ := List.forall_mem_append.mp hrest
    have hopen := hp.passes_start hspell hn a ['>'] (by decide)
      (by simp [EndsName]) (by simp)
    have hstop := hp.passes_stop hspell hn
    have hpieces : (Forest.element t n a children next).render spell =
        t.chars ++ ('<' :: (spell n ++ (a.chars ++ ['>'])) ++ (children.render spell ++
          ('<' :: '/' :: (spell n ++ ['>']) ++ next.render spell))) := by
      simp [Forest.render]
    rw [hpieces]
    exact (hp.passes_text t).append (hopen.append ((ihc hchildren).append
      (hstop.append (ih hnext))))

end Search

/-- A forest, and then another one that is made of the text at its end. -/
def Forest.followed (f : Forest ν) (k : Text → Forest ν) : Forest ν :=
  match f with
  | last text => k text
  | instruction text body next => instruction text body (next.followed k)
  | empty text name attributes next => empty text name attributes (next.followed k)
  | element text name attributes children next =>
    element text name attributes children (next.followed k)

theorem Forest.render_followed {f : Forest ν} {k : Text → Forest ν} {cs : List Char}
    (h : ∀ t, (k t).render spell = t.chars ++ cs) :
    (f.followed k).render spell = f.render spell ++ cs := by
  induction f with
  | last t => exact h t
  | instruction t body next ih => simp [followed, render, ih]
  | empty t n a next ih => simp [followed, render, ih]
  | element t n a children next ihc ih => simp [followed, render, ih]

end

/-! ## Entities -/

/-- `str::replace` of a character. -/
def replaceChar (c : Char) (rep : List Char) (cs : List Char) : List Char :=
  cs.flatMap fun d => if d = c then rep else [d]

/-- The characters of a table are replaced, one after the other. -/
def escape (table : List (Char × List Char)) (cs : List Char) : List Char :=
  table.foldl (fun cs e => replaceChar e.1 e.2 cs) cs

/-- What a character is written as. -/
def escapeChar (table : List (Char × List Char)) (c : Char) : List Char :=
  ((table.find? fun e => e.1 = c).map Prod.snd).getD [c]

/-- Entities for different characters, among them those of markup.  What is written for a character
has no character that is replaced later. -/
structure Entities (table : List (Char × List Char)) : Prop where
  apart : table.Pairwise fun e e' => e.1 ≠ e'.1 ∧ e'.1 ∉ e.2 := by decide
  form : ∀ e ∈ table, e.2.head? = some '&' ∧ e.2.getLast? = some ';' ∧ ';' ∉ e.2.dropLast := by
    decide
  different : (table.map Prod.snd).Nodup := by decide
  ampersand : '&' ∈ table.map Prod.fst := by decide
  markup : '<' ∈ table.map Prod.fst ∧ '>' ∈ table.map Prod.fst := by decide
  plain : ∀ e ∈ table, '<' ∉ e.2 ∧ '>' ∉ e.2 := by decide

section

variable {table : List (Char × List Char)}

theorem escapeChar_of_notMem {c : Char} (h : c ∉ table.map Prod.fst) :
    escapeChar table c = [c] := by
  have hnone : table.find? (fun e => e.1 = c) = none := by
    rw [List.find?_eq_none]
    intro e he hc
    exact h (List.mem_map.mpr ⟨e, he, of_decide_eq_true hc⟩)
  rw [escapeChar, hnone]
  rfl

theorem escape_eq_flatMap (h : table.Pairwise fun e e' => e.1 ≠ e'.1 ∧ e'.1 ∉ e.2)
    (cs : List Char) : escape table cs = cs.flatMap (escapeChar table) := by
  induction table generalizing cs with
  | nil => exact (List.flatMap_singleton' cs).symm
  | cons e table ih =>
    obtain ⟨he, htable⟩ := List.pairwise_cons.mp h
    rw [escape, List.foldl_cons, ← escape, ih htable, replaceChar, List.flatMap_assoc]
    congr 1
    funext d
    rw [escapeChar, List.find?_cons]
    by_cases hd : d = e.1
    · subst hd
      have hrest : ∀ c ∈ e.2, escapeChar table c = [c] := by
        intro c hc
        refine escapeChar_of_notMem fun hmem => ?_
        obtain ⟨e', he', rfl⟩ := List.mem_map.mp hmem
        exact (he e' he').2 hc
      rw [if_pos rfl, List.flatMap_congr hrest]
      simp
    · rw [if_neg hd]
      simp [Ne.symm hd, escapeChar]

theorem exists_of_mem {c : Char} (h : c ∈ table.map Prod.fst) :
    ∃ e ∈ table, e.1 = c ∧ escapeChar table c = e.2 := by
  obtain ⟨e, he⟩ : ∃ e, table.find? (fun e => e.1 = c) = some e := by
    obtain ⟨e, he, rfl⟩ := List.mem_map.mp h
    exact Option.isSome_iff_exists.mp (List.find?_isSome.mpr ⟨e, he, by simp⟩)
  have hc : decide (e.1 = c) = true :=
    List.find?_some (p := fun e : Char × List Char => decide (e.1 = c)) he
  refine ⟨e, List.mem_of_find?_eq_some he, of_decide_eq_true hc, ?_⟩
  rw [escapeChar, he]
  rfl

namespace Entities

variable (h : Entities table)

include h

theorem escapeChar_append_eq {c d : Char} {r r' : List Char}
    (heq : escapeChar table c ++ r = escapeChar table d ++ r') : c = d ∧ r = r' := by
  have hfirst : ∀ e ∈ table, ∀ d r r', d ∉ table.map Prod.fst → e.2 ++ r ≠ [d] ++ r' := by
    intro e he d r r' hd heq
    obtain ⟨hhead, -, -⟩ := h.form e he
    obtain ⟨cs, hcs⟩ := List.head?_eq_some_iff.mp hhead
    rw [hcs] at heq
    exact hd ((List.cons.inj heq).1 ▸ h.ampersand)
  by_cases hc : c ∈ table.map Prod.fst
  · obtain ⟨e, he, rfl, hcode⟩ := exists_of_mem hc
    rw [hcode] at heq
    by_cases hd : d ∈ table.map Prod.fst
    · obtain ⟨e', he', rfl, hcode'⟩ := exists_of_mem hd
      rw [hcode'] at heq
      obtain ⟨-, hlast, hbody⟩ := h.form e he
      obtain ⟨-, hlast', hbody'⟩ := h.form e' he'
      have hsplit := List.dropLast_append_getLast? _ hlast
      have hsplit' := List.dropLast_append_getLast? _ hlast'
      rw [← hsplit, ← hsplit', List.append_assoc, List.append_assoc] at heq
      obtain ⟨hsame, hrest⟩ := cut_eq (p := fun c => c = ';') (fun c hc h => hbody (h ▸ hc))
        (fun c hc h => hbody' (h ▸ hc)) (by simp) (by simp) heq
      have htext : e.2 = e'.2 := by rw [← hsplit, ← hsplit', hsame]
      obtain rfl := List.inj_on_of_nodup_map h.different he he' htext
      exact ⟨rfl, (List.cons.inj hrest).2⟩
    · rw [escapeChar_of_notMem hd] at heq
      exact absurd heq (hfirst e he d r r' hd)
  · rw [escapeChar_of_notMem hc] at heq
    by_cases hd : d ∈ table.map Prod.fst
    · obtain ⟨e', he', rfl, hcode'⟩ := exists_of_mem hd
      rw [hcode'] at heq
      exact absurd heq.symm (hfirst e' he' c r' r hc)
    · rw [escapeChar_of_notMem hd] at heq
      exact List.cons.inj heq

theorem escape_injective : Function.Injective (escape table) := by
  intro cs ds heq
  rw [escape_eq_flatMap h.apart, escape_eq_flatMap h.apart] at heq
  have hfilled : ∀ c, escapeChar table c ≠ [] := by
    intro c
    by_cases hc : c ∈ table.map Prod.fst
    · obtain ⟨e, he, -, hcode⟩ := exists_of_mem hc
      obtain ⟨ds, hds⟩ := List.head?_eq_some_iff.mp (h.form e he).1
      rw [hcode, hds]
      exact List.cons_ne_nil _ _
    · rw [escapeChar_of_notMem hc]
      exact List.cons_ne_nil _ _
  induction cs generalizing ds with
  | nil =>
    cases ds with
    | nil => rfl
    | cons d ds =>
      rw [List.flatMap_nil, List.flatMap_cons] at heq
      exact absurd (List.append_eq_nil_iff.mp heq.symm).1 (hfilled d)
  | cons c cs ih =>
    cases ds with
    | nil =>
      rw [List.flatMap_nil, List.flatMap_cons] at heq
      exact absurd (List.append_eq_nil_iff.mp heq).1 (hfilled c)
    | cons d ds =>
      rw [List.flatMap_cons, List.flatMap_cons] at heq
      obtain ⟨rfl, hrest⟩ := h.escapeChar_append_eq heq
      rw [ih hrest]

/-- The text of an element, with its entities. -/
def text (cs : List Char) : Text where
  chars := escape table cs
  plain := by
    intro d hd
    rw [escape_eq_flatMap h.apart] at hd
    obtain ⟨c, -, hd⟩ := List.mem_flatMap.mp hd
    by_cases hc : c ∈ table.map Prod.fst
    · obtain ⟨e, he, -, hcode⟩ := exists_of_mem hc
      rw [hcode] at hd
      obtain ⟨hopen, hclose⟩ := h.plain e he
      exact ⟨fun heq => hopen (heq ▸ hd), fun heq => hclose (heq ▸ hd)⟩
    · rw [escapeChar_of_notMem hc, List.mem_singleton] at hd
      rw [hd]
      exact ⟨fun heq => hc (heq ▸ h.markup.1), fun heq => hc (heq ▸ h.markup.2)⟩

end Entities

end

/-! ## Writing element by element -/

/-- The name of an element, from a text that can be one. -/
@[ext] structure TagName where
  chars : List Char
  filled : chars ≠ []
  plain : ∀ c ∈ chars, ¬ EndsName c
deriving DecidableEq

theorem TagName.spelling : Spelling TagName.chars where
  injective _ _ h := TagName.ext h
  filled n := n.filled
  plain n := n.plain

instance (c : Char) : Decidable (EndsName c) := by
  unfold EndsName
  infer_instance

def isNameChar (c : Char) : Bool := c.isAlphanum || c == ':'

theorem not_endsName {c : Char} (h : isNameChar c = true) : ¬ EndsName c := by
  rw [isNameChar, Bool.or_eq_true, beq_iff_eq] at h
  rcases h with h | rfl
  · rintro (hmem | hblank)
    · revert h
      simp only [List.mem_cons, List.not_mem_nil, or_false] at hmem
      rcases hmem with rfl | rfl | rfl | rfl <;> decide
    · rw [RustStr.isWhitespace_of_isAlphanum h] at hblank
      cases hblank
  · decide

-- The characters of a literal are compared, which is faster than to decode it.
variable {cs : List Char}

theorem filled_ofList {c : Char} : (String.ofList (c :: cs)).toList ≠ [] := by
  rw [String.toList_ofList]
  exact List.cons_ne_nil c cs

theorem toList_literal {s : String} (h : s = String.ofList cs := by rfl) : s.toList = cs := by
  rw [h, String.toList_ofList]

theorem plain_ofList (h : cs.all isNameChar = true) :
    ∀ c ∈ (String.ofList cs).toList, ¬ EndsName c := by
  rw [String.toList_ofList]
  exact fun c hc => not_endsName (List.all_eq_true.mp h c hc)

def tag (name : String) (filled : name.toList ≠ [] := by exact filled_ofList)
    (plain : ∀ c ∈ name.toList, ¬ EndsName c := by exact plain_ofList (by decide)) : TagName :=
  ⟨name.toList, filled, plain⟩

/-! ### Well-formed documents -/

/-- Where a reader of attributes is: between two attributes or behind one, in a name or behind it,
behind the sign, or in a value with its quote.  Names are kept in reverse. -/
inductive AttrPlace where
  | gap
  | closed
  | name (front : List Char)
  | named (name : List Char)
  | sign (name : List Char)
  | value (name : List Char) (quote : Char)

/-- One character of attributes. -/
def AttrPlace.next (c : Char) : AttrPlace → Option AttrPlace
  | gap =>
    if isWhitespace c then some gap
    else if c = '=' ∨ c = '"' ∨ c = '\'' then none else some (name [c])
  | closed => if isWhitespace c then some gap else none
  | name front =>
    if isWhitespace c then some (named front)
    else if c = '=' then some (sign front)
    else if c = '"' ∨ c = '\'' then none else some (name (c :: front))
  | named front =>
    if isWhitespace c then some (named front) else if c = '=' then some (sign front) else none
  | sign front =>
    if isWhitespace c then some (sign front)
    else if c = '"' ∨ c = '\'' then some (value front c) else none
  | value front quote => if c = quote then some closed else some (value front quote)

/-- The names of attributes, if each of them has a value between quotes. -/
def attributesFrom : AttrPlace → List Char → Option (List (List Char))
  | .gap, [] | .closed, [] => some []
  | .name _, [] | .named _, [] | .sign _, [] | .value _ _, [] => none
  | place, c :: cs =>
    (place.next c).bind fun place' =>
      match place, place' with
      | .value front _, .closed => (attributesFrom place' cs).map (front.reverse :: ·)
      | _, _ => attributesFrom place' cs

/-- The start tags in a forest. -/
def Forest.tags {ν : Type} : Forest ν → List (ν × Attributes)
  | last _ => []
  | instruction _ _ next => next.tags
  | empty _ name attributes next => (name, attributes) :: next.tags
  | element _ name attributes children next => (name, attributes) :: (children.tags ++ next.tags)

/-- The start tags that are in no element. -/
def Forest.roots {ν : Type} : Forest ν → List (ν × Attributes)
  | last _ => []
  | instruction _ _ next => next.roots
  | empty _ name attributes next => (name, attributes) :: next.roots
  | element _ name attributes _ next => (name, attributes) :: next.roots

/-- The prefix of a name. -/
def TagName.space (n : TagName) : Option (List Char) := (RustStr.cutAt ':' n.chars).map Prod.fst

/-- `xmlns:` in front of a prefix. -/
def declaration (space : List Char) : List Char := 'x' :: 'm' :: 'l' :: 'n' :: 's' :: ':' :: space

/-- There is one root.  Every attribute has a value between quotes, and the root declares every
prefix.  That tags match and nest is in the forest. -/
def Forest.WellFormed (f : Forest TagName) : Prop :=
  ∃ root a names, f.roots = [(root, a)] ∧ attributesFrom .closed a.chars = some names ∧
    ∀ t ∈ f.tags, (attributesFrom .closed t.2.chars).isSome ∧
      ∀ space ∈ t.1.space, declaration space ∈ names

theorem Forest.mem_tags_foldr {ν α : Type} {node : α → Forest ν → Forest ν} {xs : List α} {x : α}
    {t : ν × Attributes} (hx : x ∈ xs) (hnode : ∀ f, t ∈ (node x f).tags)
    (hnext : ∀ y f, t ∈ f.tags → t ∈ (node y f).tags) (next : Forest ν) :
    t ∈ (xs.foldr node next).tags := by
  induction xs with
  | nil => cases hx
  | cons y xs ih =>
    rcases List.mem_cons.mp hx with rfl | hx
    · exact hnode _
    · exact hnext y _ (ih hx)

def IsDocument (text : String) : Prop :=
  ∃ f : Forest TagName, f.render TagName.chars = text.toList ∧ f.WellFormed

theorem isDocument_iff {text : String} {f : Forest TagName}
    (h : f.render TagName.chars = text.toList) : IsDocument text ↔ f.WellFormed := by
  constructor
  · rintro ⟨g, hg, hwell⟩
    rwa [← Forest.render_injective TagName.spelling (hg.trans h.symm)]
  · exact fun hwell => ⟨f, h, hwell⟩

theorem attributesFrom_value {name : List Char} {quote : Char} (h : quote ∉ cs) :
    attributesFrom (.value name quote) cs = none := by
  induction cs with
  | nil => rfl
  | cons c cs ih =>
    obtain ⟨hc, hcs⟩ := not_or.mp (mt List.mem_cons.mpr h)
    rw [attributesFrom, AttrPlace.next, if_neg (Ne.symm hc), Option.bind_some]
    exact ih hcs

/-- Without markup. -/
def Plain (cs : List Char) : Prop := ∀ c ∈ cs, c ≠ '<' ∧ c ≠ '>'

instance (cs : List Char) : Decidable (Plain cs) := by
  unfold Plain
  infer_instance

/-- The characters that are not markup. -/
def Text.of (cs : List Char) : Text where
  chars := cs.filter fun c => c ≠ '<' ∧ c ≠ '>'
  plain c hc := by simpa using (List.mem_filter.mp hc).2

theorem Plain.chars_of (h : Plain cs) : (Text.of cs).chars = cs :=
  List.filter_eq_self.mpr fun c hc => decide_eq_true (h c hc)

theorem Plain.of_inj {ds : List Char} (hcs : Plain cs) (hds : Plain ds)
    (h : Text.of cs = Text.of ds) : cs = ds := by
  rw [← hcs.chars_of, h, hds.chars_of]

theorem Plain.of_isAlphanum (h : ∀ c ∈ cs, c.isAlphanum = true ∨ c = '-' ∨ c = '+' ∨ c = '.') :
    Plain cs := by
  intro c hc
  constructor
  · rintro rfl
    exact absurd (h _ hc) (by decide)
  · rintro rfl
    exact absurd (h _ hc) (by decide)

theorem Plain.of_isDigit (h : ∀ c ∈ cs, c.isDigit = true) : Plain cs :=
  .of_isAlphanum fun c hc => .inl (RustStr.isAlphanum_of_isDigit (h c hc))

theorem Entities.plain_escape {table : List (Char × List Char)} (h : Entities table)
    (cs : List Char) : Plain (escape table cs) := (h.text cs).plain

theorem Plain.append {ds : List Char} (hcs : Plain cs) (hds : Plain ds) : Plain (cs ++ ds) :=
  List.forall_mem_append.mpr ⟨hcs, hds⟩

section

variable {ν : Type} {spell : ν → List Char}

/-- An element with a value, on a line of its own if `gap` is a line break. -/
def leaf (gap indent : List Char) (name : ν) (a : Attributes) (value : List Char)
    (next : Forest ν) : Forest ν :=
  .element (Text.of (gap ++ indent)) name a (.last (Text.of value)) next

/-- An element around others. -/
def block (gap indent : List Char) (name : ν) (a : Attributes) (children : Forest ν → Forest ν)
    (next : Forest ν) : Forest ν :=
  .element (Text.of (gap ++ indent)) name a (children (.last (Text.of (gap ++ indent)))) next

section

variable {gap indent value value' : List Char} {n n' : ν} {a a' : Attributes}
  {k k' : Forest ν → Forest ν} {next next' : Forest ν}

theorem leaf_inj (h : leaf gap indent n a value next = leaf gap indent n' a' value' next') :
    Text.of value = Text.of value' ∧ next = next' := by
  obtain ⟨-, -, -, hvalue, hnext⟩ := Forest.element.inj h
  exact ⟨Forest.last.inj hvalue, hnext⟩

theorem block_inj (h : block gap indent n a k next = block gap indent n' a' k' next') :
    k (.last (Text.of (gap ++ indent))) = k' (.last (Text.of (gap ++ indent))) ∧ next = next' := by
  obtain ⟨-, -, -, hchildren, hnext⟩ := Forest.element.inj h
  exact ⟨hchildren, hnext⟩

end

/-- `text` is what is written for `k`, behind a gap and in front of another one. -/
def Writes (spell : ν → List Char) (gap : List Char) (text : List Char) (k : Forest ν → Forest ν) :
    Prop :=
  ∀ next rest, next.render spell = gap ++ rest → (k next).render spell = gap ++ (text ++ rest)

namespace Writes

variable {gap text text' : List Char} {k k' : Forest ν → Forest ν}

theorem nil : Writes spell gap [] (id : Forest ν → Forest ν) := fun _ _ h => h

theorem append (h : Writes spell gap text k) (h' : Writes spell gap text' k') :
    Writes spell gap (text ++ text') fun next => k (k' next) := by
  intro next rest hnext
  rw [h _ _ (h' _ _ hnext), List.append_assoc]

variable {indent : List Char}

theorem around (hgap : Plain gap) (hindent : Plain indent) (name : ν) (a : Attributes)
    {children : Forest ν} {inner : List Char} (h : children.render spell = inner) :
    Writes spell gap (indent ++ '<' :: (spell name ++ (a.chars ++ '>' :: (inner ++ '<' :: '/' ::
      (spell name ++ '>' :: gap)))))
      (Forest.element (Text.of (gap ++ indent)) name a children) := by
  intro next rest hnext
  simp only [Forest.render, (hgap.append hindent).chars_of, h, hnext, List.append_assoc,
    List.cons_append]

theorem leaf (hgap : Plain gap) (hindent : Plain indent) (name : ν) (a : Attributes)
    {value : List Char} (hvalue : Plain value) :
    Writes spell gap (indent ++ '<' :: (spell name ++ (a.chars ++ '>' :: (value ++ '<' :: '/' ::
      (spell name ++ '>' :: gap))))) (leaf gap indent name a value) :=
  around hgap hindent name a hvalue.chars_of

theorem block (hgap : Plain gap) (hindent : Plain indent) (name : ν) (a : Attributes)
    (h : Writes spell gap text k) :
    Writes spell gap (indent ++ '<' :: (spell name ++ (a.chars ++ '>' :: (gap ++ (text ++ (indent ++
      '<' :: '/' :: (spell name ++ '>' :: gap))))))) (block gap indent name a k) := by
  intro next rest hnext
  have hlast : (Forest.last (Text.of (gap ++ indent))).render spell = gap ++ indent :=
    (hgap.append hindent).chars_of
  simp only [Xml.block, Forest.render, (hgap.append hindent).chars_of, h _ _ hlast, hnext,
    List.append_assoc, List.cons_append]

theorem flatMap {α : Type} {f : α → List Char} {node : α → Forest ν → Forest ν} {xs : List α}
    (h : ∀ x ∈ xs, Writes spell gap (f x) (node x)) :
    Writes spell gap (xs.flatMap f) fun next => xs.foldr node next := by
  induction xs with
  | nil => exact nil
  | cons x xs ih =>
    obtain ⟨hx, hxs⟩ := List.forall_mem_cons.mp h
    exact hx.append (ih hxs)

end Writes

theorem Writes.optional {gap : List Char} {α : Type} {f : α → String}
    {node : α → Forest ν → Forest ν} (o : Option α)
    (h : ∀ x, Writes spell gap (f x).toList (node x)) :
    Writes spell gap (o.elim "" f).toList fun next => o.elim next fun x => node x next := by
  cases o with
  | none => exact .nil
  | some x => exact h x

def Forest.head? : Forest ν → Option ν
  | last _ => none
  | instruction _ _ next => next.head?
  | empty _ name _ _ | element _ name _ _ _ => some name

section

variable {α : Type} {node : α → Forest ν → Forest ν} {n m : ν} {next next' : Forest ν}

theorem head?_optional {o : Option α} (hnode : ∀ x f, (node x f).head? = some n) (hne : n ≠ m)
    (h : next.head? ≠ some m) : (o.elim next fun x => node x next).head? ≠ some m := by
  cases o with
  | none => exact h
  | some x =>
    rw [Option.elim_some, hnode]
    exact fun heq => hne (Option.some.inj heq)

theorem optional_inj {o o' : Option α}
    (h : (o.elim next fun x => node x next) = o'.elim next' fun x => node x next')
    (hinj : ∀ x y f g, node x f = node y g → x = y ∧ f = g)
    (hnode : ∀ x f, (node x f).head? = some n) (hnext : next.head? ≠ some n)
    (hnext' : next'.head? ≠ some n) : o = o' ∧ next = next' := by
  cases o with
  | none =>
    cases o' with
    | none => exact ⟨rfl, h⟩
    | some y => exact absurd (congrArg Forest.head? h) fun heq => hnext (heq.trans (hnode y _))
  | some x =>
    cases o' with
    | none =>
      exact absurd (congrArg Forest.head? h).symm fun heq => hnext' (heq.trans (hnode x _))
    | some y =>
      obtain ⟨rfl, hrest⟩ := hinj x y _ _ h
      exact ⟨rfl, hrest⟩

end

theorem foldr_inj {α β κ : Type} {node : α → Forest ν → Forest ν} {node' : β → Forest ν → Forest ν}
    {key : α → κ} {key' : β → κ} {next next' : Forest ν} {xs : List α} {ys : List β}
    (h : xs.foldr node next = ys.foldr node' next')
    (hnode : ∀ x ∈ xs, ∀ y ∈ ys, ∀ f g, node x f = node' y g → key x = key' y ∧ f = g)
    (hne : ∀ x f, node x f ≠ next') (hne' : ∀ y f, node' y f ≠ next) :
    xs.map key = ys.map key' ∧ next = next' := by
  induction xs generalizing ys with
  | nil =>
    cases ys with
    | nil => exact ⟨rfl, h⟩
    | cons y ys => exact absurd h.symm (hne' y _)
  | cons x xs ih =>
    cases ys with
    | nil => exact absurd h (hne x _)
    | cons y ys =>
      obtain ⟨hxy, hrest⟩ := hnode x List.mem_cons_self y List.mem_cons_self _ _ h
      obtain ⟨hkeys, hnext⟩ := ih hrest fun a ha b hb =>
        hnode a (List.mem_cons_of_mem _ ha) b (List.mem_cons_of_mem _ hb)
      exact ⟨by rw [List.map_cons, List.map_cons, hxy, hkeys], hnext⟩

end

end Xml
