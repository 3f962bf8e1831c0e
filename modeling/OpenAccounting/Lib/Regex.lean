import Mathlib.Data.List.Chain
import Mathlib.Order.Basic

/-!
# Regular expressions

The part of a syntax of regular expressions that has no groups, classes and alternatives: characters,
escaped characters, `.`, the anchors `^` and `$`, and behind an expression its repetitions `*` and
`{…}`.  An expression matches a text when it matches a part of it, and `.` matches every character
but a line feed.

An engine is known by its documentation only.  It accepts no expression that is malformed, and what
it accepts it matches as the syntax says.  How the numbers between braces are read is its own affair.
Limits on the size of an expression are left out.
-/

namespace Regex

/-! ## Expressions -/

/-- An expression of a sequence. -/
inductive Node where
  | start
  | finish
  | any
  | lit (c : Char)
  | rep (n : Node) (min : ℕ) (max : Option ℕ)

/-- A place in a text: what is in front of it, and what is behind it. -/
abbrev Place := List Char × List Char

/-- A number of steps. -/
def Iterated (R : Place → Place → Prop) : ℕ → Place → Place → Prop
  | 0, x, y => x = y
  | k + 1, x, y => ∃ z, R x z ∧ Iterated R k z y

/-- The expression matches what is between two places. -/
def Node.Step : Node → Place → Place → Prop
  | .start, x, y => x = y ∧ x.1 = []
  | .finish, x, y => x = y ∧ x.2 = []
  | .any, x, y => ∃ c, c ≠ '\n' ∧ x.2 = c :: y.2 ∧ y.1 = x.1 ++ [c]
  | .lit c, x, y => x.2 = c :: y.2 ∧ y.1 = x.1 ++ [c]
  | .rep n min max, x, y => ∃ k, min ≤ k ∧ (∀ m ∈ max, k ≤ m) ∧ Iterated n.Step k x y

/-- The expressions match what is between two places, one after the other. -/
def Run : List Node → Place → Place → Prop
  | [], x, y => x = y
  | n :: ns, x, y => ∃ z, n.Step x z ∧ Run ns z y

/-- The expressions match a part of the text. -/
def Matches (nodes : List Node) (text : List Char) : Prop :=
  ∃ before behind place, text = before ++ behind ∧ Run nodes (before, behind) place

theorem run_append {ns ms : List Node} {x y : Place} :
    Run (ns ++ ms) x y ↔ ∃ z, Run ns x z ∧ Run ms z y := by
  induction ns generalizing x with
  | nil => simp [Run]
  | cons n ns ih =>
    simp only [List.cons_append, Run, ih]
    constructor
    · rintro ⟨z, hz, w, hw, hy⟩
      exact ⟨w, ⟨z, hz, hw⟩, hy⟩
    · rintro ⟨w, ⟨z, hz, hw⟩, hy⟩
      exact ⟨z, hz, w, hw, hy⟩

theorem step_text {n : Node} {x y : Place} (h : n.Step x y) : x.1 ++ x.2 = y.1 ++ y.2 := by
  induction n generalizing x y with
  | start => rw [h.1]
  | finish => rw [h.1]
  | any =>
    obtain ⟨c, -, hrest, hfront⟩ := h
    simp [hrest, hfront]
  | lit c =>
    obtain ⟨hrest, hfront⟩ := h
    simp [hrest, hfront]
  | rep n min max ih =>
    obtain ⟨k, -, -, hk⟩ := h
    induction k generalizing x with
    | zero => rw [show x = y from hk]
    | succ k ihk =>
      obtain ⟨z, hz, hrest⟩ := hk
      exact (ih hz).trans (ihk hrest)

theorem run_text {ns : List Node} {x y : Place} (h : Run ns x y) : x.1 ++ x.2 = y.1 ++ y.2 := by
  induction ns generalizing x with
  | nil => rw [show x = y from h]
  | cons n ns ih =>
    obtain ⟨z, hz, hrest⟩ := h
    exact (step_text hz).trans (ih hrest)

theorem matches_anchored {nodes : List Node} {text : List Char} :
    Matches (.start :: (nodes ++ [.finish])) text ↔ Run nodes ([], text) (text, []) := by
  constructor
  · rintro ⟨before, behind, place, rfl, z, ⟨rfl, hstart⟩, hrun⟩
    obtain ⟨⟨u, v⟩, hrun, w, ⟨rfl, hfinish⟩, -⟩ := run_append.mp hrun
    obtain rfl : before = [] := hstart
    obtain rfl : v = [] := hfinish
    have hall : behind = u := by simpa using run_text hrun
    rw [hall] at hrun
    rw [hall]
    exact hrun
  · intro hrun
    refine ⟨[], text, (text, []), rfl, ([], text), ⟨rfl, rfl⟩, run_append.mpr ?_⟩
    exact ⟨(text, []), hrun, (text, []), ⟨rfl, rfl⟩, rfl⟩

theorem step_rep_any {u v u' v' : List Char} :
    (Node.rep .any 0 none).Step (u, v) (u', v') ↔
      ∃ front, (∀ c ∈ front, c ≠ '\n') ∧ v = front ++ v' ∧ u' = u ++ front := by
  have hiter : ∀ k u v, Iterated Node.any.Step k (u, v) (u', v') ↔
      ∃ front : List Char, front.length = k ∧ (∀ c ∈ front, c ≠ '\n') ∧ v = front ++ v' ∧
        u' = u ++ front := by
    intro k
    induction k with
    | zero =>
      intro u v
      simp only [Iterated, Prod.mk.injEq, List.length_eq_zero_iff]
      constructor
      · rintro ⟨rfl, rfl⟩
        exact ⟨[], rfl, by simp, rfl, by simp⟩
      · rintro ⟨front, rfl, -, rfl, rfl⟩
        simp
    | succ k ih =>
      intro u v
      constructor
      · rintro ⟨⟨w, z⟩, ⟨c, hc, hv, hw⟩, hrest⟩
        obtain ⟨front, hlength, hfront, hz, hu⟩ := (ih w z).mp hrest
        dsimp only at hv hw
        subst hv hw hz hu
        exact ⟨c :: front, by simp [hlength], List.forall_mem_cons.mpr ⟨hc, hfront⟩, by simp,
          by simp⟩
      · rintro ⟨front, hlength, hfront, rfl, rfl⟩
        obtain ⟨c, front, rfl⟩ := List.exists_cons_of_ne_nil
          (List.ne_nil_of_length_eq_add_one hlength)
        obtain ⟨hc, hfront⟩ := List.forall_mem_cons.mp hfront
        refine ⟨(u ++ [c], front ++ v'), ⟨c, hc, rfl, rfl⟩, (ih _ _).mpr ?_⟩
        exact ⟨front, by simpa using hlength, hfront, rfl, by simp⟩
  constructor
  · rintro ⟨k, -, -, h⟩
    obtain ⟨front, -, hfront⟩ := (hiter k u v).mp h
    exact ⟨front, hfront⟩
  · rintro ⟨front, hfront⟩
    exact ⟨front.length, Nat.zero_le _, by simp, (hiter _ u v).mpr ⟨front, rfl, hfront⟩⟩

/-! ## Syntax -/

/-- A character of an expression, with a backslash in front of it or without. -/
inductive Token where
  | plain (c : Char)
  | escaped (c : Char)
deriving DecidableEq

/-- The tokens of an expression. -/
def lex : List Char → List Token
  | [] => []
  | '\\' :: c :: cs => .escaped c :: lex cs
  | c :: cs => .plain c :: lex cs

/-- The expression of a token that is not a repetition. -/
def Token.atom : Token → Node
  | .escaped c => .lit c
  | .plain c =>
    if c = '^' then .start
    else if c = '$' then .finish
    else if c = '.' then .any
    else .lit c

/-- The last expression is repeated. -/
def repeatLast (min : ℕ) (max : Option ℕ) (nodes : List Node) : Option (List Node) :=
  if ∀ m ∈ max, min ≤ m then
    nodes.getLast?.map fun n => nodes.dropLast ++ [.rep n min max]
  else none

/-- The tokens up to a closing brace, and those behind it. -/
def cutBrace : List Token → Option (List Token × List Token)
  | [] => none
  | t :: ts =>
    if t = .plain '}' then some ([], ts) else (cutBrace ts).map fun r => (t :: r.1, r.2)

theorem cutBrace_shorter {ts body rest : List Token} (h : cutBrace ts = some (body, rest)) :
    rest.length < ts.length := by
  induction ts generalizing body with
  | nil => cases h
  | cons t ts ih =>
    rw [cutBrace] at h
    split at h
    · cases h
      simp
    · obtain ⟨r, hr, heq⟩ := Option.map_eq_some_iff.mp h
      cases heq
      have hrest := ih hr
      rw [List.length_cons]
      omega

section

variable (bounds : List Token → Option (ℕ × Option ℕ))

/-- The expressions of a sequence of tokens, behind those that were read before. -/
def parseFrom (nodes : List Node) (ts : List Token) : Option (List Node) :=
  match ts with
  | [] => some nodes
  | t :: ts =>
    if t = .plain '*' then
      (repeatLast 0 none nodes).bind fun nodes => parseFrom nodes ts
    else if t = .plain '{' then
      match h : cutBrace ts with
      | none => none
      | some (body, rest) =>
        have : rest.length < ts.length := cutBrace_shorter h
        (bounds body).bind fun b =>
          (repeatLast b.1 b.2 nodes).bind fun nodes => parseFrom nodes rest
    else parseFrom (nodes ++ [t.atom]) ts
termination_by ts.length

/-- The expressions of a sequence of tokens. -/
def parse (ts : List Token) : Option (List Node) := parseFrom bounds [] ts

variable {bounds} {nodes : List Node} {ts : List Token}

theorem parseFrom_nil : parseFrom bounds nodes [] = some nodes := by
  rw [parseFrom]

theorem parseFrom_star :
    parseFrom bounds nodes (.plain '*' :: ts) =
      (repeatLast 0 none nodes).bind fun nodes => parseFrom bounds nodes ts := by
  rw [parseFrom, if_pos rfl]

theorem parseFrom_open (h : cutBrace ts = none) :
    parseFrom bounds nodes (.plain '{' :: ts) = none := by
  rw [parseFrom, if_neg (by decide), if_pos rfl]
  split
  · rfl
  · next heq => rw [h] at heq; cases heq

theorem parseFrom_brace {body rest : List Token} (h : cutBrace ts = some (body, rest)) :
    parseFrom bounds nodes (.plain '{' :: ts) = (bounds body).bind fun b =>
      (repeatLast b.1 b.2 nodes).bind fun nodes => parseFrom bounds nodes rest := by
  rw [parseFrom, if_neg (by decide), if_pos rfl]
  split
  · next heq => rw [h] at heq; cases heq
  · next heq =>
      rw [h] at heq
      cases heq
      rfl

theorem parseFrom_atom {t : Token} (hstar : t ≠ .plain '*') (hbrace : t ≠ .plain '{') :
    parseFrom bounds nodes (t :: ts) = parseFrom bounds (nodes ++ [t.atom]) ts := by
  rw [parseFrom, if_neg hstar, if_neg hbrace]

end

/-! ## Texts that match -/

section

/-- The expression can be matched at the start of each text, where it matches nothing. -/
def Node.Rooted (n : Node) : Prop := ∀ v, n.Step ([], v) ([], v)

/-- The expression can be matched anywhere, and without the character. -/
def Node.Free (b : Char) (n : Node) : Prop :=
  ∃ w : List Char, b ∉ w ∧ ∀ u v, n.Step (u, w ++ v) (u ++ w, v)

theorem Node.Rooted.rep {n : Node} (h : n.Rooted) {min : ℕ} {max : Option ℕ}
    (hmax : ∀ m ∈ max, min ≤ m) : (Node.rep n min max).Rooted := by
  intro v
  have hiter : ∀ k, Iterated n.Step k ([], v) ([], v) := by
    intro k
    induction k with
    | zero => rfl
    | succ k ih => exact ⟨([], v), h v, ih⟩
  exact ⟨min, Nat.le_refl min, hmax, hiter min⟩

variable {b : Char} {nodes : List Node} {ts : List Token}

theorem Node.Free.rep {n : Node} (h : n.Free b) {min : ℕ} {max : Option ℕ}
    (hmax : ∀ m ∈ max, min ≤ m) : (Node.rep n min max).Free b := by
  obtain ⟨w, hw, hstep⟩ := h
  have hiter : ∀ k, ∃ ws : List Char, b ∉ ws ∧ ∀ u v, Iterated n.Step k (u, ws ++ v) (u ++ ws, v) := by
    intro k
    induction k with
    | zero => exact ⟨[], by simp, fun u v => by simp [Iterated]⟩
    | succ k ih =>
      obtain ⟨ws, hws, hrest⟩ := ih
      refine ⟨w ++ ws, by simp [hw, hws], fun u v => ⟨(u ++ w, ws ++ v), ?_, ?_⟩⟩
      · rw [List.append_assoc]
        exact hstep u (ws ++ v)
      · rw [← List.append_assoc]
        exact hrest (u ++ w) v
  obtain ⟨ws, hws, hrest⟩ := hiter min
  exact ⟨ws, hws, fun u v => ⟨min, Nat.le_refl min, hmax, hrest u v⟩⟩

/-- Expressions of which the first matches nothing at the start, and the others anywhere. -/
def Sampled (b : Char) (nodes : List Node) : Prop :=
  ∃ n ns, nodes = n :: ns ∧ n.Rooted ∧ ∀ m ∈ ns, m.Free b

theorem Sampled.concat (h : Sampled b nodes) {n : Node} (hn : n.Free b) :
    Sampled b (nodes ++ [n]) := by
  obtain ⟨m, ms, rfl, hm, hms⟩ := h
  refine ⟨m, ms ++ [n], rfl, hm, ?_⟩
  simp only [List.forall_mem_append, List.forall_mem_singleton]
  exact ⟨hms, hn⟩

theorem Sampled.repeatLast {nodes' : List Node} (h : Sampled b nodes) {min : ℕ} {max : Option ℕ}
    (heq : repeatLast min max nodes = some nodes') : Sampled b nodes' := by
  rw [Regex.repeatLast] at heq
  split at heq
  · next hmax =>
      obtain ⟨last, hlast, rfl⟩ := Option.map_eq_some_iff.mp heq
      obtain ⟨n, ns, rfl, hn, hns⟩ := h
      rcases List.eq_nil_or_concat ns with rfl | ⟨ms, l, rfl⟩
      · obtain rfl : n = last := Option.some.inj hlast
        exact ⟨_, [], rfl, hn.rep hmax, by simp⟩
      · rw [List.concat_eq_append] at hlast hns ⊢
        rw [← List.cons_append, List.getLast?_concat] at hlast
        obtain rfl : l = last := Option.some.inj hlast
        rw [List.forall_mem_append, List.forall_mem_singleton] at hns
        rw [← List.cons_append, List.dropLast_concat, List.cons_append]
        refine ⟨n, ms ++ [.rep l min max], rfl, hn, ?_⟩
        rw [List.forall_mem_append, List.forall_mem_singleton]
        exact ⟨hns.1, hns.2.rep hmax⟩
  · cases heq

/-- A token that is a repetition, or an expression that can be matched anywhere. -/
def Token.Inner (b : Char) (t : Token) : Prop :=
  t = .plain '*' ∨ t = .plain '{' ∨ t.atom.Free b

theorem cutBrace_concat {t : Token} (ht : t ≠ .plain '}') :
    cutBrace (ts ++ [t]) = (cutBrace ts).map fun r => (r.1, r.2 ++ [t]) := by
  induction ts with
  | nil => simp [cutBrace, ht]
  | cons s ts ih =>
    rw [List.cons_append, cutBrace, cutBrace]
    split
    · rfl
    · rw [ih, Option.map_map, Option.map_map]
      rfl

theorem mem_of_cutBrace {body rest : List Token} (h : cutBrace ts = some (body, rest)) :
    rest ⊆ ts := by
  induction ts generalizing body with
  | nil => cases h
  | cons t ts ih =>
    rw [cutBrace] at h
    split at h
    · cases h
      exact List.subset_cons_self t _
    · obtain ⟨r, hr, heq⟩ := Option.map_eq_some_iff.mp h
      cases heq
      exact List.Subset.trans (ih hr) (List.subset_cons_self t ts)

theorem sampled_of_parseFrom {bounds : List Token → Option (ℕ × Option ℕ)}
    (hts : ∀ t ∈ ts, t.Inner b) {nodes' : List Node} (hnodes : Sampled b nodes)
    (h : parseFrom bounds nodes (ts ++ [.plain '$']) = some nodes') :
    ∃ inner, nodes' = inner ++ [.finish] ∧ Sampled b inner := by
  induction hn : ts.length using Nat.strongRecOn generalizing ts nodes with
  | _ n ih =>
    cases ts with
    | nil =>
      rw [List.nil_append, parseFrom_atom (by decide) (by decide), parseFrom_nil] at h
      cases h
      exact ⟨nodes, rfl, hnodes⟩
    | cons t ts =>
      obtain ⟨ht, hrest⟩ := List.forall_mem_cons.mp hts
      rw [List.cons_append] at h
      rw [List.length_cons] at hn
      by_cases hstar : t = .plain '*'
      · rw [hstar, parseFrom_star] at h
        obtain ⟨repeated, hrepeat, h⟩ := Option.bind_eq_some_iff.mp h
        exact ih ts.length (by omega) hrest (hnodes.repeatLast hrepeat) h rfl
      by_cases hbrace : t = .plain '{'
      · subst hbrace
        cases hcut : cutBrace ts with
        | none =>
          rw [parseFrom_open] at h
          · cases h
          · rw [cutBrace_concat (by decide), hcut]
            rfl
        | some r =>
          have hcut' : cutBrace (ts ++ [.plain '$']) = some (r.1, r.2 ++ [.plain '$']) := by
            rw [cutBrace_concat (by decide), hcut]
            rfl
          rw [parseFrom_brace hcut'] at h
          obtain ⟨numbers, -, h⟩ := Option.bind_eq_some_iff.mp h
          obtain ⟨repeated, hrepeat, h⟩ := Option.bind_eq_some_iff.mp h
          have hshort := cutBrace_shorter hcut
          exact ih r.2.length (by omega) (fun t ht => hrest t (mem_of_cutBrace hcut ht))
            (hnodes.repeatLast hrepeat) h rfl
      · rw [parseFrom_atom hstar hbrace] at h
        have hfree : t.atom.Free b := (ht.resolve_left hstar).resolve_left hbrace
        exact ih ts.length (by omega) hrest (hnodes.concat hfree) h rfl

/-- An expression between anchors matches a text without the character, unless it is malformed. -/
theorem exists_matches {bounds : List Token → Option (ℕ × Option ℕ)} (hts : ∀ t ∈ ts, t.Inner b)
    (h : parse bounds (.plain '^' :: (ts ++ [.plain '$'])) = some nodes) :
    ∃ text, b ∉ text ∧ Matches nodes text := by
  rw [parse, parseFrom_atom (by decide) (by decide)] at h
  have hstart : Sampled b ([] ++ [(Token.plain '^').atom]) :=
    ⟨.start, [], rfl, fun v => ⟨rfl, rfl⟩, by simp⟩
  obtain ⟨inner, rfl, n, ns, rfl, hroot, hfree⟩ := sampled_of_parseFrom hts hstart h
  have hrun : ∀ ns : List Node, (∀ m ∈ ns, m.Free b) →
      ∃ w, b ∉ w ∧ ∀ u v, Run ns (u, w ++ v) (u ++ w, v) := by
    intro ns hns
    induction ns with
    | nil => exact ⟨[], by simp, fun u v => by simp [Run]⟩
    | cons m ms ih =>
      obtain ⟨⟨w, hw, hstep⟩, hms⟩ := List.forall_mem_cons.mp hns
      obtain ⟨ws, hws, hrest⟩ := ih hms
      refine ⟨w ++ ws, by simp [hw, hws], fun u v => ⟨(u ++ w, ws ++ v), ?_, ?_⟩⟩
      · rw [List.append_assoc]
        exact hstep u (ws ++ v)
      · rw [← List.append_assoc]
        exact hrest (u ++ w) v
  obtain ⟨w, hw, hrun⟩ := hrun ns hfree
  refine ⟨w, hw, [], w, (w, []), rfl, ?_⟩
  refine run_append.mpr ⟨(w, []), ⟨([], w), hroot w, ?_⟩, (w, []), ⟨rfl, rfl⟩, rfl⟩
  have hall := hrun [] []
  rwa [List.append_nil, List.nil_append] at hall

end

/-! ## Engines -/

section

/-- The token is in the part of the syntax that is described here. -/
def Token.Simple : Token → Prop
  | .plain c => c ∉ ['(', ')', '[', ']', '|', '+', '?', '\\']
  | .escaped c => c ∈ ['.', '(', ')', '[', ']', '\\', '+', '*', '?', '|', '^', '$']

structure Engine where
  /-- How often an expression is repeated, from the text between its braces. -/
  bounds : List Token → Option (ℕ × Option ℕ)
  /-- An expression that is accepted, as a test of texts. -/
  compile : String → Option (String → Bool)

/-- The engine behaves as documented. -/
structure Engine.Documented (e : Engine) : Prop where
  /-- What is accepted is well formed, and matches as the syntax says. -/
  matches_iff : ∀ re isMatch, (∀ t ∈ lex re.toList, t.Simple) → e.compile re = some isMatch →
    ∃ nodes, parse e.bounds (lex re.toList) = some nodes ∧
      ∀ text : String, isMatch text = true ↔ Matches nodes text.toList
  /-- What is well formed and has no counted and no nested repetitions is accepted. -/
  accepts : ∀ re, (∀ t ∈ lex re.toList, t.Simple ∧ t ≠ .plain '{') →
    (lex re.toList).IsChain (fun s t => ¬ (s = .plain '*' ∧ t = .plain '*')) →
      parse e.bounds (lex re.toList) ≠ none → e.compile re ≠ none

end

end Regex
