import OpenAccounting.Handlers.RulesApply

/-!
# Patterns of `LIKE`

A pattern is translated to a regular expression, character by character.  Two characters are not
translated to what they stand for: a brace opens a counted repetition, and a wildcard matches every
character but a line feed.
-/

namespace OpenAccounting.LikePatterns

open Regex ReconciliationRules

/-! ## Meaning -/

/-- The text can be split according to the pattern.  `Wild` are the characters that the wildcards
stand for. -/
inductive Splits (Wild : Char → Prop) : List Char → List Char → Prop where
  | nil : Splits Wild [] []
  | percent {pattern front text : List Char} :
      (∀ c ∈ front, Wild c) → Splits Wild pattern text →
        Splits Wild ('%' :: pattern) (front ++ text)
  | underscore {pattern text : List Char} {c : Char} :
      Wild c → Splits Wild pattern text → Splits Wild ('_' :: pattern) (c :: text)
  | literal {pattern text : List Char} {c : Char} :
      c ≠ '%' → c ≠ '_' → Splits Wild pattern text → Splits Wild (c :: pattern) (c :: text)

section

variable {Wild : Char → Prop} {pattern text : List Char}

theorem Splits.mono {Wild' : Char → Prop} (hwild : ∀ c, Wild c → Wild' c)
    (h : Splits Wild pattern text) : Splits Wild' pattern text := by
  induction h with
  | nil => exact .nil
  | percent hfront h ih => exact .percent (fun c hc => hwild c (hfront c hc)) ih
  | underscore hd h ih => exact .underscore (hwild _ hd) ih
  | literal hp hu h ih => exact .literal hp hu ih

theorem Splits.mem (h : Splits Wild pattern text) {c : Char} (hc : c ∈ pattern)
    (hpercent : c ≠ '%') (hunderscore : c ≠ '_') : c ∈ text := by
  induction h with
  | nil => cases hc
  | percent hfront h ih =>
    exact List.mem_append_right _ (ih ((List.mem_cons.mp hc).resolve_left hpercent))
  | underscore hwild h ih =>
    exact List.mem_cons_of_mem _ (ih ((List.mem_cons.mp hc).resolve_left hunderscore))
  | literal hp hu h ih =>
    rcases List.mem_cons.mp hc with rfl | hc
    · exact List.mem_cons_self
    · exact List.mem_cons_of_mem _ (ih hc)

theorem splits_plain (hplain : ∀ c ∈ pattern, c ≠ '%' ∧ c ≠ '_') :
    Splits Wild pattern text ↔ text = pattern := by
  constructor
  · intro h
    induction h with
    | nil => rfl
    | percent hfront h ih => exact absurd rfl (hplain '%' List.mem_cons_self).1
    | underscore hwild h ih => exact absurd rfl (hplain '_' List.mem_cons_self).2
    | literal hp hu h ih => rw [ih fun c hc => hplain c (List.mem_cons_of_mem _ hc)]
  · rintro rfl
    induction text with
    | nil => exact .nil
    | cons c cs ih =>
      obtain ⟨hc, hcs⟩ := List.forall_mem_cons.mp hplain
      exact .literal hc.1 hc.2 (ih hcs)

/-- Wildcards that stand for no line feeds leave their number unchanged. -/
theorem Splits.count_newline (h : Splits (fun c => c ≠ '\n') pattern text) :
    text.count '\n' = pattern.count '\n' := by
  induction h with
  | nil => rfl
  | percent hfront h ih =>
    rw [List.count_append, List.count_eq_zero.mpr fun hmem => hfront '\n' hmem rfl, ih, zero_add,
      List.count_cons_of_ne (by decide)]
  | underscore hwild h ih =>
    rw [List.count_cons_of_ne hwild, ih, List.count_cons_of_ne (by decide)]
  | literal hp hu h ih => rw [List.count_cons, List.count_cons, ih]

/-- The text in which a character stands for each wildcard. -/
def fill (d : Char) (pattern : List Char) : List Char :=
  pattern.map fun c => if c = '%' ∨ c = '_' then d else c

theorem splits_fill {d : Char} (hd : Wild d) : Splits Wild pattern (fill d pattern) := by
  induction pattern with
  | nil => exact .nil
  | cons c cs ih =>
    rw [fill, List.map_cons]
    split
    · next hc =>
        rcases hc with rfl | rfl
        · have hfront : ∀ c ∈ [d], Wild c := by simpa using hd
          exact .percent hfront ih
        · exact .underscore hd ih
    · next hc =>
        rw [not_or] at hc
        exact .literal hc.1 hc.2 ih

theorem count_fill : (fill '\n' pattern).count '\n' =
    pattern.count '\n' + pattern.countP fun c => c = '%' ∨ c = '_' := by
  induction pattern with
  | nil => rfl
  | cons c cs ih =>
    rw [fill, List.map_cons, ← fill, List.countP_cons]
    split
    · next hc =>
        have hne : c ≠ '\n' := by rcases hc with rfl | rfl <;> decide
        rw [List.count_cons_self, ih, List.count_cons_of_ne hne, if_pos (decide_eq_true hc)]
        omega
    · next hc =>
        rw [List.count_cons, List.count_cons, ih]
        have hplain : ¬ decide (c = '%' ∨ c = '_') = true := by simpa using hc
        rw [if_neg hplain]
        omega

end

/-! ## The expression of a pattern -/

/-- The tokens of a character of a pattern. -/
def charTokens (c : Char) : List Token :=
  if c = '%' then [.plain '.', .plain '*']
  else if c = '_' then [.plain '.']
  else if c ∈ escaped then [.escaped c]
  else [.plain c]

/-- The expressions of a character of a pattern. -/
def charNodes (c : Char) : List Node :=
  if c = '%' then [.rep .any 0 none]
  else if c = '_' then [.any]
  else [.lit c]

theorem char_cases (c : Char) :
    c = '%' ∨ c = '_' ∨ (c ≠ '%' ∧ c ≠ '_' ∧ c ∈ escaped) ∨ (c ≠ '%' ∧ c ≠ '_' ∧ c ∉ escaped) := by
  by_cases hpercent : c = '%'
  · exact .inl hpercent
  by_cases hunderscore : c = '_'
  · exact .inr (.inl hunderscore)
  by_cases hmem : c ∈ escaped
  · exact .inr (.inr (.inl ⟨hpercent, hunderscore, hmem⟩))
  · exact .inr (.inr (.inr ⟨hpercent, hunderscore, hmem⟩))

theorem lex_plain {c : Char} (hc : c ≠ '\\') (cs : List Char) : lex (c :: cs) = .plain c :: lex cs := by
  rw [lex]
  rintro d ds rfl
  exact absurd rfl hc

theorem lex_translate (c : Char) (cs : List Char) :
    lex (translate c ++ cs) = charTokens c ++ lex cs := by
  rcases char_cases c with rfl | rfl | ⟨hp, hu, hc⟩ | ⟨hp, hu, hc⟩
  · exact (lex_plain (by decide) _).trans (congrArg _ (lex_plain (by decide) _))
  · exact lex_plain (by decide) _
  · rw [ReconciliationRules.translate, charTokens, if_neg hp, if_neg hu, if_pos hc, if_neg hp,
      if_neg hu, if_pos hc]
    rfl
  · rw [ReconciliationRules.translate, charTokens, if_neg hp, if_neg hu, if_neg hc, if_neg hp,
      if_neg hu, if_neg hc]
    have hslash : c ≠ '\\' := fun h => hc (h ▸ by decide)
    exact lex_plain hslash cs

theorem lex_likeRegex (pattern : String) : lex (likeRegex pattern).toList =
    .plain '^' :: (pattern.toList.flatMap charTokens ++ [.plain '$']) := by
  rw [likeRegex, String.toList_ofList, lex_plain (by decide)]
  congr 1
  induction pattern.toList with
  | nil => rfl
  | cons c cs ih =>
    rw [List.flatMap_cons, List.flatMap_cons, List.append_assoc, lex_translate, ih,
      List.append_assoc]

theorem simple_charTokens {c : Char} {t : Token} (ht : t ∈ charTokens c) : t.Simple := by
  rcases char_cases c with rfl | rfl | ⟨hp, hu, hc⟩ | ⟨hp, hu, hc⟩
  · rcases List.mem_pair.mp ht with rfl | rfl
    · simp [Token.Simple]
    · simp [Token.Simple]
  · rw [List.mem_singleton.mp ht]
    simp [Token.Simple]
  · rw [charTokens, if_neg hp, if_neg hu, if_pos hc, List.mem_singleton] at ht
    rw [ht]
    exact hc
  · rw [charTokens, if_neg hp, if_neg hu, if_neg hc, List.mem_singleton] at ht
    rw [ht]
    simp only [escaped, List.mem_cons, List.not_mem_nil, or_false, not_or] at hc
    simp only [Token.Simple, List.mem_cons, List.not_mem_nil, or_false, not_or]
    tauto

theorem atom_plain {c : Char} (hc : c ∉ escaped) : (Token.plain c).atom = .lit c := by
  have hstart : c ≠ '^' := fun h => hc (h ▸ by decide)
  have hfinish : c ≠ '$' := fun h => hc (h ▸ by decide)
  have hany : c ≠ '.' := fun h => hc (h ▸ by decide)
  simp [Token.atom, hstart, hfinish, hany]

theorem free_any {b : Char} (hb : b ≠ 'a') : Node.any.Free b :=
  ⟨['a'], by simpa using hb, fun u v => ⟨'a', by decide, rfl, rfl⟩⟩

theorem free_lit {b c : Char} (hc : c ≠ b) : (Node.lit c).Free b :=
  ⟨[c], by simpa using hc.symm, fun u v => ⟨rfl, rfl⟩⟩

theorem inner_charTokens {c : Char} {t : Token} (ht : t ∈ charTokens c) : t.Inner '{' := by
  rcases char_cases c with rfl | rfl | ⟨hp, hu, hc⟩ | ⟨hp, hu, hc⟩
  · rcases List.mem_pair.mp ht with rfl | rfl
    · exact .inr (.inr (free_any (by decide)))
    · exact .inl rfl
  · rw [List.mem_singleton.mp ht]
    exact .inr (.inr (free_any (by decide)))
  · rw [charTokens, if_neg hp, if_neg hu, if_pos hc, List.mem_singleton] at ht
    rw [ht]
    exact .inr (.inr (free_lit fun h => absurd hc (h ▸ by decide)))
  · rw [charTokens, if_neg hp, if_neg hu, if_neg hc, List.mem_singleton] at ht
    rw [ht]
    by_cases hbrace : c = '{'
    · exact .inr (.inl (congrArg _ hbrace))
    · refine .inr (.inr ?_)
      rw [atom_plain hc]
      exact free_lit hbrace

theorem simple_likeRegex {pattern : String} {t : Token} (ht : t ∈ lex (likeRegex pattern).toList) :
    t.Simple := by
  rw [lex_likeRegex, List.mem_cons, List.mem_append, List.mem_flatMap, List.mem_singleton] at ht
  rcases ht with rfl | ⟨c, -, hc⟩ | rfl
  · simp [Token.Simple]
  · exact simple_charTokens hc
  · simp [Token.Simple]

theorem isChain_likeRegex (pattern : String) :
    (lex (likeRegex pattern).toList).IsChain
      fun s t => ¬ (s = .plain '*' ∧ t = .plain '*') := by
  rw [lex_likeRegex]
  generalize Token.plain '^' = before
  induction pattern.toList generalizing before with
  | nil => exact .cons_cons (by simp) (.singleton _)
  | cons c cs ih =>
    rw [List.flatMap_cons, List.append_assoc]
    rcases char_cases c with rfl | rfl | ⟨hp, hu, hc⟩ | ⟨hp, hu, hc⟩
    · exact .cons_cons (by simp) (.cons_cons (by simp) (ih _))
    · exact .cons_cons (by simp) (ih _)
    · rw [charTokens, if_neg hp, if_neg hu, if_pos hc]
      exact .cons_cons (by simp) (ih _)
    · rw [charTokens, if_neg hp, if_neg hu, if_neg hc]
      refine .cons_cons ?_ (ih _)
      rintro ⟨-, heq⟩
      exact hc (Token.plain.inj heq ▸ by decide)

/-! ## Patterns without braces -/

section

variable {bounds : List Token → Option (ℕ × Option ℕ)}

theorem parseFrom_charTokens {c : Char} (hc : c ≠ '{') (nodes : List Node) (ts : List Token) :
    parseFrom bounds nodes (charTokens c ++ ts) = parseFrom bounds (nodes ++ charNodes c) ts := by
  rcases char_cases c with rfl | rfl | ⟨hp, hu, hmem⟩ | ⟨hp, hu, hmem⟩
  · refine (parseFrom_atom (by decide) (by decide)).trans (parseFrom_star.trans ?_)
    rw [repeatLast, if_pos (by simp), List.getLast?_concat, List.dropLast_concat]
    rfl
  · exact parseFrom_atom (by decide) (by decide)
  · rw [charTokens, charNodes, if_neg hp, if_neg hu, if_pos hmem, if_neg hp, if_neg hu]
    exact parseFrom_atom (by simp) (by simp)
  · rw [charTokens, charNodes, if_neg hp, if_neg hu, if_neg hmem, if_neg hp, if_neg hu]
    have hstar : c ≠ '*' := fun h => hmem (h ▸ by decide)
    rw [← atom_plain hmem]
    exact parseFrom_atom (by simpa using hstar) (by simpa using hc)

theorem parse_likeRegex {pattern : String} (hbrace : '{' ∉ pattern.toList) :
    parse bounds (lex (likeRegex pattern).toList) =
      some (.start :: (pattern.toList.flatMap charNodes ++ [.finish])) := by
  rw [lex_likeRegex, parse, parseFrom_atom (by decide) (by decide)]
  have hparse : ∀ (cs : List Char) (nodes : List Node), '{' ∉ cs →
      parseFrom bounds nodes (cs.flatMap charTokens ++ [.plain '$']) =
        some (nodes ++ (cs.flatMap charNodes ++ [.finish])) := by
    intro cs
    induction cs with
    | nil =>
      intro nodes _
      exact (parseFrom_atom (by decide) (by decide)).trans parseFrom_nil
    | cons c cs ih =>
      intro nodes hcs
      rw [List.mem_cons, not_or] at hcs
      rw [List.flatMap_cons, List.append_assoc, parseFrom_charTokens (Ne.symm hcs.1),
        ih _ hcs.2, List.flatMap_cons, List.append_assoc, List.append_assoc]
  exact hparse pattern.toList _ hbrace

end

/-- The nodes of a pattern match what the pattern splits, without line breaks. -/
theorem run_charNodes {pattern u v place : List Char} :
    Run (pattern.flatMap charNodes) (u, v) (place, []) ↔
      Splits (fun c => c ≠ '\n') pattern v ∧ place = u ++ v := by
  induction pattern generalizing u v with
  | nil =>
    constructor
    · intro h
      obtain ⟨rfl, rfl⟩ := Prod.mk.inj (show (u, v) = (place, []) from h)
      exact ⟨.nil, by simp⟩
    · rintro ⟨⟨⟩, rfl⟩
      rw [List.append_nil]
      rfl
  | cons c cs ih =>
    rw [List.flatMap_cons, run_append]
    by_cases hpercent : c = '%'
    · subst hpercent
      constructor
      · rintro ⟨⟨u', v'⟩, ⟨z, hz, hrun⟩, hrest⟩
        obtain rfl : z = (u', v') := hrun
        obtain ⟨front, hfront, rfl, rfl⟩ := step_rep_any.mp hz
        obtain ⟨hsplits, rfl⟩ := ih.mp hrest
        exact ⟨.percent hfront hsplits, List.append_assoc _ _ _⟩
      · rintro ⟨hsplits, rfl⟩
        cases hsplits with
        | @percent _ front text hfront hsplits =>
          refine ⟨(u ++ front, text), ⟨_, step_rep_any.mpr ⟨front, hfront, rfl, rfl⟩, rfl⟩, ?_⟩
          exact ih.mpr ⟨hsplits, (List.append_assoc _ _ _).symm⟩
        | literal hp hu hsplits => exact absurd rfl hp
    by_cases hunderscore : c = '_'
    · subst hunderscore
      constructor
      · rintro ⟨⟨u', v'⟩, ⟨z, ⟨d, hd, hv, hu⟩, hrun⟩, hrest⟩
        obtain rfl : z = (u', v') := hrun
        dsimp only at hv hu
        subst hv hu
        obtain ⟨hsplits, rfl⟩ := ih.mp hrest
        exact ⟨.underscore hd hsplits, List.append_assoc _ _ _⟩
      · rintro ⟨hsplits, rfl⟩
        cases hsplits with
        | @underscore _ text d hd hsplits =>
          refine ⟨(u ++ [d], text), ⟨_, ⟨d, hd, rfl, rfl⟩, rfl⟩, ?_⟩
          exact ih.mpr ⟨hsplits, List.append_cons u d text⟩
        | literal hp hu hsplits => exact absurd rfl hu
    · rw [charNodes, if_neg hpercent, if_neg hunderscore]
      constructor
      · rintro ⟨⟨u', v'⟩, ⟨z, ⟨hv, hu⟩, hrun⟩, hrest⟩
        obtain rfl : z = (u', v') := hrun
        dsimp only at hv hu
        subst hv hu
        obtain ⟨hsplits, rfl⟩ := ih.mp hrest
        exact ⟨.literal hpercent hunderscore hsplits, List.append_assoc _ _ _⟩
      · rintro ⟨hsplits, rfl⟩
        cases hsplits with
        | percent hfront hsplits => exact absurd rfl hpercent
        | underscore hd hsplits => exact absurd rfl hunderscore
        | @literal _ text _ hp hu hsplits =>
          refine ⟨(u ++ [c], text), ⟨_, ⟨rfl, rfl⟩, rfl⟩, ?_⟩
          exact ih.mpr ⟨hsplits, List.append_cons u c text⟩

section

variable {e : Engine} (he : e.Documented) {pattern s : String}

include he

/-- Without a brace, wildcards stand for every character but a line feed. -/
theorem sqlLikeMatch_iff (hbrace : '{' ∉ pattern.toList) :
    sqlLikeMatch e pattern s = true ↔ Splits (fun c => c ≠ '\n') pattern.toList s.toList := by
  have hparse : parse e.bounds (lex (likeRegex pattern).toList) = _ := parse_likeRegex hbrace
  have hsimple : ∀ t ∈ lex (likeRegex pattern).toList, t.Simple ∧ t ≠ .plain '{' := by
    intro t ht
    refine ⟨simple_likeRegex ht, ?_⟩
    rintro rfl
    rw [lex_likeRegex, List.mem_cons, List.mem_append, List.mem_flatMap, List.mem_singleton] at ht
    obtain ⟨c, hc, ht⟩ := (ht.resolve_left (by decide)).resolve_right (by decide)
    rcases char_cases c with rfl | rfl | ⟨hp, hu, hmem⟩ | ⟨hp, hu, hmem⟩
    · exact absurd ht (by decide)
    · exact absurd ht (by decide)
    · rw [charTokens, if_neg hp, if_neg hu, if_pos hmem, List.mem_singleton] at ht
      cases ht
    · rw [charTokens, if_neg hp, if_neg hu, if_neg hmem, List.mem_singleton] at ht
      exact hbrace (Token.plain.inj ht ▸ hc)
  have haccept := he.accepts _ hsimple (isChain_likeRegex pattern) (by rw [hparse]; simp)
  obtain ⟨isMatch, hcompile⟩ := Option.ne_none_iff_exists'.mp haccept
  obtain ⟨nodes, hnodes, hmatch⟩ := he.matches_iff _ _ (fun t ht => (hsimple t ht).1) hcompile
  rw [hparse] at hnodes
  obtain rfl := Option.some.inj hnodes
  rw [sqlLikeMatch, hcompile]
  refine (hmatch s).trans (matches_anchored.trans (run_charNodes.trans ?_))
  simp

/-- With a brace there is a text that the pattern stands for and that is not matched, or the other
way round. -/
theorem brace_fails (hbrace : '{' ∈ pattern.toList) :
    ∃ s : String, ¬ (sqlLikeMatch e pattern s = true ↔
      Splits (fun _ => True) pattern.toList s.toList) := by
  by_contra hnone
  have hall : ∀ s : String, sqlLikeMatch e pattern s = true ↔
      Splits (fun _ => True) pattern.toList s.toList := by
    intro s
    by_contra hs
    exact hnone ⟨s, hs⟩
  have hfill : sqlLikeMatch e pattern (String.ofList (fill 'a' pattern.toList)) = true := by
    rw [hall, String.toList_ofList]
    exact splits_fill trivial
  rw [sqlLikeMatch] at hfill
  cases hcompile : e.compile (likeRegex pattern) with
  | none =>
    rw [hcompile] at hfill
    cases hfill
  | some isMatch =>
    obtain ⟨nodes, hnodes, hmatch⟩ := he.matches_iff _ _ (fun t => simple_likeRegex) hcompile
    rw [lex_likeRegex] at hnodes
    have hinner : ∀ t ∈ pattern.toList.flatMap charTokens, t.Inner '{' := by
      intro t ht
      obtain ⟨c, -, ht⟩ := List.mem_flatMap.mp ht
      exact inner_charTokens ht
    obtain ⟨text, hfree, htext⟩ := exists_matches hinner hnodes
    have hsplits := (hall (String.ofList text)).mp (by
      rw [sqlLikeMatch, hcompile]
      exact (hmatch _).mpr (by rwa [String.toList_ofList]))
    rw [String.toList_ofList] at hsplits
    exact hfree (hsplits.mem hbrace (by decide) (by decide))

end

/-! ## The meaning of `LIKE` -/

/-- A pattern is matched as `LIKE` means it if and only if it has neither braces nor wildcards.  One
without braces is matched as meant if and only if the text can be split so that no wildcard stands for
a line feed. -/
theorem sqlLikeMatch_like_iff {e : Engine} (he : e.Documented) (pattern : String) :
    ((∀ s : String, sqlLikeMatch e pattern s = true ↔
        Splits (fun _ => True) pattern.toList s.toList) ↔
      ∀ c ∈ pattern.toList, c ≠ '{' ∧ c ≠ '%' ∧ c ≠ '_') ∧
    ('{' ∉ pattern.toList → ∀ s : String,
      (sqlLikeMatch e pattern s = true ↔ Splits (fun _ => True) pattern.toList s.toList) ↔
        (Splits (fun _ => True) pattern.toList s.toList →
          Splits (fun c => c ≠ '\n') pattern.toList s.toList)) := by
  constructor
  · constructor
    · intro hall
      have hbrace : '{' ∉ pattern.toList := by
        intro hbrace
        obtain ⟨s, hs⟩ := brace_fails he hbrace
        exact hs (hall s)
      have hwild : ∀ c ∈ pattern.toList, ¬ (c = '%' ∨ c = '_') := by
        have hsplits := (hall (String.ofList (fill '\n' pattern.toList))).mpr (by
          rw [String.toList_ofList]
          exact splits_fill trivial)
        rw [sqlLikeMatch_iff he hbrace, String.toList_ofList] at hsplits
        have hcount := hsplits.count_newline
        rw [count_fill, Nat.add_eq_left, List.countP_eq_zero] at hcount
        intro c hc
        simpa using hcount c hc
      intro c hc
      exact ⟨fun h => hbrace (h ▸ hc), not_or.mp (hwild c hc)⟩
    · intro hplain s
      rw [sqlLikeMatch_iff he fun h => (hplain '{' h).1 rfl,
        splits_plain fun c hc => (hplain c hc).2, splits_plain fun c hc => (hplain c hc).2]
  · intro hbrace s
    rw [sqlLikeMatch_iff he hbrace]
    exact ⟨fun h => h.mpr, fun h => ⟨fun hs => hs.mono fun _ _ => trivial, h⟩⟩

/-! ## An engine -/

/-- The engine that accepts what is well formed, but no counted repetitions. -/
noncomputable def wellFormed : Engine where
  bounds _ := none
  compile re := (parse (fun _ => none) (lex re.toList)).map fun nodes s =>
    @decide (Matches nodes s.toList) (Classical.propDecidable _)

theorem wellFormed_documented : wellFormed.Documented where
  matches_iff re isMatch _ hcompile := by
    obtain ⟨nodes, hnodes, rfl⟩ := Option.map_eq_some_iff.mp hcompile
    exact ⟨nodes, hnodes, fun text => @decide_eq_true_iff _ (Classical.propDecidable _)⟩
  accepts re _ _ hparse hcompile := hparse (Option.map_eq_none_iff.mp hcompile)

theorem sqlLikeMatch_like_rent :
    ((∀ s : String, sqlLikeMatch wellFormed "RENT_" s = true ↔
        Splits (fun _ => True) "RENT_".toList s.toList) ↔
      ∀ c ∈ "RENT_".toList, c ≠ '{' ∧ c ≠ '%' ∧ c ≠ '_') ∧
    ('{' ∉ "RENT_".toList → ∀ s : String,
      (sqlLikeMatch wellFormed "RENT_" s = true ↔ Splits (fun _ => True) "RENT_".toList s.toList) ↔
        (Splits (fun _ => True) "RENT_".toList s.toList →
          Splits (fun c => c ≠ '\n') "RENT_".toList s.toList)) :=
  sqlLikeMatch_like_iff wellFormed_documented "RENT_"

/-- A line feed is not matched by a wildcard, and a brace is not matched at all. -/
theorem not_like_newline_brace :
    ¬ (sqlLikeMatch wellFormed "_" "\n" = true ↔
        Splits (fun _ => True) "_".toList "\n".toList) ∧
    ¬ (sqlLikeMatch wellFormed "\x7b" "\x7b" = true ↔
        Splits (fun _ => True) "\x7b".toList "\x7b".toList) := by
  constructor
  · intro h
    have hmatch := h.mpr (.underscore trivial .nil)
    have hsplits := (sqlLikeMatch_iff wellFormed_documented (by decide)).mp hmatch
    exact absurd hsplits.count_newline (by decide)
  · intro h
    have hmatch := h.mpr (.literal (by decide) (by decide) .nil)
    have hparse : parse (fun _ => none) (lex (likeRegex "\x7b").toList) = none := by
      rw [lex_likeRegex, parse]
      exact (parseFrom_atom (by decide) (by decide)).trans (parseFrom_open (by decide))
    have hcompile : wellFormed.compile (likeRegex "\x7b") = none := Option.map_eq_none_iff.mpr hparse
    rw [sqlLikeMatch, hcompile] at hmatch
    cases hmatch

end OpenAccounting.LikePatterns
