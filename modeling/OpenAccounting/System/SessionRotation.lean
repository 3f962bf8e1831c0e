import OpenAccounting.System.SessionCookies

/-!
# Session cookies across a rotation of the key

In the answer to a request whose session cookie it has verified, the layer signs the session id of
the `Set-Cookie` header.  A browser sends back what is in front of the first semicolon.  Every layer
that still has the key, as the current one or as a previous one, passes the bare session id on to
the session store.
-/

namespace OpenAccounting.Cookies

open RustStr

/-- A visible character that neither ends a cookie nor a session id. -/
def IsIdChar (c : Char) : Prop := 0x20 < c.toNat ∧ c.toNat < 0x7f ∧ c ≠ ';' ∧ c ≠ '.'

instance : DecidablePred IsIdChar := fun c => by
  unfold IsIdChar
  infer_instance

/-- A character that a header value may have to be read as text. -/
def IsShown (c : Char) : Prop := (0x20 ≤ c.toNat ∧ c.toNat < 0x7f) ∨ c = '\t'

instance : DecidablePred IsShown := fun c => by
  unfold IsShown
  infer_instance

variable {s : String}

theorem toStr_eq_some (h : ∀ c ∈ s.toList, IsShown c) : toStr s = some s := by
  refine if_pos (List.all_eq_true.mpr fun c hc => ?_)
  rw [Bool.or_eq_true, Bool.and_eq_true, decide_eq_true_eq, decide_eq_true_eq, beq_iff_eq]
  exact h c hc

theorem fromStr_eq_some (h : ∀ c ∈ s.toList, IsShown c) : fromStr s = some s := by
  refine if_pos (List.all_eq_true.mpr fun c hc => ?_)
  rw [Bool.or_eq_true, Bool.and_eq_true, decide_eq_true_eq, decide_eq_true_eq, beq_iff_eq]
  exact (h c hc).imp_left fun hvisible => ⟨hvisible.1, hvisible.2.ne⟩

theorem isWhitespace_of_visible {c : Char} (hlow : 0x20 < c.toNat) (hhigh : c.toNat < 0x7f) :
    isWhitespace c = false := by
  simp only [isWhitespace, Bool.or_eq_false_iff, Bool.and_eq_false_iff, beq_eq_false_iff_ne,
    decide_eq_false_iff_not]
  omega

/-! ## The text of a MAC -/

theorem isIdChar_digit (n : ℕ) : IsIdChar (Base64.digit n) := by
  have halphabet : Base64.alphabet = _ := String.toList_ofList
  have hall : ∀ c ∈ Base64.alphabet, IsIdChar c := by
    rw [halphabet]
    decide
  rw [Base64.digit, List.getD_eq_getElem?_getD]
  cases hget : Base64.alphabet[n]? with
  | none => decide
  | some c => exact hall c (List.mem_of_getElem? hget)

theorem isIdChar_of_mem_encode {c : Char} : ∀ {bytes : List UInt8}, c ∈ Base64.encode bytes →
    IsIdChar c
  | [], hc => by cases hc
  | [_], hc => by
    simp only [Base64.encode, List.mem_cons, List.not_mem_nil, or_false] at hc
    rcases hc with rfl | rfl
    · exact isIdChar_digit _
    · exact isIdChar_digit _
  | [_, _], hc => by
    simp only [Base64.encode, List.mem_cons, List.not_mem_nil, or_false] at hc
    rcases hc with rfl | rfl | rfl
    · exact isIdChar_digit _
    · exact isIdChar_digit _
    · exact isIdChar_digit _
  | _ :: _ :: _ :: rest, hc => by
    simp only [Base64.encode, List.mem_cons] at hc
    rcases hc with rfl | rfl | rfl | rfl | hc
    · exact isIdChar_digit _
    · exact isIdChar_digit _
    · exact isIdChar_digit _
    · exact isIdChar_digit _
    · exact isIdChar_of_mem_encode hc

theorem isIdChar_of_mem_sign {signer : CookieSigner} {id : String} {c : Char}
    (hc : c ∈ (signer.sign id).toList) : IsIdChar c := by
  rw [CookieSigner.sign, String.toList_ofList] at hc
  exact isIdChar_of_mem_encode hc

/-- A MAC is verified by every signer that has its key. -/
theorem verify_of_mem {old new : CookieSigner} (hkey : old.current ∈ new.current :: new.previous)
    (id : String) : (new.verify id (old.sign id)).isSome := by
  have hsame : constantTimeEq (hmac old.current id) (hmac old.current id) = true :=
    constantTimeEq_iff.mpr rfl
  rw [CookieSigner.verify, CookieSigner.sign, String.toList_ofList, Base64.decode_encode]
  dsimp only
  split
  · rfl
  · rename_i hcurrent
    rcases List.mem_cons.mp hkey with heq | hprevious
    · rw [heq] at hsame hcurrent
      exact absurd hsame hcurrent
    · rw [Option.isSome_map, List.findIdx?_isSome, List.any_eq_true]
      exact ⟨_, hprevious, hsame⟩

/-! ## The header that comes back -/

/-- What a browser sends back. -/
def signedCookie (signer : CookieSigner) (id : String) : String :=
  cookieName ++ "=" ++ id ++ "." ++ signer.sign id

theorem mem_signedCookie {signer : CookieSigner} {id : String}
    (hid : ∀ c ∈ id.toList, IsIdChar c) {c : Char} (hc : c ∈ (signedCookie signer id).toList) :
    0x20 < c.toNat ∧ c.toNat < 0x7f ∧ c ≠ ';' := by
  simp only [signedCookie, String.toList_append, List.mem_append] at hc
  have hname : ∀ c ∈ cookieName.toList, 0x20 < c.toNat ∧ c.toNat < 0x7f ∧ c ≠ ';' :=
    forall_chars rfl
  rcases hc with (((hc | hc) | hc) | hc) | hc
  · exact hname c hc
  · exact (forall_chars rfl : ∀ c ∈ "=".toList, 0x20 < c.toNat ∧ c.toNat < 0x7f ∧ c ≠ ';') c hc
  · exact ⟨(hid c hc).1, (hid c hc).2.1, (hid c hc).2.2.1⟩
  · exact (forall_chars rfl : ∀ c ∈ ".".toList, 0x20 < c.toNat ∧ c.toNat < 0x7f ∧ c ≠ ';') c hc
  · have hmac := isIdChar_of_mem_sign hc
    exact ⟨hmac.1, hmac.2.1, hmac.2.2.1⟩

theorem parse_signedCookie (signer : CookieSigner) {id : String}
    (hid : ∀ c ∈ id.toList, IsIdChar c) :
    parseSessionCookie (signedCookie signer id) = some (id, signer.sign id) := by
  have hsemi : ';' ∉ (signedCookie signer id).toList := fun hc => (mem_signedCookie hid hc).2.2 rfl
  have htrim : trim (signedCookie signer id) = signedCookie signer id :=
    trim_eq_self fun c hc => by
      obtain ⟨hlow, hhigh, -⟩ := mem_signedCookie hid hc
      exact isWhitespace_of_visible hlow hhigh
  have hname : splitOnce '=' (signedCookie signer id) =
      some (cookieName, id ++ "." ++ signer.sign id) := by
    rw [splitOnce_eq_some]
    exact ⟨by simp [signedCookie], by decide⟩
  have hdot : splitOnce '.' (id ++ "." ++ signer.sign id) = some (id, signer.sign id) := by
    rw [splitOnce_eq_some]
    exact ⟨by simp, fun hc => (hid '.' hc).2.2.2 rfl⟩
  rw [parseSessionCookie, split_eq_singleton hsemi, parseParts, htrim, hname]
  simp only [if_true, hdot]

theorem rule_signedCookie {old new : CookieSigner}
    (hkey : old.current ∈ new.current :: new.previous) {id : String}
    (hid : ∀ c ∈ id.toList, IsIdChar c) :
    rule new (some (signedCookie old id)) = .verified (cookieName ++ "=" ++ id) := by
  have hstr : toStr (signedCookie old id) = some (signedCookie old id) :=
    toStr_eq_some fun c hc => by
      obtain ⟨hlow, hhigh, -⟩ := mem_signedCookie hid hc
      exact Or.inl ⟨hlow.le, hhigh⟩
  have hfrom := fromStr_of_subset (by rw [hstr]; rfl) (parse_spec (parse_signedCookie old hid)).2.2
  obtain ⟨k, hverify⟩ := Option.isSome_iff_exists.mp (verify_of_mem hkey id)
  rw [rule, Option.bind_some, hstr]
  simp only [parse_signedCookie old hid, hverify, hfrom, Option.getD_some]

/-! ## The header that goes out -/

/-- The session cookie stays in front, and its attributes follow behind a semicolon. -/
theorem rewriteSetCookie_eq (signer : CookieSigner) {id : String}
    (hid : ∀ c ∈ id.toList, IsIdChar c) (attributes : String) :
    ∃ rest, rewriteSetCookie signer (cookieName ++ "=" ++ id ++ ";" ++ attributes) =
      signedCookie signer id ++ rest ∧ (rewriteSetCookie signer attributes = "" ∧ rest = "" ∨
        rest = "; " ++ rewriteSetCookie signer attributes) := by
  have hplain : ∀ c ∈ (cookieName ++ "=" ++ id).toList, c ≠ ';' ∧ isWhitespace c = false := by
    intro c hc
    simp only [String.toList_append, List.mem_append] at hc
    rcases hc with (hc | hc) | hc
    · exact (forall_chars rfl : ∀ c ∈ cookieName.toList, c ≠ ';' ∧ isWhitespace c = false) c hc
    · exact (forall_chars rfl : ∀ c ∈ "=".toList, c ≠ ';' ∧ isWhitespace c = false) c hc
    · obtain ⟨hlow, hhigh, hsemi, -⟩ := hid c hc
      exact ⟨hsemi, isWhitespace_of_visible hlow hhigh⟩
  have hsplit : split ';' (cookieName ++ "=" ++ id ++ ";" ++ attributes) =
      (cookieName ++ "=" ++ id) :: split ';' attributes := by
    have htext : (cookieName ++ "=" ++ id ++ ";" ++ attributes).toList =
        (cookieName ++ "=" ++ id).toList ++ ';' :: attributes.toList := by simp
    rw [split, htext, List.splitOn_append_cons_self,
      List.splitOn_eq_singleton fun h => (hplain _ h).1 rfl]
    simp only [List.singleton_append, List.map_cons, String.ofList_toList, split]
  have hsign : signPart signer (cookieName ++ "=" ++ id) = signedCookie signer id := by
    have hname : splitOnce '=' (cookieName ++ "=" ++ id) = some (cookieName, id) := by
      rw [splitOnce_eq_some]
      exact ⟨by simp, by decide⟩
    rw [signPart, hname]
    simp only [if_true, signedCookie]
  have hfilled : cookieName ++ "=" ++ id ≠ "" := by
    intro h
    have := congrArg String.toList h
    simp [cookieName] at this
  rw [rewriteSetCookie, hsplit, List.map_cons, trim_eq_self fun c hc => (hplain c hc).2,
    List.filter_cons_of_pos (by simp only [hfilled, ne_eq, not_false_eq_true, decide_true]),
    List.map_cons, hsign]
  unfold rewriteSetCookie
  generalize List.map (signPart signer) _ = parts
  cases parts with
  | nil => exact ⟨"", by simp, Or.inl ⟨rfl, rfl⟩⟩
  | cons p ps =>
    refine ⟨"; " ++ "; ".intercalate (p :: ps), ?_, Or.inr rfl⟩
    rw [String.intercalate_cons_of_ne_nil (List.cons_ne_nil p ps), String.append_assoc]

theorem isShown_intercalate {sep : String} (hsep : ∀ c ∈ sep.toList, IsShown c) {ps : List String}
    (hps : ∀ p ∈ ps, ∀ c ∈ p.toList, IsShown c) : ∀ c ∈ (sep.intercalate ps).toList, IsShown c := by
  induction ps with
  | nil => simp
  | cons p ps ih =>
    obtain ⟨hp, hps⟩ := List.forall_mem_cons.mp hps
    by_cases hnil : ps = []
    · simpa [hnil] using hp
    · intro c hc
      rw [String.intercalate_cons_of_ne_nil hnil, String.toList_append, String.toList_append,
        List.mem_append, List.mem_append] at hc
      rcases hc with (hc | hc) | hc
      · exact hp c hc
      · exact hsep c hc
      · exact ih hps c hc

theorem isShown_signPart (signer : CookieSigner) {part : String}
    (h : ∀ c ∈ part.toList, IsShown c) : ∀ c ∈ (signPart signer part).toList, IsShown c := by
  rw [signPart]
  cases hcut : splitOnce '=' part with
  | none => exact h
  | some cookie =>
    obtain ⟨name, value⟩ := cookie
    obtain ⟨hpart, -⟩ := splitOnce_eq_some.mp hcut
    dsimp only
    split
    · intro c hc
      simp only [String.toList_append, List.mem_append] at hc
      rcases hc with (((hc | hc) | hc) | hc) | hc
      · exact (forall_chars rfl : ∀ c ∈ cookieName.toList, IsShown c) c hc
      · exact (forall_chars rfl : ∀ c ∈ "=".toList, IsShown c) c hc
      · exact h c (by rw [hpart]; simp [hc])
      · exact (forall_chars rfl : ∀ c ∈ ".".toList, IsShown c) c hc
      · obtain ⟨hlow, hhigh, -⟩ := isIdChar_of_mem_sign hc
        exact Or.inl ⟨hlow.le, hhigh⟩
    · exact h

/-- Signing keeps a header readable. -/
theorem isShown_rewriteSetCookie (signer : CookieSigner) (h : ∀ c ∈ s.toList, IsShown c) :
    ∀ c ∈ (rewriteSetCookie signer s).toList, IsShown c := by
  refine isShown_intercalate (forall_chars rfl) ?_
  rw [List.forall_mem_map]
  intro part hpart
  obtain ⟨piece, hpiece, rfl⟩ := List.mem_map.mp (List.mem_filter.mp hpart).1
  exact isShown_signPart signer fun c hc => h c ((mem_split hpiece).2 (mem_toList_trim hc))

theorem reattach_eq (signer : CookieSigner) {response : Response}
    (hset : response.setCookie = some s) (h : ∀ c ∈ s.toList, IsShown c) :
    reattach signer response =
      { response with setCookie := some (rewriteSetCookie signer s) } := by
  rw [reattach, hset, Option.bind_some, toStr_eq_some h]
  dsimp only
  rw [fromStr_eq_some (isShown_rewriteSetCookie signer h)]

/-- A session id in the answer to a verified request goes out signed in front of its attributes,
and any layer with the key hands it on bare when it comes back. -/
theorem session_survives_rotation {old new : CookieSigner}
    (hkey : old.current ∈ new.current :: new.previous) {cookie : Option String} {header : String}
    (hrule : rule old cookie = .verified header) {next : Option String → Response}
    {id attributes : String} (hid : ∀ c ∈ id.toList, IsIdChar c)
    (hattributes : ∀ c ∈ attributes.toList, IsShown c)
    (hnext : (next (some header)).setCookie =
      some (cookieName ++ "=" ++ id ++ ";" ++ attributes)) :
    (∃ rest, enforceSignedCookie old next cookie =
        { next (some header) with setCookie := some (signedCookie old id ++ rest) } ∧
      (rewriteSetCookie old attributes = "" ∧ rest = "" ∨
        rest = "; " ++ rewriteSetCookie old attributes)) ∧
    ';' ∉ (signedCookie old id).toList ∧
    ∀ next' : Option String → Response,
      enforceSignedCookie new next' (some (signedCookie old id)) =
        reattach new (next' (some (cookieName ++ "=" ++ id))) := by
  refine ⟨?_, fun hc => (mem_signedCookie hid hc).2.2 rfl, fun next' => ?_⟩
  · have hshown : ∀ c ∈ (cookieName ++ "=" ++ id ++ ";" ++ attributes).toList, IsShown c := by
      intro c hc
      simp only [String.toList_append, List.mem_append] at hc
      rcases hc with (((hc | hc) | hc) | hc) | hc
      · exact (forall_chars rfl : ∀ c ∈ cookieName.toList, IsShown c) c hc
      · exact (forall_chars rfl : ∀ c ∈ "=".toList, IsShown c) c hc
      · exact Or.inl ⟨(hid c hc).1.le, (hid c hc).2.1⟩
      · exact (forall_chars rfl : ∀ c ∈ ";".toList, IsShown c) c hc
      · exact hattributes c hc
    obtain ⟨rest, hrewrite, hrest⟩ := rewriteSetCookie_eq old hid attributes
    refine ⟨rest, ?_, hrest⟩
    rw [enforceSignedCookie, hrule]
    dsimp only
    rw [reattach_eq old hnext hshown, hrewrite]
  · rw [enforceSignedCookie, rule_signedCookie hkey hid]

/-- The key of the first signer is the previous one of the second.  The session `ab` is answered
with a new one, `cd`, which the second layer reads. -/
theorem session_survives_rotation_ab :
    enforceSignedCookie { current := [2], previous := [[1]] }
        (fun header => { status := 200, body := header.getD "" })
        (some (signedCookie { current := [1] } "cd")) =
      { status := 200, body := "oa_session=cd" } :=
  (@session_survives_rotation ⟨[1], []⟩ ⟨[2], [[1]]⟩ (by decide) _ _
    (@rule_signedCookie ⟨[1], []⟩ ⟨[1], []⟩ List.mem_cons_self "ab" (forall_chars rfl))
    (fun _ => { status := 200, setCookie := some "oa_session=cd; HttpOnly" }) "cd" " HttpOnly"
    (forall_chars rfl) (forall_chars rfl) rfl).2.2 _

end OpenAccounting.Cookies
