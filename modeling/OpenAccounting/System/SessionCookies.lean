import OpenAccounting.Auth.CookieSigner
import Mathlib.Data.Finset.Max

/-!
# Which session ids reach the session store

The layer of signed cookies is sound for a header when every session id it passes on came in
with a valid MAC (`Sound`).  It is, exactly when the header has no session cookie at all, or
when the parser gets as far as the first one and can cut its value at a dot (`Readable`).  In
all other headers the parser gives up, and the layer takes that for a header without a session
cookie and passes it on unread.
-/

namespace OpenAccounting.Cookies

open RustStr

/-! ## The cookies of a header -/

/-- The names and values of the parts that have both. -/
def cookies (header : String) : List (String × String) :=
  (split ';' header).filterMap fun part => splitOnce '=' (trim part)

/-- The header has a session cookie with the value `v`. -/
def Carries (header v : String) : Prop := (cookieName, v) ∈ cookies header

/-- The session id `v` came in with a MAC that a key of the signer verifies. -/
def Vouched (signer : CookieSigner) (header v : String) : Prop :=
  ∃ mac, Carries header (v ++ "." ++ mac) ∧ (signer.verify v mac).isSome

/-- The first session cookie of the header has this value and stands after these parts. -/
def FirstCookie (header : String) (before : List String) (value : String) : Prop :=
  ∃ part after, split ';' header = before ++ part :: after ∧
    splitOnce '=' (trim part) = some (cookieName, value) ∧
    ∀ p ∈ before, ∀ v, splitOnce '=' (trim p) ≠ some (cookieName, v)

/-- It stands after a part that is no cookie, has no MAC, or has a wrong one. -/
def Bad (signer : CookieSigner) (before : List String) (value : String) : Prop :=
  (∃ p ∈ before, splitOnce '=' (trim p) = none) ∨ splitOnce '.' value = none ∨
    ∃ v mac, splitOnce '.' value = some (v, mac) ∧ signer.verify v mac = none

/-- Every session id that is passed on is vouched for, and none is when the session cookie of
the request is a bad one. -/
structure Sound (signer : CookieSigner) (header : String) : Prop where
  vouched : ∀ header', forwarded signer (some header) = some header' →
    ∀ v, Carries header' v → Vouched signer header v
  bad : ∀ before value, FirstCookie header before value → Bad signer before value →
    ∀ header', forwarded signer (some header) = some header' → ∀ v, ¬ Carries header' v

/-- The parser finds a session id and a MAC.  A session id that ends in white space is read
without it further on, so that one has to be vouched for too. -/
def Readable (signer : CookieSigner) (header : String) : Prop :=
  (toStr header).isSome ∧ ∃ v mac, parseSessionCookie header = some (v, mac) ∧
    (signer.verify v mac = none ∨ trimEnd v = v ∨ Vouched signer header (trimEnd v))

/-! ## The parser -/

variable {header mac v : String}

theorem carries_iff :
    Carries header v ↔ ∃ part ∈ split ';' header, splitOnce '=' (trim part) = some (cookieName, v) := by
  simp [Carries, cookies]

theorem FirstCookie.carries {before : List String} {value : String}
    (h : FirstCookie header before value) : Carries header value := by
  obtain ⟨part, after, hsplit, hpart, -⟩ := h
  exact carries_iff.mpr ⟨part, by simp [hsplit], hpart⟩

/-- The parser reads the first session cookie if every part before it is a cookie. -/
theorem parseParts_append {part value : String} (after : List String)
    (hpart : splitOnce '=' (trim part) = some (cookieName, value)) :
    ∀ {before : List String}, (∀ p ∈ before, ∀ v, splitOnce '=' (trim p) ≠ some (cookieName, v)) →
      parseParts (before ++ part :: after) =
        if ∃ p ∈ before, splitOnce '=' (trim p) = none then none else splitOnce '.' value
  | [], _ => by simp [parseParts, hpart]
  | p :: before, hbefore => by
    have ih := parseParts_append after hpart fun q (hq : q ∈ before) =>
      hbefore q (List.mem_cons_of_mem p hq)
    rw [List.cons_append, parseParts]
    cases hp : splitOnce '=' (trim p) with
    | none => simp [hp]
    | some nv =>
      obtain ⟨name, v⟩ := nv
      have hname : name ≠ cookieName := by
        rintro rfl
        exact hbefore p (by simp) v hp
      simp [hp, hname, ih]

theorem firstCookie_of_parseParts {parts : List String} (h : parseParts parts = some (v, mac)) :
    ∃ before part after value,
      parts = before ++ part :: after ∧ splitOnce '=' (trim part) = some (cookieName, value) ∧
      splitOnce '.' value = some (v, mac) := by
  induction parts with
  | nil => cases h
  | cons p rest ih =>
    rw [parseParts] at h
    cases hp : splitOnce '=' (trim p) with
    | none =>
      rw [hp] at h
      cases h
    | some nv =>
      obtain ⟨name, value⟩ := nv
      simp only [hp] at h
      split at h
      · rename_i hname
        exact ⟨[], p, rest, value, rfl, hname ▸ hp, h⟩
      · obtain ⟨before, part, after, value', rfl, hpart, hvalue⟩ := ih h
        exact ⟨p :: before, part, after, value', rfl, hpart, hvalue⟩

theorem parse_of_firstCookie {signer : CookieSigner} {before : List String} {value : String}
    (hfirst : FirstCookie header before value) (hbad : Bad signer before value)
    (hparse : parseSessionCookie header = some (v, mac)) :
    signer.verify v mac = none := by
  obtain ⟨part, after, hsplit, hpart, hbefore⟩ := hfirst
  rw [parseSessionCookie, hsplit, parseParts_append after hpart hbefore] at hparse
  split at hparse
  · cases hparse
  · rename_i hnone
    rcases hbad with h | h | ⟨v', mac', h, hverify⟩
    · exact absurd h hnone
    · rw [h] at hparse
      cases hparse
    · rw [h] at hparse
      cases hparse
      exact hverify

/-- The session id that the parser finds is a piece of the header without a semicolon. -/
theorem parse_spec (h : parseSessionCookie header = some (v, mac)) :
    Carries header (v ++ "." ++ mac) ∧ ';' ∉ v.toList ∧ v.toList ⊆ header.toList := by
  obtain ⟨before, part, after, value, hparts, hpart, hvalue⟩ := firstCookie_of_parseParts h
  have hmem : part ∈ split ';' header := by
    rw [hparts]
    simp
  obtain ⟨htrim, -⟩ := splitOnce_eq_some.mp hpart
  obtain ⟨hdot, -⟩ := splitOnce_eq_some.mp hvalue
  have hv : value = v ++ "." ++ mac := by
    apply String.toList_inj.mp
    rw [hdot]
    simp
  have hsub : v.toList ⊆ part.toList := fun c hc => mem_toList_trim (by
    rw [htrim, hdot]
    simp [hc])
  obtain ⟨hsemi, hheader⟩ := mem_split hmem
  exact ⟨carries_iff.mpr ⟨part, hmem, hv ▸ hpart⟩, fun hc => hsemi (hsub hc),
    fun c hc => hheader (hsub hc)⟩

/-! ## What is passed on -/

/-- The header with the bare session id has one cookie, with the session id less its trailing
white space. -/
theorem carries_rewritten {v' : String} (hv : ';' ∉ v.toList) :
    Carries (cookieName ++ "=" ++ v) v' ↔ v' = trimEnd v := by
  have hsemi : ';' ∉ (cookieName ++ "=" ++ v).toList := by
    simp only [String.toList_append, List.mem_append, not_or]
    exact ⟨by decide, hv⟩
  have htrim : trim (cookieName ++ "=" ++ v) = cookieName ++ "=" ++ trimEnd v :=
    trim_append 'o' "a_session".toList '=' v rfl rfl
  have hcut : splitOnce '=' (cookieName ++ "=" ++ trimEnd v) = some (cookieName, trimEnd v) := by
    rw [splitOnce_eq_some]
    exact ⟨by simp, by decide⟩
  rw [carries_iff, split_eq_singleton hsemi]
  simp [htrim, hcut, eq_comm]

theorem fromStr_of_subset (hvisible : (toStr header).isSome) (hsub : v.toList ⊆ header.toList) :
    fromStr (cookieName ++ "=" ++ v) = some (cookieName ++ "=" ++ v) := by
  unfold toStr at hvisible
  split at hvisible
  · rename_i hall
    rw [List.all_eq_true] at hall
    rw [fromStr, if_pos]
    rw [String.toList_append, List.all_append, Bool.and_eq_true]
    refine ⟨by decide, List.all_eq_true.mpr fun c hc => ?_⟩
    have := hall c (hsub hc)
    simp only [Bool.or_eq_true, Bool.and_eq_true, decide_eq_true_eq] at this ⊢
    exact this.imp_left fun h => ⟨h.1, by omega⟩
  · cases hvisible

theorem forwarded_of_not_readable (signer : CookieSigner)
    (h : (toStr header).isSome → parseSessionCookie header = none) :
    forwarded signer (some header) = some header := by
  unfold forwarded rule
  rw [Option.bind_some]
  cases hstr : toStr header with
  | none => rfl
  | some text =>
    have htext : text = header := by
      unfold toStr at hstr
      split at hstr
      · cases hstr
        rfl
      · cases hstr
    subst htext
    rw [hstr] at h
    simp [h rfl]

theorem forwarded_of_parse (signer : CookieSigner) (hvisible : (toStr header).isSome)
    (hparse : parseSessionCookie header = some (v, mac)) :
    forwarded signer (some header) =
      if (signer.verify v mac).isSome then some (cookieName ++ "=" ++ v) else none := by
  have hfrom := fromStr_of_subset hvisible (parse_spec hparse).2.2
  have hstr : toStr header = some header := by
    unfold toStr at hvisible ⊢
    split <;> simp_all
  unfold forwarded rule
  rw [Option.bind_some, hstr]
  simp only [hparse]
  cases signer.verify v mac <;> simp [hfrom]

theorem exists_not_vouched (signer : CookieSigner) (h : Carries header v) :
    ∃ v', Carries header v' ∧ ¬ Vouched signer header v' := by
  let values := (cookies header).toFinset.filter fun p => p.1 = cookieName
  obtain ⟨⟨name, v'⟩, hmem, hmax⟩ := values.exists_max_image (fun p => p.2.length)
    ⟨(cookieName, v), by simpa [values, Carries] using h⟩
  obtain ⟨hcookie, rfl⟩ : (name, v') ∈ cookies header ∧ name = cookieName := by
    simpa [values] using hmem
  refine ⟨v', hcookie, ?_⟩
  rintro ⟨mac, hlonger, -⟩
  -- A value that vouches for this one is longer.
  have := hmax (cookieName, v' ++ "." ++ mac) (by simpa [values, Carries] using hlonger)
  simp only [String.length_append] at this
  have hdot : ".".length = 1 := rfl
  omega

theorem not_sound_of_unread {signer : CookieSigner}
    (hparse : (toStr header).isSome → parseSessionCookie header = none) (hv : Carries header v) :
    ¬ Sound signer header := by
  intro hsound
  obtain ⟨v', hv', hnot⟩ := exists_not_vouched signer hv
  exact hnot (hsound.vouched header (forwarded_of_not_readable signer hparse) v' hv')

/-- The layer is sound for a header exactly when the header has no session cookie or the parser
can read the first one. -/
theorem sound_iff_readable (signer : CookieSigner) (header : String) :
    Sound signer header ↔ (∀ v, ¬ Carries header v) ∨ Readable signer header := by
  by_cases hfound : (toStr header).isSome ∧ ∃ v mac, parseSessionCookie header = some (v, mac)
  · obtain ⟨hvisible, v, mac, hparse⟩ := hfound
    obtain ⟨hcarries, hsemi, -⟩ := parse_spec hparse
    have hforwarded := forwarded_of_parse signer hvisible hparse
    constructor
    · intro hsound
      right
      refine ⟨hvisible, v, mac, hparse, ?_⟩
      cases hverify : signer.verify v mac with
      | none => exact Or.inl rfl
      | some i =>
        right
        right
        rw [hverify, Option.isSome_some, if_pos rfl] at hforwarded
        exact hsound.vouched _ hforwarded _ ((carries_rewritten hsemi).mpr rfl)
    · rintro (hnone | ⟨-, v₁, mac₁, hparse₁, hcase⟩)
      · exact absurd hcarries (hnone _)
      · rw [hparse] at hparse₁
        cases hparse₁
        refine ⟨?_, ?_⟩
        · intro header' hheader' v' hv'
          rw [hforwarded] at hheader'
          split at hheader'
          · rename_i hverify
            cases hheader'
            rw [(carries_rewritten hsemi).mp hv']
            rcases hcase with h | h | h
            · rw [h] at hverify
              cases hverify
            · rw [h]
              exact ⟨mac, hcarries, hverify⟩
            · exact h
          · cases hheader'
        · intro before value hfirst hbad header' hheader'
          rw [hforwarded, parse_of_firstCookie hfirst hbad hparse] at hheader'
          cases hheader'
  · have hparse : (toStr header).isSome → parseSessionCookie header = none := fun h => by
      by_contra hne
      obtain ⟨p, hp⟩ := Option.ne_none_iff_exists'.mp hne
      exact hfound ⟨h, p.1, p.2, hp⟩
    have hforwarded := forwarded_of_not_readable signer hparse
    constructor
    · exact fun hsound => Or.inl fun v hv => not_sound_of_unread hparse hv hsound
    · rintro (hnone | ⟨hvisible, v, mac, hsome, -⟩)
      · refine ⟨fun header' hheader' v hv => ?_, fun before value hfirst => ?_⟩
        · rw [hforwarded] at hheader'
          cases hheader'
          exact absurd hv (hnone v)
        · exact absurd hfirst.carries (hnone value)
      · exact absurd ⟨hvisible, v, mac, hsome⟩ hfound

/-- A session id without a MAC, and one after a part that is no cookie. -/
theorem unread_not_sound :
    ¬ Sound ⟨List.replicate 32 1, []⟩ "oa_session=abc" ∧
      ¬ Sound ⟨List.replicate 32 1, []⟩ "theme; oa_session=abc.AAAA" := by
  constructor
  · refine not_sound_of_unread (v := "abc") (fun _ => ?_) ?_
    · decide
    · show _ ∈ cookies _
      decide
  · refine not_sound_of_unread (v := "abc.AAAA") (fun _ => ?_) ?_
    · decide
    · show _ ∈ cookies _
      decide

end OpenAccounting.Cookies
