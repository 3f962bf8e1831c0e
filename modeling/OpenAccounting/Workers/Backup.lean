import Mathlib.Logic.Relation
import OpenAccounting.Lib.TextSearch

/-!
# Credentials in the errors of a backup

`sanitize_error` of `workers/backup.rs`.  The loop rewrites the text that it scans.  What is in front
of its cursor is done, and the cursor stands behind a `://` or at an `@`, so that no turn looks at
the text of another one.

All offsets are those of ASCII characters, so no slice panics.
-/

namespace OpenAccounting.Backup

open RustStr

/-! ## The code -/

/-- The text with the cursor in it. -/
structure Cursor where
  done : List Char
  rest : List Char

/-- The text. -/
def Cursor.out (c : Cursor) : List Char := c.done ++ c.rest

/-- `://`. -/
abbrev scheme : List Char := [':', '/', '/']

/-- `***`. -/
abbrev stars : List Char := ['*', '*', '*']

/-- A turn of the loop.  The next `@` is looked for behind the `://`, where the first one is. -/
def turn (c : Cursor) : Option Cursor :=
  (cutAtStr scheme c.rest).map fun (before, behind) =>
    let skipped : Cursor := ⟨c.done ++ before ++ scheme, behind⟩
    match cutAt '@' behind with
    | some (userinfo, after) =>
      if userinfo ≠ [] ∧ '/' ∉ userinfo ∧ ' ' ∉ userinfo then
        ⟨c.done ++ before ++ scheme ++ stars, '@' :: after⟩
      else skipped
    | none => skipped

/-! ## What a turn does -/

/-- A text that is redacted in front of an `@`. -/
def IsUserInfo (u : List Char) : Prop := u ≠ [] ∧ '@' ∉ u ∧ '/' ∉ u ∧ ' ' ∉ u

/-- Nothing is changed but the user information between a `://` and an `@`. -/
inductive Redacts : List Char → List Char → Prop where
  | nil : Redacts [] []
  | keep {c : Char} {cs ds : List Char} (hc : ¬ scheme <+: c :: cs) (h : Redacts cs ds) :
      Redacts (c :: cs) (c :: ds)
  | skip {cs ds : List Char} (hnone : ∀ u rest, cs = u ++ '@' :: rest → ¬ IsUserInfo u)
      (h : Redacts cs ds) : Redacts (':' :: '/' :: '/' :: cs) (':' :: '/' :: '/' :: ds)
  | redact {u rest ds : List Char} (hu : IsUserInfo u) (h : Redacts ('@' :: rest) ds) :
      Redacts (':' :: '/' :: '/' :: (u ++ '@' :: rest))
        (':' :: '/' :: '/' :: '*' :: '*' :: '*' :: ds)

theorem Redacts.of_cutBefore_none {cs : List Char}
    (h : cutBefore (fun s => scheme.isPrefixOf s) cs = none) : Redacts cs cs := by
  induction cs with
  | nil => exact .nil
  | cons c cs ih =>
    rw [cutBefore] at h
    split at h
    · cases h
    · next hc => exact .keep (mt List.isPrefixOf_iff_prefix.mpr hc) (ih (Option.map_eq_none_iff.mp h))

theorem Redacts.of_cutBefore {cs before behind ds : List Char}
    (h : cutBefore (fun s => scheme.isPrefixOf s) cs = some (before, behind))
    (hrest : Redacts behind ds) : Redacts cs (before ++ ds) := by
  induction cs generalizing before with
  | nil => cases h
  | cons c cs ih =>
    rw [cutBefore] at h
    split at h
    · cases h
      exact hrest
    · next hc =>
        obtain ⟨r, hr, heq⟩ := Option.map_eq_some_iff.mp h
        cases heq
        exact .keep (mt List.isPrefixOf_iff_prefix.mpr hc) (ih hr)

theorem turn_eq_none {c : Cursor} (h : turn c = none) : Redacts c.rest c.rest := by
  rw [turn, Option.map_eq_none_iff, cutAtStr, Option.map_eq_none_iff] at h
  exact .of_cutBefore_none h

theorem turn_eq_some {c c' : Cursor} (h : turn c = some c') :
    c'.rest.length < c.rest.length ∧ ∃ text, c'.done = c.done ++ text ∧
      ∀ ds, Redacts c'.rest ds → Redacts c.rest (text ++ ds) := by
  obtain ⟨⟨before, behind⟩, hcut, heq⟩ := Option.map_eq_some_iff.mp h
  have hrest := cutAtStr_eq_some hcut
  obtain ⟨⟨front, found⟩, hfront, hsplit⟩ := Option.map_eq_some_iff.mp hcut
  obtain ⟨rfl, hbehind⟩ := Prod.mk.inj hsplit
  have hfound : found = scheme ++ behind := by
    rw [cutBefore_eq_some hfront] at hrest
    exact List.append_cancel_left hrest
  have hskipped : (∀ u rest, behind = u ++ '@' :: rest → ¬ IsUserInfo u) →
      ∀ ds, Redacts behind ds → Redacts c.rest (front ++ scheme ++ ds) := by
    intro hnone ds hds
    rw [List.append_assoc]
    exact .of_cutBefore hfront (hfound ▸ .skip hnone hds)
  have hlength : behind.length < c.rest.length := by
    rw [hrest]
    simp
    omega
  dsimp only at heq
  split at heq
  · next userinfo after hat =>
      obtain ⟨hparts, hnot⟩ := cutAt_eq_some.mp hat
      split at heq
      · next hinfo =>
          cases heq
          refine ⟨?_, front ++ scheme ++ stars, by simp only [List.append_assoc], ?_⟩
          · rw [hparts, List.length_append] at hlength
            exact (Nat.le_add_left _ _).trans_lt hlength
          · intro ds hds
            simp only [List.append_assoc]
            refine .of_cutBefore hfront ?_
            rw [hfound, hparts]
            exact .redact ⟨hinfo.1, hnot, hinfo.2⟩ hds
      · next hinfo =>
          cases heq
          refine ⟨hlength, front ++ scheme, by simp only [List.append_assoc], hskipped ?_⟩
          intro u rest hu huser
          have hsame := cutAt_eq_some.mpr ⟨hu, huser.2.1⟩
          rw [hat] at hsame
          cases hsame
          exact hinfo ⟨huser.1, huser.2.2⟩
  · next hat =>
      cases heq
      refine ⟨hlength, front ++ scheme, by simp only [List.append_assoc], hskipped ?_⟩
      intro u rest hu _
      exact cutAt_eq_none.mp hat (by rw [hu]; simp)

/-- The loop. -/
def sanitizeFrom (c : Cursor) : Cursor :=
  match _hturn : turn c with
  | none => c
  | some c' => sanitizeFrom c'
termination_by c.rest.length
decreasing_by exact (turn_eq_some _hturn).1

def sanitizeError (msg : String) : String :=
  String.ofList (sanitizeFrom ⟨[], msg.toList⟩).out

/-- The loop comes to its end, and the text behind its cursor is redacted. -/
theorem sanitizeFrom_spec (c : Cursor) :
    Relation.ReflTransGen (fun c c' => turn c = some c') c (sanitizeFrom c) ∧
      turn (sanitizeFrom c) = none ∧
      ∃ ds, (sanitizeFrom c).out = c.done ++ ds ∧ Redacts c.rest ds := by
  induction c using sanitizeFrom.induct with
  | case1 c hturn =>
    rw [sanitizeFrom, hturn]
    exact ⟨.refl, hturn, c.rest, rfl, turn_eq_none hturn⟩
  | case2 c c' hturn ih =>
    obtain ⟨hsteps, hend, ds, hout, hds⟩ := ih
    obtain ⟨-, text, hdone, hredacts⟩ := turn_eq_some hturn
    have hloop : sanitizeFrom c = sanitizeFrom c' := by
      rw [sanitizeFrom, hturn]
    rw [hloop]
    exact ⟨.head hturn hsteps, hend, text ++ ds, by rw [hout, hdone, List.append_assoc],
      hredacts ds hds⟩

theorem redacts_sanitizeError (msg : String) :
    Redacts msg.toList (sanitizeError msg).toList := by
  obtain ⟨-, -, ds, hout, hds⟩ := sanitizeFrom_spec ⟨[], msg.toList⟩
  rw [sanitizeError, hout, String.toList_ofList]
  exact hds

/-! ## What is left -/

variable {c : Char} {cs ds ds' : List Char}

theorem Redacts.head_eq (h : Redacts cs ds) : ds.head? = cs.head? := by
  cases h with
  | nil => rfl
  | keep => rfl
  | skip => rfl
  | redact => rfl

theorem slash_mem {ds u back : List Char} (h : ':' :: '/' :: ds = u ++ '@' :: back) : '/' ∈ u := by
  match u, h with
  | d :: e :: u, h =>
    obtain ⟨-, htail⟩ := List.cons.inj h
    obtain ⟨rfl, -⟩ := List.cons.inj htail
    simp

theorem Redacts.not_scheme (h : Redacts cs ds) (hc : ¬ scheme <+: c :: cs) :
    ¬ scheme <+: c :: ds := by
  rintro ⟨back, hback⟩
  obtain ⟨rfl, hslashes⟩ := List.cons.inj hback
  cases h with
  | nil => cases hslashes
  | skip => cases hslashes
  | redact => cases hslashes
  | keep hd h =>
    obtain ⟨rfl, hslash⟩ := List.cons.inj hslashes
    have hhead := h.head_eq
    rw [← hslash] at hhead
    obtain ⟨rest, rfl⟩ := List.head?_eq_some_iff.mp hhead.symm
    exact hc ⟨rest, rfl⟩

/-- Up to the next `@` there was the same text, unless there is a slash. -/
theorem Redacts.front (h : Redacts cs ds) {u back : List Char} (hds : ds = u ++ '@' :: back)
    (hu : '/' ∉ u) : ∃ rest, cs = u ++ '@' :: rest := by
  induction h generalizing u with
  | nil => simp at hds
  | @keep c cs ds hc h ih =>
    cases u with
    | nil =>
      obtain ⟨rfl, -⟩ := List.cons.inj hds
      exact ⟨cs, rfl⟩
    | cons d u =>
      obtain ⟨rfl, htail⟩ := List.cons.inj hds
      obtain ⟨rest, rfl⟩ := ih htail fun hmem => hu (List.mem_cons_of_mem _ hmem)
      exact ⟨rest, rfl⟩
  | skip hnone h ih => exact absurd (slash_mem hds) hu
  | redact huser h ih => exact absurd (slash_mem hds) hu

theorem cut_inj {u u' rest rest' : List Char} (hu : '@' ∉ u) (hu' : '@' ∉ u')
    (h : u ++ '@' :: rest = u' ++ '@' :: rest') : u = u' ∧ rest = rest' := by
  have hcut := cutAt_eq_some.mpr ⟨h, hu'⟩
  rw [cutAt_eq_some.mpr ⟨rfl, hu⟩] at hcut
  cases hcut
  exact ⟨rfl, rfl⟩

/-- What may be left between a `://` and the next `@`. -/
def Clean (u : List Char) : Prop := u = stars ∨ u = [] ∨ '/' ∈ u ∨ ' ' ∈ u

/-- Nothing else is left there. -/
def Sealed (text : List Char) : Prop :=
  ∀ front u back, text = front ++ (scheme ++ (u ++ '@' :: back)) → '@' ∉ u → Clean u

theorem Sealed.cons {c : Char} {cs : List Char} (h : Sealed cs)
    (hc : ∀ u back, c :: cs = scheme ++ (u ++ '@' :: back) → '@' ∉ u → Clean u) :
    Sealed (c :: cs) := by
  intro front u back heq hu
  cases front with
  | nil => exact hc u back heq hu
  | cons d front => exact h front u back (List.cons.inj heq).2 hu

theorem Sealed.cons_of_ne {c : Char} {cs : List Char} (h : Sealed cs) (hc : c ≠ ':') :
    Sealed (c :: cs) :=
  h.cons fun _ _ heq => absurd (List.cons.inj heq).1 hc

theorem Redacts.sealed (h : Redacts cs ds) : Sealed ds := by
  induction h with
  | nil =>
    intro front u back heq
    cases front <;> cases heq
  | keep hc h ih => exact ih.cons fun u back heq => absurd ⟨_, heq.symm⟩ (h.not_scheme hc)
  | @skip cs ds hnone h ih =>
    refine (ih.cons_of_ne (by decide) |>.cons_of_ne (by decide)).cons fun u back heq hu => ?_
    by_contra hunclean
    obtain ⟨-, hne, hslash, hspace⟩ : u ≠ stars ∧ u ≠ [] ∧ '/' ∉ u ∧ ' ' ∉ u := by
      simpa only [Clean, not_or] using hunclean
    have htext : scheme ++ ds = scheme ++ (u ++ '@' :: back) := heq
    obtain ⟨rest, hrest⟩ := h.front (List.append_cancel_left htext) hslash
    exact hnone u rest hrest ⟨hne, hu, hslash, hspace⟩
  | @redact u' rest ds huser h ih =>
    have hstars : Sealed ('*' :: '*' :: '*' :: ds) :=
      ((ih.cons_of_ne (by decide)).cons_of_ne (by decide)).cons_of_ne (by decide)
    refine (hstars.cons_of_ne (by decide) |>.cons_of_ne (by decide)).cons fun u back heq hu => ?_
    obtain ⟨after, rfl⟩ := List.head?_eq_some_iff.mp h.head_eq
    have htext : scheme ++ (stars ++ '@' :: after) = scheme ++ (u ++ '@' :: back) := heq
    exact Or.inl (cut_inj hu (by decide) (List.append_cancel_left htext).symm).1

theorem Redacts.again (h : Redacts cs ds) : Redacts ds ds := by
  induction h with
  | nil => exact .nil
  | keep hc h ih => exact .keep (h.not_scheme hc) ih
  | skip hnone h ih =>
    refine .skip (fun u rest hu huser => ?_) ih
    obtain ⟨rest', hrest'⟩ := h.front hu huser.2.2.1
    exact hnone u rest' hrest' huser
  | redact huser h ih =>
    obtain ⟨after, rfl⟩ := List.head?_eq_some_iff.mp h.head_eq
    have hstars : IsUserInfo stars := by
      unfold IsUserInfo
      decide
    exact .redact hstars ih

theorem Redacts.unique (h : Redacts cs ds) (h' : Redacts cs ds') : ds = ds' := by
  induction h generalizing ds' with
  | nil =>
    cases h'
    rfl
  | keep hc h ih =>
    cases h' with
    | keep hc' h' => rw [ih h']
    | skip => exact absurd ⟨_, rfl⟩ hc
    | redact => exact absurd ⟨_, rfl⟩ hc
  | skip hnone h ih =>
    cases h' with
    | keep hc' h' => exact absurd ⟨_, rfl⟩ hc'
    | skip hnone' h' => rw [ih h']
    | redact huser h' => exact absurd huser (hnone _ _ rfl)
  | @redact u rest ds huser h ih =>
    generalize hcs : u ++ '@' :: rest = cs at h'
    cases h' with
    | keep hc' h' => exact absurd ⟨_, rfl⟩ hc'
    | skip hnone' h' => exact absurd huser (hnone' _ _ hcs.symm)
    | redact huser' h' =>
      obtain ⟨-, rfl⟩ := cut_inj huser.2.1 huser'.2.1 hcs
      rw [ih h']

/-- The loop ends for every message.  What it returns has nothing but stars between a `://` and the
next `@`, unless that text is empty or has a slash or a blank in it, and it stays as it is when it
is sanitized again.  The rest of the message is kept. -/
theorem sanitizeError_redacts (msg : String) :
    (∃ c, Relation.ReflTransGen (fun c c' => turn c = some c') ⟨[], msg.toList⟩ c ∧
        turn c = none ∧ sanitizeError msg = String.ofList c.out) ∧
      sanitizeError (sanitizeError msg) = sanitizeError msg ∧
      Sealed (sanitizeError msg).toList ∧
      Redacts msg.toList (sanitizeError msg).toList := by
  have hredacts := redacts_sanitizeError msg
  obtain ⟨hsteps, hend, -⟩ := sanitizeFrom_spec ⟨[], msg.toList⟩
  refine ⟨⟨_, hsteps, hend, rfl⟩, ?_, hredacts.sealed, hredacts⟩
  have hagain := redacts_sanitizeError (sanitizeError msg)
  exact String.toList_injective (hagain.unique hredacts.again)

end OpenAccounting.Backup
