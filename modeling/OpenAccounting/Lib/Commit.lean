import Mathlib.Data.List.Induction

/-!
# Fallible steps and their commit

The body of a database transaction over a state `σ` is a function into
`Except ε (α × σ)`: it either fails with an error or ends with a result and a
new state.  `Commit.commit` is the transaction around it.  A failing body is
rolled back, so the state after it is the state before it.

The rest of the module takes such bodies apart.  A body is a chain of binds, and
`Commit.bind_eq_ok` together with the lemmas of `ensure` and `okOr` turns the
hypothesis that it succeeded into the list of facts its steps established.
-/

namespace Commit

universe u

variable {ε σ : Type*} {α β : Type u}

/-! ## Guards and lookups -/

/-- Fail with `e` unless `c` holds. -/
def ensure (c : Prop) [Decidable c] (e : ε) : Except ε Unit :=
  if c then .ok () else .error e

/-- The value of an option, or the error `e`. -/
def okOr (o : Option α) (e : ε) : Except ε α :=
  match o with
  | some a => .ok a
  | none => .error e

/-- The same result with its error translated. -/
def mapError {ε' : Type*} (f : ε → ε') : Except ε α → Except ε' α
  | .ok a => .ok a
  | .error e => .error (f e)

@[simp] theorem ensure_eq_ok {c : Prop} [Decidable c] {e : ε} {u : Unit} :
    ensure c e = .ok u ↔ c := by
  unfold ensure
  split <;> simp_all

@[simp] theorem okOr_eq_ok {o : Option α} {e : ε} {a : α} :
    okOr o e = .ok a ↔ o = some a := by
  cases o <;> simp [okOr]

@[simp] theorem mapError_eq_ok {ε' : Type*} {f : ε → ε'} {r : Except ε α} {a : α} :
    mapError f r = .ok a ↔ r = .ok a := by
  cases r <;> simp [mapError]

variable {x : Except ε α} {body : Except ε (α × σ)}

theorem bind_eq_ok {f : α → Except ε β} {b : β} :
    (x >>= f) = .ok b ↔ ∃ a, x = .ok a ∧ f a = .ok b := by
  cases x <;> simp [bind, Except.bind]

theorem map_eq_ok {f : α → β} {b : β} (h : x.map f = .ok b) : ∃ a, x = .ok a ∧ f a = b := by
  cases x with
  | error e => cases h
  | ok a =>
    cases h
    exact ⟨a, rfl, rfl⟩

theorem ok_bind (a : α) (f : α → Except ε β) : (Except.ok a >>= f) = f a := rfl

theorem exists_ok_of_isOk (h : x.isOk = true) : ∃ a, x = .ok a := by
  cases x with
  | error e => cases h
  | ok a => exact ⟨a, rfl⟩

theorem isOk_iff : x.isOk = true ↔ ∃ a, x = .ok a := by
  constructor
  · exact exists_ok_of_isOk
  · rintro ⟨a, rfl⟩
    rfl

theorem foldlM_concat {σ : Type u} {f : σ → β → Except ε σ} {s t : σ} {bs : List β} {b : β}
    (h : bs.foldlM f s = .ok t) : (bs ++ [b]).foldlM f s = f t b := by
  rw [List.foldlM_append, h]
  show (f t b >>= fun s => pure s) = f t b
  cases f t b <;> rfl

theorem mapM_eq_error {f : β → Except ε α} {xs : List β} {e : ε} :
    xs.mapM f = .error e ↔ ∃ before x after, xs = before ++ x :: after ∧
      (∀ y ∈ before, ∃ a, f y = .ok a) ∧ f x = .error e := by
  induction xs with
  | nil => simp [pure, Except.pure]
  | cons x xs ih =>
    rw [List.mapM_cons]
    cases hx : f x with
    | error e' =>
      constructor
      · intro h
        cases h
        exact ⟨[], x, xs, rfl, by simp, hx⟩
      · rintro ⟨before, y, after, heq, hbefore, hy⟩
        cases before with
        | nil =>
          obtain ⟨rfl, -⟩ := List.cons.inj heq
          cases hx.symm.trans hy
          rfl
        | cons z before =>
          obtain ⟨rfl, -⟩ := List.cons.inj heq
          obtain ⟨a, ha⟩ := hbefore _ List.mem_cons_self
          rw [hx] at ha
          cases ha
    | ok a =>
      have hrest : (do let as ← xs.mapM f; pure (a :: as) : Except ε (List α)) = .error e ↔
          xs.mapM f = .error e := by
        cases xs.mapM f with
        | ok as => simp [pure, Except.pure, bind, Except.bind]
        | error e' => simp [bind, Except.bind]
      rw [ok_bind, hrest, ih]
      constructor
      · rintro ⟨before, y, after, rfl, hbefore, hy⟩
        exact ⟨x :: before, y, after, rfl, List.forall_mem_cons.mpr ⟨⟨a, hx⟩, hbefore⟩, hy⟩
      · rintro ⟨before, y, after, heq, hbefore, hy⟩
        cases before with
        | nil =>
          obtain ⟨rfl, -⟩ := List.cons.inj heq
          rw [hx] at hy
          cases hy
        | cons z before =>
          obtain ⟨rfl, rfl⟩ := List.cons.inj heq
          exact ⟨before, y, after, rfl, (List.forall_mem_cons.mp hbefore).2, hy⟩

/-- A fold whose state after each prefix has the invariant `P` succeeds exactly when every prefix is
allowed. -/
theorem foldlM_tracks {σ : Type u} {f : σ → β → Except ε σ} {P : List β → σ → Prop}
    {Allowed : List β → Prop} {s : σ} {bs : List β} (hnil : Allowed []) (hstart : P [] s)
    (haccepts : ∀ front b t, front ++ [b] <+: bs → (∀ pre, pre <+: front → Allowed pre) →
      P front t → Allowed (front ++ [b]) → ∃ t', f t b = .ok t' ∧ P (front ++ [b]) t')
    (hrefuses : ∀ front b t, front ++ [b] <+: bs → (∀ pre, pre <+: front → Allowed pre) →
      P front t → ¬ Allowed (front ++ [b]) → ¬ ∃ t', f t b = .ok t') :
    ((∃ t, bs.foldlM f s = .ok t) ↔ ∀ pre, pre <+: bs → Allowed pre) ∧
      ∀ t, bs.foldlM f s = .ok t → P bs t := by
  induction bs using List.reverseRecOn with
  | nil =>
    refine ⟨⟨fun _ pre hpre => ?_, fun _ => ⟨s, rfl⟩⟩, ?_⟩
    · rw [List.prefix_nil.mp hpre]
      exact hnil
    · rintro t ⟨⟩
      exact hstart
  | append_singleton bs b ih =>
    have hfront : bs <+: bs ++ [b] := List.prefix_append bs [b]
    obtain ⟨hiff, htracks⟩ := ih
      (fun front b t h => haccepts front b t (h.trans hfront))
      (fun front b t h => hrefuses front b t (h.trans hfront))
    cases hfold : bs.foldlM f s with
    | error e =>
      have hrun : (bs ++ [b]).foldlM f s = .error e := by
        rw [List.foldlM_append, hfold]
        rfl
      have hnot : ¬ ∀ pre, pre <+: bs → Allowed pre := by
        rw [← hiff, hfold]
        simp
      refine ⟨⟨?_, fun hall => absurd (fun pre h => hall pre (h.trans hfront)) hnot⟩, ?_⟩
      all_goals simp [hrun]
    | ok t =>
      have hallowed := hiff.mp ⟨t, hfold⟩
      have ht := htracks t hfold
      rw [foldlM_concat hfold]
      by_cases hb : Allowed (bs ++ [b])
      · obtain ⟨t', hstep, ht'⟩ := haccepts bs b t (List.prefix_refl _) hallowed ht hb
        refine ⟨⟨fun _ pre hpre => ?_, fun _ => ⟨t', hstep⟩⟩, ?_⟩
        · rcases List.prefix_concat_iff.mp hpre with rfl | hpre
          · exact hb
          · exact hallowed pre hpre
        · intro t'' h
          rw [hstep] at h
          cases h
          exact ht'
      · have hrefused := hrefuses bs b t (List.prefix_refl _) hallowed ht hb
        exact ⟨⟨fun h => absurd h hrefused, fun h => absurd (h _ (List.prefix_refl _)) hb⟩,
          fun t' h => absurd ⟨t', h⟩ hrefused⟩

/-! ## Commit and rollback -/

/-- Run a transaction body against the state `s` it was started in. -/
def commit (s : σ) (body : Except ε (α × σ)) : Except ε α × σ :=
  match body with
  | .ok (a, s') => (.ok a, s')
  | .error e => (.error e, s)

/-- A transaction leaves the state alone or ends in the state of its body. -/
theorem commit_cases (s : σ) (body : Except ε (α × σ)) :
    (commit s body).2 = s ∨ ∃ a s', body = .ok (a, s') ∧ (commit s body).2 = s' := by
  cases body with
  | error e => exact Or.inl rfl
  | ok r => exact Or.inr ⟨r.1, r.2, rfl, rfl⟩

theorem commit_invariant {P : σ → Prop} {s : σ} (hs : P s)
    (hbody : ∀ a s', body = .ok (a, s') → P s') : P (commit s body).2 := by
  rcases commit_cases s body with h | ⟨a, s', hb, h⟩
  · rw [h]
    exact hs
  · rw [h]
    exact hbody a s' hb

/-- The answer of a transaction is that of its body, and a failing one changes nothing. -/
theorem commit_eq {s s' : σ} {r : Except ε α} (h : commit s body = (r, s')) :
    (∃ e, r = .error e) ∧ s' = s ∨ ∃ a, r = .ok a ∧ body = .ok (a, s') := by
  cases body with
  | error e =>
    cases h
    exact Or.inl ⟨⟨e, rfl⟩, rfl⟩
  | ok p =>
    cases h
    exact Or.inr ⟨p.1, rfl, rfl⟩

theorem commit_eq_ok {s s' : σ} {a : α} : commit s body = (.ok a, s') ↔ body = .ok (a, s') := by
  cases body with
  | error e => simp [commit]
  | ok r =>
    obtain ⟨b, s₁⟩ := r
    simp [commit]

theorem commit_isOk {s : σ} : (commit s body).1.isOk = true ↔ ∃ a s', body = .ok (a, s') := by
  cases body with
  | error e => simp [commit, Except.isOk, Except.toBool]
  | ok r => exact ⟨fun _ => ⟨r.1, r.2, rfl⟩, fun _ => rfl⟩

/-! ## Several transactions in a row -/

/-- Go on from the answer `r`.  A failure ends the sequence, and what was committed before it
stays. -/
def andThen (r : Except ε α × σ) (next : α → σ → Except ε β × σ) : Except ε β × σ :=
  match r with
  | (.ok a, s) => next a s
  | (.error e, s) => (.error e, s)

/-- An answer with its error translated. -/
def failAs {ε' : Type*} (f : ε → ε') (r : Except ε α × σ) : Except ε' α × σ := (mapError f r.1, r.2)

@[simp] theorem failAs_eq_ok {ε' : Type*} {f : ε → ε'} {r : Except ε α × σ} {a : α} {s : σ} :
    failAs f r = (.ok a, s) ↔ r = (.ok a, s) := by
  simp [failAs, Prod.ext_iff]

@[simp] theorem failAs_snd {ε' : Type*} (f : ε → ε') (r : Except ε α × σ) :
    (failAs f r).2 = r.2 := rfl

theorem andThen_eq_ok {r : Except ε α × σ} {next : α → σ → Except ε β × σ} {b : β} {s' : σ} :
    andThen r next = (.ok b, s') ↔ ∃ a s, r = (.ok a, s) ∧ next a s = (.ok b, s') := by
  obtain ⟨answer, s⟩ := r
  cases answer with
  | error e => simp [andThen]
  | ok a => simp [andThen]

/-- What holds after the first part, and is kept by the rest, holds at the end. -/
theorem andThen_invariant {P : σ → Prop} {r : Except ε α × σ} {next : α → σ → Except ε β × σ}
    (hr : P r.2) (hnext : ∀ a s, P s → P (next a s).2) : P (andThen r next).2 := by
  obtain ⟨answer, s⟩ := r
  cases answer with
  | error e => exact hr
  | ok a => exact hnext a s hr

/-! ## Statements that fail -/

/-- What becomes of a statement sent to the database. -/
inductive Outcome where
  /-- It is executed and answered. -/
  | done
  /-- It is not executed. -/
  | failed
  /-- It is executed, and its answer is lost. -/
  | lost
deriving DecidableEq, Repr

/-- A transaction whose `COMMIT` has the outcome `o`, or a statement of its own with that
outcome.  A caller without an answer sees the error `e`. -/
def commitAs (o : Outcome) (e : ε) (s : σ) (body : Except ε (α × σ)) : Except ε α × σ :=
  match body, o with
  | .error refused, _ => (.error refused, s)
  | .ok (a, s'), .done => (.ok a, s')
  | .ok _, .failed => (.error e, s)
  | .ok (_, s'), .lost => (.error e, s')

theorem commitAs_done (e : ε) (s : σ) (body : Except ε (α × σ)) :
    commitAs .done e s body = commit s body := by
  cases body <;> rfl

theorem commitAs_eq_ok {o : Outcome} {e : ε} {s s' : σ} {a : α} :
    commitAs o e s body = (.ok a, s') ↔ o = .done ∧ body = .ok (a, s') := by
  cases body with
  | error refused => simp [commitAs]
  | ok r => cases o <;> simp [commitAs, Prod.ext_iff]

/-- What holds before, and after the body, holds whatever becomes of the commit. -/
theorem commitAs_invariant {P : σ → Prop} {o : Outcome} {e : ε} {s : σ} (hs : P s)
    (hbody : ∀ a s', body = .ok (a, s') → P s') :
    P (commitAs o e s body).2 := by
  cases body with
  | error refused => exact hs
  | ok r =>
    cases o with
    | done => exact hbody r.1 r.2 rfl
    | failed => exact hs
    | lost => exact hbody r.1 r.2 rfl

theorem mapError_bind {ε' : Type*} (f : ε → ε') (x : Except ε α) (g : α → Except ε β) :
    mapError f (x >>= g) = mapError f x >>= fun a => mapError f (g a) := by
  cases x <;> rfl

theorem mapError_ensure {ε' : Type*} (f : ε → ε') (c : Prop) [Decidable c] (e : ε) :
    mapError f (ensure c e) = ensure c (f e) := by
  unfold ensure
  split <;> rfl

theorem mapError_okOr {ε' : Type*} (f : ε → ε') (o : Option α) (e : ε) :
    mapError f (okOr o e) = okOr o (f e) := by
  cases o <;> rfl

theorem mapError_mapError {ε' ε'' : Type*} (f : ε → ε') (g : ε' → ε'') (x : Except ε α) :
    mapError g (mapError f x) = mapError (fun e => g (f e)) x := by
  cases x <;> rfl

/-! ## Errors of a kind -/

/-- The step fails, with an error that has the property. -/
def Fails (P : ε → Prop) (x : Except ε α) : Prop := ∃ e, x = .error e ∧ P e

section

variable {P : ε → Prop}

@[simp] theorem fails_ok {a : α} : ¬ Fails P (.ok a : Except ε α) := by
  rintro ⟨e, h, -⟩
  cases h

@[simp] theorem fails_error {e : ε} : Fails P (.error e : Except ε α) ↔ P e := by
  constructor
  · rintro ⟨e', h, he⟩
    cases h
    exact he
  · exact fun he => ⟨e, rfl, he⟩

variable {x : Except ε α}

@[simp] theorem not_fails_false : ¬ Fails (fun _ => False) x :=
  fun ⟨_, _, h⟩ => h

theorem fails_bind {f : α → Except ε β} :
    Fails P (x >>= f) ↔ Fails P x ∨ ∃ a, x = .ok a ∧ Fails P (f a) := by
  cases x with
  | error e =>
    rw [show (Except.error e >>= f) = .error e from rfl, fails_error, fails_error]
    exact ⟨Or.inl, fun h => h.resolve_right fun ⟨_, h, _⟩ => nomatch h⟩
  | ok a =>
    rw [ok_bind]
    constructor
    · exact fun h => Or.inr ⟨a, rfl, h⟩
    · rintro (h | ⟨a', h, hf⟩)
      · exact absurd h fails_ok
      · cases h
        exact hf

theorem not_fails_bind {f : α → Except ε β} (hx : ¬ Fails P x)
    (hf : ∀ a, x = .ok a → ¬ Fails P (f a)) : ¬ Fails P (x >>= f) := by
  rw [fails_bind]
  rintro (h | ⟨a, ha, h⟩)
  · exact hx h
  · exact hf a ha h

@[simp] theorem fails_ensure {c : Prop} [Decidable c] {e : ε} :
    Fails P (ensure c e) ↔ ¬ c ∧ P e := by
  unfold ensure
  split
  · next h => simp [h]
  · next h => simp [h]

@[simp] theorem fails_okOr {o : Option α} {e : ε} : Fails P (okOr o e) ↔ o = none ∧ P e := by
  cases o with
  | none => simp [okOr]
  | some a => simp [okOr]

@[simp] theorem fails_mapError {ε' : Type*} {Q : ε' → Prop} {f : ε → ε'} :
    Fails Q (mapError f x) ↔ Fails (fun e => Q (f e)) x := by
  cases x with
  | error e => simp [mapError]
  | ok a => simp [mapError]

theorem not_fails_commitAs {o : Outcome} {e : ε} {s : σ} {body : Except ε (α × σ)} (he : ¬ P e)
    (hbody : ¬ Fails P body) : ¬ Fails P (commitAs o e s body).1 := by
  cases body with
  | error refused => exact fun h => hbody (fails_error.mpr (fails_error.mp h))
  | ok r =>
    cases o with
    | done => exact fails_ok
    | failed => exact fun h => he (fails_error.mp h)
    | lost => exact fun h => he (fails_error.mp h)

theorem not_fails_andThen {r : Except ε α × σ} {next : α → σ → Except ε β × σ}
    (hr : ¬ Fails P r.1) (hnext : ∀ a s, ¬ Fails P (next a s).1) :
    ¬ Fails P (andThen r next).1 := by
  obtain ⟨answer, s⟩ := r
  cases answer with
  | error e => exact fun h => hr (fails_error.mpr (fails_error.mp h))
  | ok a => exact hnext a s

theorem fails_eq_iff {e : ε} : Fails (fun e' => e' = e) x ↔ x = .error e := by
  constructor
  · rintro ⟨e', h, rfl⟩
    exact h
  · exact fun h => ⟨e, h, rfl⟩

@[simp] theorem fails_map {f : α → β} : Fails P (x.map f) ↔ Fails P x := by
  cases x with
  | error e => simp [Except.map]
  | ok a => simp [Except.map]

theorem not_fails_mapM {f : β → Except ε α} {xs : List β} (h : ∀ x ∈ xs, ¬ Fails P (f x)) :
    ¬ Fails P (xs.mapM f) := by
  rintro ⟨e, hfail, he⟩
  obtain ⟨before, x, after, rfl, -, hx⟩ := mapM_eq_error.mp hfail
  exact h x (by simp) ⟨e, hx, he⟩

theorem not_fails_foldlM {σ : Type u} {f : σ → β → Except ε σ}
    (h : ∀ s b, ¬ Fails P (f s b)) {s : σ} {bs : List β} : ¬ Fails P (bs.foldlM f s) := by
  induction bs generalizing s with
  | nil => exact fails_ok
  | cons b bs ih =>
    rw [List.foldlM_cons]
    exact not_fails_bind (h s b) fun t _ => ih

/-- A fold fails at the first element that is bad for the state it meets, when that depends on a
part of the state which the elements before it determine. -/
theorem fails_foldlM_iff {σ τ : Type u} {f : σ → β → Except ε σ} (part : σ → τ) (next : τ → β → τ)
    (Bad : τ → β → Prop) {Good : β → Prop} (hfails : ∀ s b, Fails P (f s b) ↔ Bad (part s) b)
    (hok : ∀ s b, ¬ Bad (part s) b → ((∃ t, f s b = .ok t) ↔ Good b))
    (hnext : ∀ s b t, f s b = .ok t → part t = next (part s) b) {s : σ} {bs : List β} :
    Fails P (bs.foldlM f s) ↔ ∃ before b after, bs = before ++ b :: after ∧
      (∀ c ∈ before, Good c) ∧ Bad (before.foldl next (part s)) b := by
  induction bs generalizing s with
  | nil => simp [pure, Except.pure]
  | cons b bs ih =>
    rw [List.foldlM_cons, fails_bind, hfails]
    constructor
    · rintro (hbad | ⟨t, ht, h⟩)
      · exact ⟨[], b, bs, rfl, by simp, hbad⟩
      · have hb : ¬ Bad (part s) b := by
          rw [← hfails, ht]
          exact fails_ok
        obtain ⟨before, c, after, rfl, hgood, hc⟩ := ih.mp h
        rw [hnext s b t ht] at hc
        exact ⟨b :: before, c, after, rfl,
          List.forall_mem_cons.mpr ⟨(hok s b hb).mp ⟨t, ht⟩, hgood⟩, hc⟩
    · rintro ⟨before, c, after, heq, hgood, hc⟩
      by_cases hb : Bad (part s) b
      · exact Or.inl hb
      cases before with
      | nil =>
        obtain ⟨rfl, -⟩ := List.cons.inj heq
        exact absurd hc hb
      | cons d before =>
        obtain ⟨rfl, rfl⟩ := List.cons.inj heq
        obtain ⟨hd, hgood⟩ := List.forall_mem_cons.mp hgood
        obtain ⟨t, ht⟩ := (hok s b hb).mpr hd
        refine Or.inr ⟨t, ht, ih.mpr ⟨before, c, after, rfl, hgood, ?_⟩⟩
        rw [hnext s b t ht]
        exact hc

/-- When every error has the property, a step fails unless it succeeds. -/
theorem fails_iff_of_forall (h : ∀ e, x = .error e → P e) : Fails P x ↔ ¬ ∃ a, x = .ok a := by
  cases x with
  | error e => simpa using h e rfl
  | ok a => simp

end

end Commit
