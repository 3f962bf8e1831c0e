import OpenAccounting.Auth.Login
import OpenAccounting.Lib.Relational

/-!
# A one-time password is used once

Any number of submissions of `login_2fa_submit` are under way.  A submission that has verified
its code logs the user in whether or not its compare-and-set found the counter it had read.
While every compare-and-set does (`Undisturbed`), the counter of a user passes each time step
at most once, and a login goes back to the compare-and-set of its own submission.
-/

namespace OpenAccounting.Login

open Totp

variable {crypto : TotpCrypto}

/-! ## The counter -/

/-- No row is lost, and no counter is lower than before. -/
def CountersRise (t t' : LoginTables) : Prop :=
  ∀ user row, t.userTotp user = some row →
    ∃ row', t'.userTotp user = some row' ∧ row.lastUsedCounter ≤ row'.lastUsedCounter

theorem CountersRise.of_eq {t t' : LoginTables} (h : t'.userTotp = t.userTotp) :
    CountersRise t t' :=
  fun _ row hrow => ⟨row, by rw [h]; exact hrow, le_rfl⟩

theorem CountersRise.trans {t t' t'' : LoginTables} (h : CountersRise t t')
    (h' : CountersRise t' t'') : CountersRise t t'' := by
  intro user row hrow
  obtain ⟨row', hrow', hle⟩ := h user row hrow
  obtain ⟨row'', hrow'', hle'⟩ := h' user row' hrow'
  exact ⟨row'', hrow'', hle.trans hle'⟩

theorem countersRise_advanceCounter {t : LoginTables} {user : Uuid} {expected new : ℤ}
    (hlt : expected < new) : CountersRise t (advanceCounter t user expected new).2 := by
  rcases advanceCounter_cases t user expected new with h | ⟨row, hrow, hexpected, h⟩
  · rw [h]
    exact .of_eq rfl
  · rw [h]
    intro other row₀ hrow₀
    by_cases hother : other = user
    · subst hother
      rw [hrow] at hrow₀
      cases hrow₀
      refine ⟨{ row with lastUsedCounter := new }, by simp, ?_⟩
      rw [hexpected]
      exact hlt.le
    · exact ⟨row₀, by simpa [hother] using hrow₀, le_rfl⟩

/-! ## What a submission knows -/

/-- The submission has not logged in. -/
def Pending (number : ℕ) (sh : Shared) : Prop := ∀ s ∈ sh.successes, s.number ≠ number

/-- A verified step is after the counter. -/
def Ordered : Place → Prop
  | .verified _ _ counter step => counter < step
  | _ => True

/-- What the place says of the past. -/
def Asserts (number : ℕ) : Place → Shared → Prop
  | .matched user _ (some step), sh => Pending number sh ∧ ⟨number, user, step⟩ ∈ sh.advances
  | .answered _, _ => True
  | _, sh => Pending number sh

/-- Each step of a user is passed once, and each login by a step goes back to the
compare-and-set of its submission. -/
structure Recorded (sh : Shared) : Prop where
  nodup : (sh.advances.map fun a => (a.user, a.step)).Nodup
  passed : ∀ a ∈ sh.advances, ∃ row, sh.tables.userTotp a.user = some row ∧
    a.step ≤ row.lastUsedCounter
  numbers : (sh.successes.map Success.number).Nodup
  backed : ∀ s ∈ sh.successes, ∀ step ∈ s.step, ⟨s.number, s.user, step⟩ ∈ sh.advances

/-- The counter that a verified submission has read is still in its row. -/
def Place.current (t : LoginTables) : Place → Bool
  | .verified user _ counter _ => (t.userTotp user).map UserTotp.lastUsedCounter = some counter
  | _ => true

/-- The compare-and-set finds the counter that its submission has read. -/
def Undisturbed (s : State) : ℕ × Action → Prop
  | (number, .advance) => (s.place number).current s.shared.tables = true
  | _ => True

/-! ## What an action does -/

/-- An action that moves no counter and logs nobody in. -/
structure Quiet (number : ℕ) (sh : Shared) (place : Place) (r : Shared × Place) : Prop where
  totp : r.1.tables.userTotp = sh.tables.userTotp
  advances : r.1.advances = sh.advances
  successes : r.1.successes = sh.successes
  asserts : Asserts number place sh → Asserts number r.2 r.1
  ordered : Ordered place → Ordered r.2

variable {number : ℕ} {place : Place} {sh : Shared} {form : Submission}

theorem quiet_answered (answer : Answer) : Quiet number sh place (sh, .answered answer) :=
  ⟨rfl, rfl, rfl, fun _ => trivial, fun _ => trivial⟩

theorem quiet_submit (number : ℕ) (sh : Shared) (form : Submission) :
    Quiet number sh .idle (sh, submit sh.tables form) := by
  unfold submit
  split
  · exact quiet_answered _
  · split
    · exact quiet_answered _
    · exact ⟨rfl, rfl, rfl, id, fun _ => trivial⟩

theorem quiet_verify (number : ℕ) (sh : Shared) (user : Uuid) (form : Submission)
    (sealedSecret : String) (counter now : ℤ) :
    Quiet number sh (.fetched user form sealedSecret counter)
      (sh, verify crypto user form sealedSecret counter now) := by
  unfold verify
  split
  · exact quiet_answered _
  · split
    · rename_i hverify
      exact ⟨rfl, rfl, rfl, id, fun _ => verifyCode_lt hverify⟩
    · exact ⟨rfl, rfl, rfl, id, fun _ => trivial⟩

theorem quiet_recover (number : ℕ) (sh : Shared) (user : Uuid) (form : Submission)
    (locked : List Uuid) :
    Quiet number sh (.unmatched user form) (recover crypto sh user form locked) := by
  have htotp := consumeRecoveryCode_userTotp crypto sh.tables locked user
    (crypto.toUppercase (RustStr.trim form.code))
  unfold recover
  dsimp only
  split <;> rename_i hconsume <;> rw [hconsume] at htotp
  · exact ⟨htotp, rfl, rfl, id, fun _ => trivial⟩
  · exact ⟨htotp, rfl, rfl, fun _ => trivial, fun _ => trivial⟩

/-- An action is quiet, or it advances a counter or logs in. -/
theorem act_cases (crypto : TotpCrypto) (number : ℕ) (sh : Shared) (place : Place) (a : Action) :
    Quiet number sh place (act crypto number sh place a) ∨
      (∃ user form counter step, place = .verified user form counter step ∧ a = .advance) ∨
      ∃ user form step ok, place = .matched user form step ∧ a = .login ok := by
  have hstay : Quiet number sh place (sh, place) := ⟨rfl, rfl, rfl, id, id⟩
  cases place with
  | idle =>
    left
    cases a with
    | submit form => exact quiet_submit number sh form
    | fail => exact quiet_answered _
    | verify | recover | advance | login => exact hstay
  | fetched user form sealedSecret counter =>
    left
    cases a with
    | verify now => exact quiet_verify number sh user form sealedSecret counter now
    | fail => exact quiet_answered _
    | submit | recover | advance | login => exact hstay
  | unmatched user form =>
    left
    cases a with
    | recover locked => exact quiet_recover number sh user form locked
    | fail => exact quiet_answered _
    | submit | verify | advance | login => exact hstay
  | verified user form counter step =>
    cases a with
    | advance => exact Or.inr (Or.inl ⟨user, form, counter, step, rfl, rfl⟩)
    | fail => exact Or.inl (quiet_answered _)
    | submit | verify | recover | login => exact Or.inl hstay
  | matched user form step =>
    cases a with
    | login ok => exact Or.inr (Or.inr ⟨user, form, step, ok, rfl, rfl⟩)
    | fail => exact Or.inl (quiet_answered _)
    | submit | verify | recover | advance => exact Or.inl hstay
  | answered answer =>
    left
    cases a <;> exact hstay

/-! ## Counters never decrease -/

theorem ordered_act {a : Action} (h : Ordered place) :
    Ordered (act crypto number sh place a).2 := by
  rcases act_cases crypto number sh place a with
    hquiet | ⟨user, form, counter, step, rfl, rfl⟩ | ⟨user, form, step, ok, rfl, rfl⟩
  · exact hquiet.ordered h
  · trivial
  · simp only [act, login]
    split <;> trivial

theorem countersRise_act {a : Action} (h : Ordered place) :
    CountersRise sh.tables (act crypto number sh place a).1.tables := by
  rcases act_cases crypto number sh place a with
    hquiet | ⟨user, form, counter, step, rfl, rfl⟩ | ⟨user, form, step, ok, rfl, rfl⟩
  · exact .of_eq hquiet.totp
  · exact countersRise_advanceCounter h
  · simp only [act, login]
    split <;> exact .of_eq rfl

theorem pairwise_countersRise {s : State} {actions : List (ℕ × Action)}
    (hs : ∀ n, Ordered (s.place n)) :
    (Runs.visited (step crypto) s actions).Pairwise
      fun s t => CountersRise s.shared.tables t.shared.tables := by
  refine Runs.pairwise_visited (R := fun s t : State => CountersRise s.shared.tables t.shared.tables)
    (P := fun s : State => ∀ n, Ordered (s.place n)) (C := fun _ _ => True)
    (fun _ _ _ => CountersRise.trans) ?_ hs (Runs.meets_of_forall fun _ _ => trivial)
  rintro s ⟨n, a⟩ hs -
  refine ⟨fun m => ?_, countersRise_act (hs n)⟩
  by_cases hmn : m = n
  · subst hmn
    simpa [step, Threads.step] using ordered_act (hs m)
  · simpa [step, Threads.step, hmn] using hs m

/-! ## At most one login for a step -/

/-- At most one login of a user by a step. -/
def SingleUse (sh : Shared) : Prop :=
  ∀ user step, (sh.successes.filter fun s => s.user = user ∧ s.step = some step).length ≤ 1

theorem Recorded.singleUse (h : Recorded sh) : SingleUse sh := by
  intro user step
  by_cases hnone : ∃ s ∈ sh.successes, s.user = user ∧ s.step = some step
  · obtain ⟨s, hs, hu, hstep⟩ := hnone
    refine Relational.length_filter_le_one (k := s.number) h.numbers fun s' hs' hp => ?_
    obtain ⟨hu', hstep'⟩ := of_decide_eq_true hp
    -- Both logins go back to the one compare-and-set that passed the step.
    have hadv := h.backed s hs step hstep
    have hadv' := h.backed s' hs' step hstep'
    have heq := List.inj_on_of_nodup_map h.nodup hadv' hadv (by rw [hu, hu'])
    exact congrArg Advance.number heq
  · rw [List.filter_eq_nil_iff.mpr]
    · exact Nat.zero_le 1
    · intro s hs hp
      exact hnone ⟨s, hs, of_decide_eq_true hp⟩

theorem Recorded.of_eq {sh' : Shared} (h : Recorded sh)
    (htotp : sh'.tables.userTotp = sh.tables.userTotp) (hadv : sh'.advances = sh.advances)
    (hsucc : sh'.successes = sh.successes) : Recorded sh' where
  nodup := by rw [hadv]; exact h.nodup
  passed := by rw [hadv, htotp]; exact h.passed
  numbers := by rw [hsucc]; exact h.numbers
  backed := by rw [hadv, hsucc]; exact h.backed

theorem Asserts.pending {user : Uuid} {step : Option ℤ}
    (h : Asserts number (.matched user form step) sh) : Pending number sh := by
  cases step with
  | none => exact h
  | some step => exact h.1

theorem Asserts.backed {user : Uuid} {step : Option ℤ}
    (h : Asserts number (.matched user form step) sh) :
    ∀ s ∈ step, ⟨number, user, s⟩ ∈ sh.advances := by
  rintro s rfl
  exact h.2

/-- What a place says of the past stays true when others move counters or log in. -/
theorem Asserts.mono {sh' : Shared} (h : Asserts number place sh)
    (hadv : sh.advances ⊆ sh'.advances)
    (hsucc : ∀ s ∈ sh'.successes, s ∈ sh.successes ∨ s.number ≠ number) :
    Asserts number place sh' := by
  have hpending : Pending number sh → Pending number sh' := fun hp s hs =>
    (hsucc s hs).elim (hp s) id
  cases place with
  | answered answer => trivial
  | matched user form step =>
    cases step with
    | none => exact hpending h
    | some step => exact ⟨hpending h.1, hadv h.2⟩
  | idle => exact hpending h
  | fetched => exact hpending h
  | unmatched => exact hpending h
  | verified => exact hpending h

theorem recorded_advance {user : Uuid} {counter step : ℤ} {row : UserTotp} (h : Recorded sh)
    (hlt : counter < step) (hrow : sh.tables.userTotp user = some row)
    (hcounter : row.lastUsedCounter = counter) :
    Recorded (advance number sh user form counter step).1 := by
  simp only [advance, advanceCounter, hrow, hcounter, if_true]
  refine ⟨?_, ?_, h.numbers, fun s hs t ht => List.mem_append_left _ (h.backed s hs t ht)⟩
  · refine Relational.nodup_map_concat.mpr ⟨h.nodup, fun a ha heq => ?_⟩
    obtain ⟨row', hrow', hle⟩ := h.passed a ha
    -- A step that was passed before is at most the counter, which the new step exceeds.
    simp only [Prod.mk.injEq] at heq
    rw [heq.1, hrow] at hrow'
    cases hrow'
    omega
  · intro a ha
    rcases List.mem_append.mp ha with ha | ha
    · obtain ⟨row', hrow', hle⟩ := h.passed a ha
      by_cases hau : a.user = user
      · rw [hau, hrow] at hrow'
        cases hrow'
        refine ⟨{ row with lastUsedCounter := step }, by simp [hau], ?_⟩
        show a.step ≤ step
        omega
      · exact ⟨row', by simpa [hau] using hrow', hle⟩
    · cases List.mem_singleton.mp ha
      exact ⟨{ row with lastUsedCounter := step }, by simp, le_rfl⟩

theorem recorded_login {user : Uuid} {step : Option ℤ} {ok : Bool} (h : Recorded sh)
    (hplace : Asserts number (.matched user form step) sh) :
    Recorded (login number sh user form step ok).1 := by
  unfold login
  split
  · refine ⟨h.nodup, h.passed, ?_, ?_⟩
    · exact Relational.nodup_map_concat.mpr ⟨h.numbers, hplace.pending⟩
    · intro s hs t ht
      rcases List.mem_append.mp hs with hs | hs
      · exact h.backed s hs t ht
      · cases List.mem_singleton.mp hs
        exact hplace.backed t ht
  · exact h

/-- What each place says of the past holds after undisturbed steps. -/
theorem outline : Threads.Outline (act crypto) Undisturbed Recorded
    fun n place sh => Asserts n place sh ∧ Ordered place where
  sequential {s n a} hs hC := by
    obtain ⟨hasserts, hordered⟩ := hs.places n
    have hord : Ordered (act crypto n s.shared (s.place n) a).2 := ordered_act hordered
    rcases act_cases crypto n s.shared (s.place n) a with
      hquiet | ⟨user, form, counter, step, hplace, rfl⟩ | ⟨user, form, step, ok, hplace, rfl⟩
    · exact ⟨hs.inv.of_eq hquiet.totp hquiet.advances hquiet.successes,
        hquiet.asserts hasserts, hord⟩
    · simp only [Undisturbed, hplace, Place.current, decide_eq_true_eq, Option.map_eq_some_iff]
        at hC
      obtain ⟨row, hrow, hcounter⟩ := hC
      rw [hplace] at hasserts hordered ⊢
      refine ⟨recorded_advance hs.inv hordered hrow hcounter, ⟨hasserts, ?_⟩, trivial⟩
      simp [act, advance, advanceCounter, hrow, hcounter]
    · rw [hplace] at hasserts ⊢
      refine ⟨recorded_login hs.inv hasserts, ?_⟩
      simp only [act, login]
      split <;> exact ⟨trivial, trivial⟩
  stable {s n m a} hs hC hmn := by
    obtain ⟨hasserts, hordered⟩ := hs.places m
    refine ⟨?_, hordered⟩
    rcases act_cases crypto n s.shared (s.place n) a with
      hquiet | ⟨user, form, counter, step, hplace, rfl⟩ | ⟨user, form, step, ok, hplace, rfl⟩
    · refine hasserts.mono ?_ ?_
      · rw [hquiet.advances]
        exact List.Subset.refl _
      · rw [hquiet.successes]
        exact fun s hs => Or.inl hs
    · rw [hplace]
      refine hasserts.mono ?_ fun s hs => Or.inl hs
      simp only [act, advance]
      split
      · exact List.subset_append_left _ _
      · exact List.Subset.refl _
    · rw [hplace]
      simp only [act, login]
      split
      · refine hasserts.mono (List.Subset.refl _) fun s hs => ?_
        rcases List.mem_append.mp hs with hs | hs
        · exact Or.inl hs
        · cases List.mem_singleton.mp hs
          exact Or.inr hmn.symm
      · exact hasserts

/-- Nothing has been submitted yet. -/
def start (tables : LoginTables) : State := ⟨{ tables := tables }, fun _ => .idle⟩

/-- In an interleaving whose compare-and-sets are undisturbed, every step of a user ends in at
most one login, and no counter is ever lower than before. -/
theorem singleUse_of_undisturbed {tables : LoginTables} {actions : List (ℕ × Action)}
    (hmeets : Runs.Meets (step crypto) Undisturbed (start tables) actions) :
    (∀ s ∈ Runs.visited (step crypto) (start tables) actions, SingleUse s.shared) ∧
      (Runs.visited (step crypto) (start tables) actions).Pairwise
        fun s t => CountersRise s.shared.tables t.shared.tables := by
  have hstart : Threads.Holds Recorded (fun n place sh => Asserts n place sh ∧ Ordered place)
      (start tables) :=
    ⟨⟨.nil, by simp [start], .nil, by simp [start]⟩, fun n => ⟨by simp [start, Asserts, Pending],
      trivial⟩⟩
  exact ⟨fun s hs => (outline.holds hstart hmeets s hs).inv.singleUse,
    pairwise_countersRise fun n => trivial⟩

/-! ## Two submissions of one code -/

namespace Sample

/-- The one secret and its code of the first time step (RFC 6238, SHA-1, 6 digits). -/
def library : TotpCrypto where
  openSealed s := if s = "sealed" then some "GEZDGNBVGY3TQOJQGEZDGNBVGY3TQOJQ" else none
  totpFromSecret secret :=
    if secret = "GEZDGNBVGY3TQOJQGEZDGNBVGY3TQOJQ" then
      .ok fun code now =>
        if code = "287082" ∧ now.toNat / 30 ≤ 2 then some 1 else none
    else .error (.base32 "InvalidSecret")
  verifyRecoveryCodeHash _ _ := false
  toUppercase := String.toUpper

def user : Uuid := 7

def tables : LoginTables where
  users := [{ id := user }]
  userTotp := Function.update (fun _ => none) user (some { secretEncrypted := "sealed" })

/-- A submission of the code at second `59`. -/
def submission (n : ℕ) : List (ℕ × Action) :=
  [(n, .submit { pending := some user, code := "287082" }), (n, .verify 59)]

end Sample

/-- Both submissions verify the code before either moves the counter. -/
def racing : List (ℕ × Action) :=
  Sample.submission 0 ++ Sample.submission 1 ++
    [(0, .advance), (0, .login true), (1, .advance), (1, .login true)]

/-- Both submissions match the code before either advances the counter. -/
theorem racing_not_singleUse :
    ¬ SingleUse (Runs.exec (step Sample.library) (start Sample.tables) racing).shared := by
  intro h
  have := h Sample.user 1
  revert this
  decide

/-- The second submission comes after the first. -/
theorem singleUse_of_undisturbed_inTurn :
    SingleUse (Runs.exec (step Sample.library) (start Sample.tables)
      (Sample.submission 0 ++ [(0, .advance), (0, .login true)] ++
        Sample.submission 1 ++ [(1, .advance), (1, .login true)])).shared := by
  refine (singleUse_of_undisturbed ?_).1 _ (Runs.exec_mem_visited _ _)
  refine ⟨trivial, trivial, ?_, trivial, trivial, trivial, ?_, trivial, trivial⟩
  · show Place.current _ _ = true
    decide
  · show Place.current _ _ = true
    decide

end OpenAccounting.Login
