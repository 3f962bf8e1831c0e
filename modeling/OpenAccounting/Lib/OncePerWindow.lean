import Mathlib.Data.List.Basic
import Mathlib.Order.Basic
import Mathlib.Tactic.Linarith

/-!
# At most once per window

An action is to be done at most once in a window of time, however often it is asked for.
An attempt looks for a kept answer, does the action, and keeps the answer; the three are
separate steps.  A kept answer counts for the length `w` of the window and is removed some
time after.

A `Slot` is what one key sees of this: the clock, how many attempts stand between looking
and doing and between doing and keeping, the times of the kept answers, and the times at
which the action was done.  `Step` has the steps of attempts that look one at a time, at a
slot without kept answers.  `Sound` is their invariant, and it says that any two doings
are more than `w` apart.
-/

namespace OncePerWindow

/-- The state of one key. -/
structure Slot where
  now : ℤ
  /-- Attempts that have looked and not done. -/
  looked : ℕ
  /-- Attempts that have done and not kept. -/
  acted : ℕ
  /-- The times of the kept answers. -/
  kept : List ℤ
  /-- The times at which the action was done, oldest first. -/
  times : List ℤ

/-- The guarded steps of a slot. -/
inductive Step (w : ℤ) : Slot → Slot → Prop where
  | tick {s : Slot} (d : ℕ) : Step w s { s with now := s.now + d }
  | expire {s : Slot} : Step w s { s with kept := s.kept.filter fun t => ¬ t < s.now - w }
  /-- An attempt finds nothing.  There is no other attempt and no answer, not even an old
  one. -/
  | look {s : Slot} (hlooked : s.looked = 0) (hacted : s.acted = 0) (hkept : s.kept = []) :
      Step w s { s with looked := 1 }
  | act {s : Slot} (h : 0 < s.looked) :
      Step w s { s with looked := s.looked - 1, acted := s.acted + 1, times := s.times ++ [s.now] }
  | fail {s : Slot} (h : 0 < s.looked) : Step w s { s with looked := s.looked - 1 }
  /-- The answer is kept, unless one is there. -/
  | keep {s : Slot} (h : 0 < s.acted) :
      Step w s { s with acted := s.acted - 1, kept := if s.kept = [] then [s.now] else s.kept }

/-- Where the slot is in the life of an attempt. -/
inductive Phase (w : ℤ) (s : Slot) : Prop where
  | idle (hlooked : s.looked = 0) (hacted : s.acted = 0)
      (hcovered : ∀ t ∈ s.times, (∃ k ∈ s.kept, t ≤ k) ∨ t + w < s.now)
  | looking (hlooked : s.looked = 1) (hacted : s.acted = 0) (hkept : s.kept = [])
      (hpassed : ∀ t ∈ s.times, t + w < s.now)
  | acting (hlooked : s.looked = 0) (hacted : s.acted = 1) (hkept : s.kept = [])

/-- The doings are apart, and the phase accounts for each of them. -/
structure Sound (w : ℤ) (s : Slot) : Prop where
  apart : s.times.Pairwise fun a b => a + w < b
  past : ∀ t ∈ s.times, t ≤ s.now
  phase : Phase w s

variable {w : ℤ} {s s' : Slot}

theorem sound_initial (now : ℤ) (kept : List ℤ) : Sound w ⟨now, 0, 0, kept, []⟩ where
  apart := .nil
  past := by simp
  phase := .idle rfl rfl (by simp)

theorem Step.of_eq {t : Slot} (hstep : Step w s s') (h : t = s') : Step w s t := by
  rw [h]
  exact hstep

theorem Step.sound (hstep : Step w s s') (h : Sound w s) : Sound w s' := by
  obtain ⟨hapart, hpast, hphase⟩ := h
  cases hstep with
  | tick d =>
    have hlater : ∀ t ∈ s.times, t ≤ s.now + d := fun t ht => by
      have := hpast t ht
      omega
    refine ⟨hapart, hlater, ?_⟩
    cases hphase with
    | idle hlooked hacted hcovered =>
      refine .idle hlooked hacted fun t ht => (hcovered t ht).imp_right fun hlt => ?_
      show t + w < s.now + d
      omega
    | looking hlooked hacted hkept hpassed =>
      refine .looking hlooked hacted hkept fun t ht => ?_
      have := hpassed t ht
      show t + w < s.now + d
      omega
    | acting hlooked hacted hkept => exact .acting hlooked hacted hkept
  | expire =>
    refine ⟨hapart, hpast, ?_⟩
    cases hphase with
    | idle hlooked hacted hcovered =>
      refine .idle hlooked hacted fun t ht => ?_
      rcases hcovered t ht with ⟨k, hk, htk⟩ | hlt
      · -- An answer that is removed is older than the window, and so is its doing.
        by_cases hold : k < s.now - w
        · have hpassed : t + w < s.now := by omega
          exact Or.inr hpassed
        · exact Or.inl ⟨k, List.mem_filter.mpr ⟨hk, by simpa using hold⟩, htk⟩
      · exact Or.inr hlt
    | looking hlooked hacted hkept hpassed =>
      exact .looking hlooked hacted (by simp [hkept]) hpassed
    | acting hlooked hacted hkept => exact .acting hlooked hacted (by simp [hkept])
  | look hlooked hacted hkept =>
    refine ⟨hapart, hpast, .looking rfl hacted hkept ?_⟩
    intro t ht
    cases hphase with
    | idle _ _ hcovered =>
      rcases hcovered t ht with ⟨k, hk, -⟩ | hlt
      · rw [hkept] at hk
        cases hk
      · exact hlt
    | looking hone => omega
    | acting _ hone => omega
  | act hlooked =>
    cases hphase with
    | idle hzero => omega
    | acting hzero => omega
    | looking hone hacted hkept hpassed =>
      refine ⟨?_, ?_, .acting (by simp [hone]) (by simp [hacted]) hkept⟩
      · rw [List.pairwise_append]
        refine ⟨hapart, List.pairwise_singleton _ _, ?_⟩
        intro a ha b hb
        rw [List.mem_singleton.mp hb]
        exact hpassed a ha
      · intro t ht
        rcases List.mem_append.mp ht with ht | ht
        · exact hpast t ht
        · exact (List.mem_singleton.mp ht).le
  | fail hlooked =>
    cases hphase with
    | idle hzero => omega
    | acting hzero => omega
    | looking hone hacted hkept hpassed =>
      exact ⟨hapart, hpast,
        .idle (by simp [hone]) hacted fun t ht => Or.inr (hpassed t ht)⟩
  | keep hacted =>
    cases hphase with
    | idle _ hzero => omega
    | looking _ hzero => omega
    | acting hlooked hone hkept =>
      refine ⟨hapart, hpast, .idle hlooked (by simp [hone]) fun t ht => Or.inl ?_⟩
      exact ⟨s.now, by simp [hkept], hpast t ht⟩

end OncePerWindow
