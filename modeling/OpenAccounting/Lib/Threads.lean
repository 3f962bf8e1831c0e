import OpenAccounting.Lib.Runs

/-!
# Interleaved threads

Any number of threads share a state `σ`.  A thread is at a place `φ` of its program, and one
action of a thread is one access to the shared state, after which the thread is at another
place.  A run is a list of actions, each with the thread that takes it, so a theorem for every
run is one for every interleaving.  A thread that is never named again has crashed.

The rule of the module is that of proof outlines.  The shared state has an invariant and each
place an assertion.  An action has to keep the invariant, to establish the assertion of the
place it leads to, and to leave the assertions of the other threads alone.
-/

namespace Threads

variable {ι σ φ α : Type*}

/-- The shared state and the place of every thread. -/
structure State (ι σ φ : Type*) where
  shared : σ
  place : ι → φ

variable [DecidableEq ι]

/-- A thread takes an action. -/
def step (act : ι → σ → φ → α → σ × φ) (s : State ι σ φ) (m : ι × α) : State ι σ φ :=
  let next := act m.1 s.shared (s.place m.1) m.2
  ⟨next.1, Function.update s.place m.1 next.2⟩

theorem place_exec_of_not_mem {act : ι → σ → φ → α → σ × φ} {i : ι} {actions : List (ι × α)}
    (h : ∀ m ∈ actions, m.1 ≠ i) (s : State ι σ φ) :
    (Runs.exec (step act) s actions).place i = s.place i := by
  induction actions generalizing s with
  | nil => rfl
  | cons m actions ih =>
    rw [Runs.exec_cons, ih (fun n hn => h n (List.mem_cons_of_mem _ hn))]
    exact Function.update_of_ne (h m List.mem_cons_self).symm _ _

theorem exec_alone {act : ι → σ → φ → α → σ × φ} {i : ι} (s : State ι σ φ) (actions : List α) :
    let alone := actions.foldl (fun c a => act i c.1 c.2 a) (s.shared, s.place i)
    (Runs.exec (step act) s (actions.map (i, ·))).shared = alone.1 ∧
      (Runs.exec (step act) s (actions.map (i, ·))).place i = alone.2 := by
  induction actions generalizing s with
  | nil => exact ⟨rfl, rfl⟩
  | cons a actions ih =>
    have hplace : (step act s (i, a)).place i = (act i s.shared (s.place i) a).2 := by simp [step]
    have hrest := ih (step act s (i, a))
    rw [hplace] at hrest
    exact hrest

section Outline

variable {act : ι → σ → φ → α → σ × φ} {C : State ι σ φ → ι × α → Prop} {I : σ → Prop}
  {A : ι → φ → σ → Prop}

/-- The invariant holds, and every thread is where its assertion says. -/
structure Holds (I : σ → Prop) (A : ι → φ → σ → Prop) (s : State ι σ φ) : Prop where
  inv : I s.shared
  places : ∀ i, A i (s.place i) s.shared

/-- The proof outline of actions that meet `C`. -/
structure Outline (act : ι → σ → φ → α → σ × φ) (C : State ι σ φ → ι × α → Prop)
    (I : σ → Prop) (A : ι → φ → σ → Prop) : Prop where
  /-- An action keeps the invariant and leads to a place whose assertion holds. -/
  sequential : ∀ {s i a}, Holds I A s → C s (i, a) →
    I (act i s.shared (s.place i) a).1 ∧
      A i (act i s.shared (s.place i) a).2 (act i s.shared (s.place i) a).1
  /-- It does not interfere with the other threads. -/
  stable : ∀ {s i j a}, Holds I A s → C s (i, a) → j ≠ i →
    A j (s.place j) (act i s.shared (s.place i) a).1

theorem Outline.step_holds (h : Outline act C I A) {s : State ι σ φ} {m : ι × α}
    (hs : Holds I A s) (hC : C s m) : Holds I A (step act s m) := by
  obtain ⟨i, a⟩ := m
  obtain ⟨hinv, hown⟩ := h.sequential hs hC
  refine ⟨hinv, fun j => ?_⟩
  by_cases hji : j = i
  · subst hji
    simpa [step] using hown
  · simpa [step, hji] using h.stable hs hC hji

/-- Along every interleaving whose actions meet the condition the outline holds. -/
theorem Outline.holds (h : Outline act C I A) {s : State ι σ φ} {actions : List (ι × α)}
    (hs : Holds I A s) (hmeets : Runs.Meets (step act) C s actions) :
    ∀ s' ∈ Runs.visited (step act) s actions, Holds I A s' :=
  Runs.invariant_of_meets (fun _ _ hs hC => h.step_holds hs hC) hs hmeets

end Outline

end Threads
