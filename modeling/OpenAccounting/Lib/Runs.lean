import Mathlib.Data.List.Basic
import Mathlib.Logic.Function.Basic
import Mathlib.Logic.Relation

/-!
# Runs of a deterministic machine

A machine is a total step function `step : σ → α → σ`.  Every source of
nondeterminism (an id drawn by the database, the reading of a clock, which party
moves next) is part of the action, so a theorem for every list of actions is a
theorem for every run.  An action that is not enabled leaves the state as it is.

Most properties of a running system hold only while every step meets a
condition.  `Runs.Meets` says so at the state each step starts from, and
`Runs.invariant_of_meets` is the one induction that the safety theorems need.
-/

namespace Runs

variable {σ α : Type*}

/-- The state a run ends in. -/
def exec (step : σ → α → σ) (s : σ) (actions : List α) : σ :=
  actions.foldl step s

/-- Every state a run passes through, the first and the last included. -/
def visited (step : σ → α → σ) : σ → List α → List σ
  | s, [] => [s]
  | s, a :: rest => s :: visited step (step s a) rest

/-- Every step of the run meets `C` at the state it starts from. -/
def Meets (step : σ → α → σ) (C : σ → α → Prop) : σ → List α → Prop
  | _, [] => True
  | s, a :: rest => C s a ∧ Meets step C (step s a) rest

instance decidableMeets (step : σ → α → σ) (C : σ → α → Prop) [∀ s a, Decidable (C s a)] :
    ∀ (s : σ) (actions : List α), Decidable (Meets step C s actions)
  | _, [] => .isTrue trivial
  | s, a :: rest =>
    have := decidableMeets step C (step s a) rest
    inferInstanceAs (Decidable (C s a ∧ Meets step C (step s a) rest))

section Basic

variable {step : σ → α → σ} {C D : σ → α → Prop} {P : σ → Prop}

@[simp] theorem exec_nil (s : σ) : exec step s [] = s := rfl

@[simp] theorem exec_cons (s : σ) (a : α) (rest : List α) :
    exec step s (a :: rest) = exec step (step s a) rest := rfl

theorem exec_mem_visited (s : σ) (actions : List α) :
    exec step s actions ∈ visited step s actions := by
  induction actions generalizing s with
  | nil => simp [visited]
  | cons a rest ih =>
    simp only [visited, exec_cons, List.mem_cons]
    exact Or.inr (ih (step s a))

/-- A property that every step meeting `C` keeps holds in every state of a run
whose steps all meet `C`. -/
theorem invariant_of_meets (hstep : ∀ s a, P s → C s a → P (step s a)) :
    ∀ {s : σ} {actions : List α}, P s → Meets step C s actions →
      ∀ s' ∈ visited step s actions, P s'
  | s, [], hs, _, s', hmem => by
    simp only [visited, List.mem_singleton] at hmem
    exact hmem ▸ hs
  | s, a :: rest, hs, hmeets, s', hmem => by
    simp only [visited, List.mem_cons] at hmem
    rcases hmem with rfl | hmem
    · exact hs
    · exact invariant_of_meets hstep (hstep s a hs hmeets.1) hmeets.2 s' hmem

theorem meets_of_forall (h : ∀ s a, C s a) : ∀ {s : σ} {actions : List α}, Meets step C s actions
  | _, [] => trivial
  | s, a :: _ => ⟨h s a, meets_of_forall h⟩

theorem invariant (hstep : ∀ s a, P s → P (step s a)) {s : σ} (actions : List α)
    (hs : P s) : ∀ s' ∈ visited step s actions, P s' :=
  invariant_of_meets (C := fun _ _ => True) (fun s a h _ => hstep s a h) hs
    (meets_of_forall fun _ _ => trivial)

/-- A transitive relation that every step meeting `C` goes along holds between any two states of
a run, the earlier one first. -/
theorem pairwise_visited {R : σ → σ → Prop} (htrans : ∀ s t u, R s t → R t u → R s u)
    (hstep : ∀ s a, P s → C s a → P (step s a) ∧ R s (step s a)) :
    ∀ {s : σ} {actions : List α}, P s → Meets step C s actions →
      (visited step s actions).Pairwise R
  | s, [], _, _ => List.pairwise_singleton R s
  | s, a :: rest, hs, hmeets => by
    obtain ⟨hP, hR⟩ := hstep s a hs hmeets.1
    have htail := pairwise_visited htrans hstep hP hmeets.2
    refine List.pairwise_cons.mpr ⟨fun u hu => ?_, htail⟩
    -- The tail starts with the state after the step, which every later one is related to.
    cases rest with
    | nil =>
      simp only [visited, List.mem_singleton] at hu
      exact hu ▸ hR
    | cons b rest =>
      simp only [visited, List.mem_cons] at hu
      rcases hu with rfl | hu
      · exact hR
      · exact htrans _ _ _ hR ((List.pairwise_cons.mp htail).1 u hu)

/-- While the goal is not reached every step lowers the variant, so as many steps as its value
reach the goal. -/
theorem goal_of_variant {I Goal : σ → Prop} {m : σ → ℕ}
    (hkeep : ∀ s a, I s → C s a → I (step s a))
    (hgoal : ∀ s a, I s → C s a → Goal s → Goal (step s a))
    (hzero : ∀ s, I s → m s = 0 → Goal s)
    (hlower : ∀ s a, I s → C s a → ¬ Goal s → m (step s a) < m s) :
    ∀ {s : σ} {actions : List α}, I s → Meets step C s actions → m s ≤ actions.length →
      Goal (exec step s actions)
  | s, [], hI, _, hle => hzero s hI (Nat.le_zero.mp hle)
  | s, a :: rest, hI, hmeets, hle => by
    have hnext := hkeep s a hI hmeets.1
    rcases Classical.em (Goal s) with hdone | hnot
    · have hstay : ∀ t b, I t ∧ Goal t → C t b → I (step t b) ∧ Goal (step t b) :=
        fun t b ht hC => ⟨hkeep t b ht.1 hC, hgoal t b ht.1 hC ht.2⟩
      exact (invariant_of_meets hstay ⟨hI, hdone⟩ hmeets _ (exec_mem_visited s (a :: rest))).2
    · have hlt := hlower s a hI hmeets.1 hnot
      rw [List.length_cons] at hle
      rw [exec_cons]
      exact goal_of_variant hkeep hgoal hzero hlower hnext hmeets.2 (by omega)

/-- If a step that meets `D` keeps `P` exactly when it meets `C`, a run whose steps all meet `D`
keeps `P` exactly when they meet `C`.  What the step needs besides, `Q`, it may keep because of
`P`. -/
theorem forall_visited_iff_meets_of_meets {Q : σ → Prop}
    (hQ : ∀ s a, Q s → P s → D s a → Q (step s a))
    (hstep : ∀ s a, Q s → P s → D s a → (P (step s a) ↔ C s a)) :
    ∀ {s : σ} {actions : List α}, Q s → P s → Meets step D s actions →
      ((∀ s' ∈ visited step s actions, P s') ↔ Meets step C s actions)
  | s, [], _, hs, _ => by simp [visited, Meets, hs]
  | s, a :: rest, hQs, hs, hD => by
    have hhead := hstep s a hQs hs hD.1
    have hnextQ := hQ s a hQs hs hD.1
    constructor
    · intro hall
      have hnext : P (step s a) := by
        refine hall _ (List.mem_cons_of_mem _ ?_)
        cases rest <;> simp [visited]
      exact ⟨hhead.mp hnext, (forall_visited_iff_meets_of_meets hQ hstep hnextQ hnext hD.2).mp
        fun s' hs' => hall s' (List.mem_cons_of_mem _ hs')⟩
    · rintro ⟨hC, hmeets⟩ s' hs'
      have hnext := hhead.mpr hC
      rcases List.mem_cons.mp hs' with rfl | hs'
      · exact hs
      · exact (forall_visited_iff_meets_of_meets hQ hstep hnextQ hnext hD.2).mpr hmeets s' hs'

/-- If a step keeps `P` exactly when it meets `C`, a run keeps `P` exactly when its steps meet
`C`. -/
theorem forall_visited_iff_meets {Q : σ → Prop} (hQ : ∀ s a, Q s → Q (step s a))
    (hstep : ∀ s a, Q s → P s → (P (step s a) ↔ C s a)) {s : σ} {actions : List α} (hQs : Q s)
    (hs : P s) : (∀ s' ∈ visited step s actions, P s') ↔ Meets step C s actions :=
  forall_visited_iff_meets_of_meets (D := fun _ _ => True) (fun s a hQs _ _ => hQ s a hQs)
    (fun s a hQs hs _ => hstep s a hQs hs) hQs hs (meets_of_forall fun _ _ => trivial)

theorem simulates {τ : Type*} {Next : τ → τ → Prop} {Sim : σ → τ → Prop}
    (hstep : ∀ s a t, Sim s t → ∃ t', Relation.ReflTransGen Next t t' ∧ Sim (step s a) t') :
    ∀ {s : σ} {t : τ} {actions : List α}, Sim s t →
      ∀ s' ∈ visited step s actions, ∃ t', Relation.ReflTransGen Next t t' ∧ Sim s' t'
  | s, t, [], hs, s', hmem => by
    simp only [visited, List.mem_singleton] at hmem
    exact ⟨t, .refl, hmem ▸ hs⟩
  | s, t, a :: rest, hs, s', hmem => by
    simp only [visited, List.mem_cons] at hmem
    rcases hmem with rfl | hmem
    · exact ⟨t, .refl, hs⟩
    · obtain ⟨t₁, hfirst, hs₁⟩ := hstep s a t hs
      obtain ⟨t', hrest, hs'⟩ := simulates hstep hs₁ s' hmem
      exact ⟨t', hfirst.trans hrest, hs'⟩

theorem Meets.of_split {a : α} {back : List α} :
    ∀ (front : List α) {s : σ}, Meets step C s (front ++ a :: back) → C (exec step s front) a
  | [], _, hmeets => hmeets.1
  | _ :: front, _, hmeets => Meets.of_split front hmeets.2

theorem Meets.left {back : List α} :
    ∀ {front : List α} {s : σ}, Meets step C s (front ++ back) → Meets step C s front
  | [], _, _ => trivial
  | _ :: _, _, hmeets => ⟨hmeets.1, Meets.left hmeets.2⟩

theorem Meets.imp (h : ∀ s a, C s a → D s a) : ∀ {s : σ} {actions : List α},
    Meets step C s actions → Meets step D s actions
  | _, [], _ => trivial
  | _, _ :: _, hmeets => ⟨h _ _ hmeets.1, Meets.imp h hmeets.2⟩

theorem Meets.and : ∀ {s : σ} {actions : List α}, Meets step C s actions →
    Meets step D s actions → Meets step (fun s a => C s a ∧ D s a) s actions
  | _, [], _, _ => trivial
  | _, _ :: _, hC, hD => ⟨⟨hC.1, hD.1⟩, Meets.and hC.2 hD.2⟩

theorem Meets.and_forall {Q : α → Prop} :
    ∀ {s : σ} {actions : List α}, Meets step C s actions → (∀ a ∈ actions, Q a) →
      Meets step (fun s a => C s a ∧ Q a) s actions
  | _, [], _, _ => trivial
  | _, a :: _, hmeets, hall =>
    ⟨⟨hmeets.1, hall a List.mem_cons_self⟩,
      Meets.and_forall hmeets.2 fun b hb => hall b (List.mem_cons_of_mem _ hb)⟩

end Basic

end Runs
