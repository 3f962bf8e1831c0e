import Mathlib.Logic.Relation
import Mathlib.Data.List.Induction
import Mathlib.Algebra.Order.Ring.Int

/-!
# Exclusive claims with retries

The life of one task of a work queue.  A task waits until it is ready.  Then a worker claims it,
executes it and records the result.  After a success, or a failure that makes `limit` of them, the
task is over.  After any other failure, the `k`-th, it waits for `delay k`.  A worker may also
abandon a task that it holds, if `mayDrop` allows it.

The phase of a task names its holder, so that no two workers hold it is part of the type.  What
remains to be proved is kept by each step: how often the task is executed (`Ok.bounded`), and that
the executions are far enough apart (`Ok.spaced`).
-/

namespace Retry

/-- What is seen of a task. -/
inductive Event where
  | started (t : ℤ)
  | succeeded
  /-- The end of an execution whose failure was recorded, or should have been. -/
  | failed (t : ℤ)
deriving DecidableEq

/-- How far the holder of a task is. -/
inductive Stage where
  | queued
  | executing
  | returned (ok : Bool)
deriving DecidableEq

/-- Where a task is. -/
inductive Phase (ι : Type*) where
  | unborn
  | waiting (ready : ℤ)
  | held (i : ι) (stage : Stage)
  | abandoned
  | finished

/-- How far a worker is with the task that it holds. -/
def Phase.stageOf {ι : Type*} [DecidableEq ι] (j : ι) : Phase ι → Option Stage
  | .held i stage => if i = j then some stage else none
  | _ => none

theorem Phase.stageOf_eq_some {ι : Type*} [DecidableEq ι] {j : ι} {phase : Phase ι} {stage : Stage}
    (h : phase.stageOf j = some stage) : phase = .held j stage := by
  cases phase with
  | held i stage' =>
    simp only [Phase.stageOf] at h
    split at h
    · next heq => rw [heq, Option.some.inj h]
    · cases h
  | unborn | waiting | abandoned | finished => cases h

@[simp] theorem Phase.stageOf_held {ι : Type*} [DecidableEq ι] (i : ι) (stage : Stage) :
    (Phase.held i stage).stageOf i = some stage := if_pos rfl

theorem Phase.stageOf_held_of_ne {ι : Type*} [DecidableEq ι] {i j : ι} (h : j ≠ i) (stage : Stage) :
    (Phase.held i stage).stageOf j = none := if_neg h.symm

/-- A task. -/
structure Life (ι : Type*) where
  now : ℤ
  phase : Phase ι
  /-- The failures on record. -/
  attempts : ℕ
  limit : ℤ
  events : List Event

/-- How often the task was executed. -/
def starts (events : List Event) : ℕ :=
  events.countP fun e => match e with
    | .started _ => true
    | _ => false

/-- How often an execution failed. -/
def failures (events : List Event) : ℕ :=
  events.countP fun e => match e with
    | .failed _ => true
    | _ => false

variable {ι : Type*} (delay : ℕ → ℤ) (mayDrop : Life ι → Prop)

/-- The delays of all failures are over at `T`. -/
def Elapsed (events : List Event) (T : ℤ) : Prop :=
  ∀ front t back, events = front ++ .failed t :: back → t + delay (failures front + 1) ≤ T

/-- After the `k`-th failure no execution starts before `delay k` is over. -/
def Spaced (events : List Event) : Prop :=
  ∀ front t back, events = front ++ .failed t :: back →
    ∀ t', .started t' ∈ back → t + delay (failures front + 1) ≤ t'

/-! ## The steps of a task -/

inductive Step : Life ι → Life ι → Prop where
  | tick (L : Life ι) (dt : ℕ) : Step L { L with now := L.now + dt }
  | add (L : Life ι) (ready limit : ℤ) (h : L.phase = .unborn) :
      Step L { L with phase := .waiting ready, limit := limit }
  | claim (L : Life ι) (i : ι) {ready : ℤ} (h : L.phase = .waiting ready) (hready : ready ≤ L.now) :
      Step L { L with phase := .held i .queued }
  | start (L : Life ι) {i : ι} (h : L.phase = .held i .queued) :
      Step L { L with phase := .held i .executing, events := L.events ++ [.started L.now] }
  | succeed (L : Life ι) {i : ι} (h : L.phase = .held i .executing) :
      Step L { L with phase := .held i (.returned true), events := L.events ++ [.succeeded] }
  | fail (L : Life ι) {i : ι} (h : L.phase = .held i .executing) :
      Step L { L with phase := .held i (.returned false) }
  | complete (L : Life ι) {i : ι} (h : L.phase = .held i (.returned true)) :
      Step L { L with phase := .finished }
  | bury (L : Life ι) {i : ι} (h : L.phase = .held i (.returned false))
      (hlimit : L.limit ≤ L.attempts + 1) :
      Step L { L with
        phase := .finished
        attempts := L.attempts + 1
        events := L.events ++ [.failed L.now] }
  | retry (L : Life ι) {i : ι} (h : L.phase = .held i (.returned false))
      (hlimit : (L.attempts : ℤ) + 1 < L.limit) :
      Step L { L with
        phase := .waiting (L.now + delay (L.attempts + 1))
        attempts := L.attempts + 1
        events := L.events ++ [.failed L.now] }
  /-- The record of a failure is lost. -/
  | lose (L : Life ι) {i : ι} (h : L.phase = .held i (.returned false)) (hdrop : mayDrop L) :
      Step L { L with phase := .abandoned, events := L.events ++ [.failed L.now] }
  | abandon (L : Life ι) {i : ι} {stage : Stage} (h : L.phase = .held i stage) (hdrop : mayDrop L) :
      Step L { L with phase := .abandoned }

/-- Any number of steps. -/
abbrev Steps : Life ι → Life ι → Prop := Relation.ReflTransGen (Step delay mayDrop)

/-! ## What is kept -/

/-- As many executions as failures on record, and another one is allowed. -/
structure Recorded (attempts : ℕ) (limit : ℤ) (events : List Event) (running : ℕ) : Prop where
  starts : starts events = attempts + running
  failures : failures events = attempts
  allowed : attempts = 0 ∨ (attempts : ℤ) < limit

/-- What each phase knows of the past. -/
def Fits (L : Life ι) : Phase ι → Prop
  | .unborn => L.attempts = 0 ∧ L.events = []
  | .waiting ready => Recorded L.attempts L.limit L.events 0 ∧ Elapsed delay L.events ready
  | .held _ .queued => Recorded L.attempts L.limit L.events 0 ∧ Elapsed delay L.events L.now
  | .held _ .executing | .held _ (.returned false) =>
    Recorded L.attempts L.limit L.events 1 ∧ Elapsed delay L.events L.now
  | .held _ (.returned true) => .succeeded ∈ L.events
  | .abandoned => True
  | .finished => .succeeded ∈ L.events ∨
      L.limit ≤ L.attempts ∧ L.attempts = failures L.events

/-- The invariant of a task. -/
structure Ok (L : Life ι) : Prop where
  bounded : (starts L.events : ℤ) ≤ max 1 L.limit
  spaced : Spaced delay L.events
  fits : Fits delay L L.phase

/-- Nothing is left to be done. -/
def Settled (L : Life ι) : Prop := .succeeded ∈ L.events ∨ L.limit ≤ L.attempts

variable {delay} {mayDrop}

@[simp] theorem starts_append (xs ys : List Event) :
    starts (xs ++ ys) = starts xs + starts ys :=
  List.countP_append

@[simp] theorem failures_append (xs ys : List Event) :
    failures (xs ++ ys) = failures xs + failures ys :=
  List.countP_append

theorem concat_eq_append_cons {α : Type*} {xs front back : List α} {x y : α}
    (h : xs ++ [x] = front ++ y :: back) :
    (xs = front ∧ x = y ∧ back = []) ∨ ∃ back', back = back' ++ [x] ∧ xs = front ++ y :: back' := by
  induction back using List.reverseRecOn with
  | nil =>
    obtain ⟨rfl, hlast⟩ := List.append_inj' h rfl
    exact Or.inl ⟨rfl, List.singleton_inj.mp hlast, rfl⟩
  | append_singleton back' z _ =>
    rw [← List.cons_append, ← List.append_assoc] at h
    obtain ⟨rfl, hlast⟩ := List.append_inj' h rfl
    exact Or.inr ⟨back', by rw [List.singleton_inj.mp hlast], rfl⟩

variable {events : List Event} {L L' : Life ι}

theorem Elapsed.mono {T T' : ℤ} (h : Elapsed delay events T) (hle : T ≤ T') :
    Elapsed delay events T' :=
  fun front t back heq => (h front t back heq).trans hle

theorem Elapsed.nil (T : ℤ) : Elapsed delay [] T := fun front t back heq =>
  absurd heq (by simp)

theorem Elapsed.concat {T : ℤ} (h : Elapsed delay events T) {e : Event}
    (he : ∀ t, e = .failed t → t + delay (failures events + 1) ≤ T) :
    Elapsed delay (events ++ [e]) T := by
  intro front t back heq
  rcases concat_eq_append_cons heq with ⟨rfl, hlast, -⟩ | ⟨back', -, hevents⟩
  · exact he t hlast
  · exact h front t back' hevents

theorem Spaced.nil : Spaced delay [] := fun front t back heq => absurd heq (by simp)

theorem Spaced.concat (h : Spaced delay events) {e : Event}
    (he : ∀ t, e = .started t → Elapsed delay events t) : Spaced delay (events ++ [e]) := by
  intro front t back heq t' hstarted
  rcases concat_eq_append_cons heq with ⟨-, -, rfl⟩ | ⟨back', rfl, hevents⟩
  · cases hstarted
  · rcases List.mem_append.mp hstarted with hback | hlast
    · exact h front t back' hevents t' hback
    · exact he t' (List.mem_singleton.mp hlast).symm front t back' hevents

theorem Fits.tick (dt : ℕ) :
    ∀ {phase : Phase ι}, Fits delay L phase → Fits delay { L with now := L.now + dt } phase
  | .unborn, h => h
  | .waiting _, h => h
  | .held _ .queued, ⟨hr, he⟩ => ⟨hr, he.mono (by show L.now ≤ L.now + dt; omega)⟩
  | .held _ .executing, ⟨hr, he⟩ => ⟨hr, he.mono (by show L.now ≤ L.now + dt; omega)⟩
  | .held _ (.returned false), ⟨hr, he⟩ => ⟨hr, he.mono (by show L.now ≤ L.now + dt; omega)⟩
  | .held _ (.returned true), h => h
  | .abandoned, h => h
  | .finished, h => h

theorem Recorded.failed {attempts : ℕ} {limit : ℤ} (now : ℤ)
    (h : Recorded attempts limit events 1) (hlimit : (attempts : ℤ) + 1 < limit) :
    Recorded (attempts + 1) limit (events ++ [.failed now]) 0 where
  starts := by
    rw [starts_append, h.starts]
    rfl
  failures := by
    rw [failures_append, h.failures]
    rfl
  allowed := Or.inr (by exact_mod_cast hlimit)

theorem starts_concat {e : Event} (he : ∀ t, e ≠ .started t) :
    starts (events ++ [e]) = starts events := by
  rw [starts_append]
  cases e with
  | started t => exact absurd rfl (he t)
  | succeeded | failed => rfl

theorem Ok.concat (h : Ok delay L) {e : Event} (he : ∀ t, e ≠ .started t) :
    (starts (L.events ++ [e]) : ℤ) ≤ max 1 L.limit ∧ Spaced delay (L.events ++ [e]) :=
  ⟨by rw [starts_concat he]; exact h.bounded, h.spaced.concat fun t ht => absurd ht (he t)⟩

theorem ok_of_untouched (hattempts : L.attempts = 0) (hevents : L.events = [])
    (hphase : L.phase = .unborn ∨ ∃ ready, L.phase = .waiting ready) : Ok delay L := by
  refine ⟨?_, ?_, ?_⟩
  · rw [hevents]
    exact (Int.zero_le_ofNat 1).trans (le_max_left _ _)
  · rw [hevents]
    exact Spaced.nil
  · rcases hphase with hphase | ⟨ready, hphase⟩
    · rw [hphase]
      exact ⟨hattempts, hevents⟩
    · rw [hphase]
      refine ⟨⟨?_, ?_, Or.inl hattempts⟩, ?_⟩
      · rw [hevents, hattempts]
        rfl
      · rw [hevents, hattempts]
        rfl
      · rw [hevents]
        exact Elapsed.nil ready

theorem Step.ok (hdelay : ∀ k, 0 ≤ delay k) (h : Ok delay L) (hstep : Step delay mayDrop L L') :
    Ok delay L' := by
  have hfits := h.fits
  cases hstep with
  | tick dt => exact ⟨h.bounded, h.spaced, hfits.tick dt⟩
  | add ready limit hphase =>
    rw [hphase] at hfits
    exact ok_of_untouched hfits.1 hfits.2 (Or.inr ⟨ready, rfl⟩)
  | claim i hphase hready =>
    rw [hphase] at hfits
    exact ⟨h.bounded, h.spaced, hfits.1, hfits.2.mono hready⟩
  | start hphase =>
    rw [hphase] at hfits
    obtain ⟨⟨hs, hf, hallowed⟩, he⟩ := hfits
    have hstarts : starts (L.events ++ [.started L.now]) = L.attempts + 1 := by
      rw [starts_append, hs]
      rfl
    refine ⟨?_, h.spaced.concat fun t ht => ?_, ⟨hstarts, ?_, hallowed⟩, he.concat fun t ht => ?_⟩
    · show (starts (L.events ++ [.started L.now]) : ℤ) ≤ max 1 L.limit
      omega
    · cases ht
      exact he
    · show failures (L.events ++ [.started L.now]) = L.attempts
      rw [failures_append, hf]
      rfl
    · cases ht
  | succeed hphase =>
    obtain ⟨hbounded, hspaced⟩ := h.concat (e := .succeeded) fun t ht => by cases ht
    exact ⟨hbounded, hspaced, List.mem_append_right _ (List.mem_singleton_self _)⟩
  | fail hphase =>
    rw [hphase] at hfits
    exact ⟨h.bounded, h.spaced, hfits⟩
  | bury hphase hlimit =>
    rw [hphase] at hfits
    obtain ⟨hbounded, hspaced⟩ := h.concat (e := .failed L.now) fun t ht => by cases ht
    refine ⟨hbounded, hspaced, Or.inr ⟨by exact_mod_cast hlimit, ?_⟩⟩
    show L.attempts + 1 = failures (L.events ++ [.failed L.now])
    rw [failures_append, hfits.1.failures]
    rfl
  | retry hphase hlimit =>
    rw [hphase] at hfits
    obtain ⟨hr, he⟩ := hfits
    obtain ⟨hbounded, hspaced⟩ := h.concat (e := .failed L.now) fun t ht => by cases ht
    refine ⟨hbounded, hspaced, hr.failed L.now hlimit, ?_⟩
    show Elapsed delay (L.events ++ [.failed L.now]) (L.now + delay (L.attempts + 1))
    refine (he.mono (le_add_of_nonneg_right (hdelay _))).concat fun t ht => ?_
    cases ht
    rw [hr.failures]
  | lose hphase =>
    obtain ⟨hbounded, hspaced⟩ := h.concat (e := .failed L.now) fun t ht => by cases ht
    exact ⟨hbounded, hspaced, trivial⟩
  | complete hphase =>
    rw [hphase] at hfits
    exact ⟨h.bounded, h.spaced, Or.inl hfits⟩
  | abandon hphase => exact ⟨h.bounded, h.spaced, trivial⟩

theorem Step.attempts_le (hstep : Step delay mayDrop L L') : L.attempts ≤ L'.attempts := by
  cases hstep with
  | bury | retry => exact Nat.le_succ _
  | tick | add | claim | start | succeed | fail | complete | lose | abandon => exact le_rfl

theorem Step.finished (hstep : Step delay mayDrop L L') (h : L.phase = .finished) :
    L'.phase = .finished ∧ L'.events = L.events := by
  cases hstep with
  | tick dt => exact ⟨h, rfl⟩
  | add _ _ hphase | claim _ hphase | start hphase | succeed hphase | fail hphase | complete hphase
  | bury hphase | retry hphase | lose hphase | abandon hphase =>
    rw [h] at hphase
    cases hphase

/-- While only settled tasks are dropped, an abandoned task is settled. -/
theorem Step.settled (hstep : Step delay Settled L L') (h : L.phase = .abandoned → Settled L)
    (hphase : L'.phase = .abandoned) : Settled L' := by
  cases hstep with
  | tick dt => exact h hphase
  | lose _ hdrop => exact hdrop.imp_left (List.mem_append_left _)
  | abandon _ hdrop => exact hdrop
  | add | claim | start | succeed | fail | complete | bury | retry => cases hphase

theorem Steps.ok (hdelay : ∀ k, 0 ≤ delay k) (h : Ok delay L) (hsteps : Steps delay mayDrop L L') :
    Ok delay L' := by
  induction hsteps with
  | refl => exact h
  | tail _ hstep ih => exact hstep.ok hdelay ih

theorem Steps.settled (hsteps : Steps delay Settled L L') (h : L.phase = .abandoned → Settled L) :
    L'.phase = .abandoned → Settled L' := by
  induction hsteps with
  | refl => exact h
  | tail _ hstep ih => exact hstep.settled ih

theorem Steps.attempts_le (hsteps : Steps delay mayDrop L L') : L.attempts ≤ L'.attempts := by
  induction hsteps with
  | refl => exact le_rfl
  | tail _ hstep ih => exact ih.trans hstep.attempts_le

theorem Steps.finished (hsteps : Steps delay mayDrop L L') (h : L.phase = .finished) :
    L'.phase = .finished ∧ L'.events = L.events := by
  induction hsteps with
  | refl => exact ⟨h, rfl⟩
  | tail _ hstep ih =>
    obtain ⟨hphase, hevents⟩ := hstep.finished ih.1
    exact ⟨hphase, hevents.trans ih.2⟩

end Retry
