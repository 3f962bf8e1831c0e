import OpenAccounting.System.JobQueue

/-!
# The queue is safe

What the life of a job says about the queue.  Whatever the instances do, no two of them execute one
job at a time.  A job is executed as often as it may be, never once it is over, and not before its
backoff is over.
-/

namespace OpenAccounting.Jobs

open Relational
open Retry (Event Life)

variable {s : State} {i : ℕ} {L : Life ℕ} {n : ℕ}

/-- No job is executed by two instances at a time. -/
def Exclusive (s : State) : Prop :=
  ∀ n m, ∀ j ∈ (s.place n).current, ∀ k ∈ (s.place m).current, j.number = k.number → n = m

/-- Every job is executed `max_attempts` times at most, or once. -/
def Bounded (s : State) : Prop :=
  ∀ (i : ℕ) (r : Job), s.shared.inserted[i]? = some r →
    (Retry.starts (s.shared.events i) : ℤ) ≤ max 1 r.maxAttempts

/-- After its `k`-th failed execution a job is not started before its backoff is over. -/
def BacksOff (s : State) : Prop :=
  ∀ (i : ℕ) (front back : List Event) (t : ℤ), s.shared.events i = front ++ .failed t :: back →
    ∀ k, k = Retry.failures front + 1 → ∀ t', .started t' ∈ back →
      t + 1000000 * backoffSeconds.getD (min k 5 - 1) 0 ≤ t'

/-- From one state to a later one `attempts` does not decrease, and a job that is over is not
executed again. -/
structure Later (s s' : State) : Prop where
  attempts : ∀ r ∈ s.shared.jobs, ∀ r' ∈ s'.shared.jobs, r.number = r'.number →
    r.attempts ≤ r'.attempts
  ended : ∀ r ∈ s.shared.jobs, r.status.Over → s'.shared.events r.number = s.shared.events r.number ∧
    ∀ n, ∀ j ∈ (s'.place n).current, j.number ≠ r.number

/-- The safety of the queue along a run. -/
structure Safe (s : State) (actions : List (ℕ × Action)) : Prop where
  exclusive : ∀ s' ∈ Runs.visited step s actions, Exclusive s'
  bounded : ∀ s' ∈ Runs.visited step s actions, Bounded s'
  later : ∀ front back, actions = front ++ back →
    ∀ s' ∈ Runs.visited step (Runs.exec step s front) back, Later (Runs.exec step s front) s'
  backsOff : ∀ s' ∈ Runs.visited step s actions, BacksOff s'

theorem Lives.of_current (h : Lives s i L) {job : ClaimedJob} (hjob : job ∈ (s.place n).current)
    (hi : job.number = i) : ∃ stage, L.phase = .held n stage := by
  cases hplace : s.place n with
  | idle | batch =>
    rw [hplace] at hjob
    cases hjob
  | executing job' queue =>
    rw [hplace] at hjob
    obtain rfl := Option.some.inj hjob
    have habout := about_of_executing hplace i
    rw [concerning_of_eq hi] at habout
    obtain ⟨-, -, hphase, -⟩ := h.of_perm (.of_eq habout)
    exact ⟨_, hphase⟩
  | returned job' result queue =>
    rw [hplace] at hjob
    obtain rfl := Option.some.inj hjob
    have habout := about_of_returned hplace i
    rw [concerning_of_eq hi] at habout
    obtain ⟨-, -, hphase, -⟩ := h.of_perm (.of_eq habout)
    exact ⟨_, hphase⟩

theorem Sound.exclusive (hs : Sound s) : Exclusive s := by
  intro n m j hj k hk heq
  obtain ⟨L, hlives, -⟩ := hs.lives j.number
  obtain ⟨stage, hn⟩ := hlives.of_current hj rfl
  obtain ⟨stage', hm⟩ := hlives.of_current hk heq.symm
  rw [hn] at hm
  exact (Retry.Phase.held.inj hm).1

theorem Sound.bounded (hs : Sound s) : Bounded s := by
  intro i r hr
  obtain ⟨L, hlives, hok⟩ := hs.lives i
  rw [hlives.events, hlives.limit r hr]
  exact hok.bounded

theorem Sound.backsOff (hs : Sound s) : BacksOff s := by
  rintro i front back t hevents k rfl t' ht'
  obtain ⟨L, hlives, hok⟩ := hs.lives i
  have hspaced := hok.spaced front t back (hlives.events ▸ hevents) t' ht'
  rw [delay, Nat.cast_succ, delaySeconds_succ] at hspaced
  exact hspaced

theorem Sound.later (hs : Sound s) {actions : List (ℕ × Action)} {s' : State}
    (hs' : s' ∈ Runs.visited step s actions) : Later s s' := by
  have hkeyed' := (run_sound hs s' hs').keyed
  constructor
  · intro r hr r' hr' hnumber
    obtain ⟨L, hlives, hok⟩ := hs.lives r.number
    obtain ⟨L', hsteps, hlives'⟩ := run_simulates hs hlives hok s' hs'
    have hrow := hlives.row
    have hrow' := hlives'.row
    rw [rowOf_eq_some hs.keyed.numbers hr] at hrow
    rw [hnumber, rowOf_eq_some hkeyed'.numbers hr'] at hrow'
    rw [hrow.1, hrow'.1]
    exact_mod_cast hsteps.attempts_le
  · intro r hr hover
    obtain ⟨L, hlives, hok⟩ := hs.lives r.number
    obtain ⟨L', hsteps, hlives'⟩ := run_simulates hs hlives hok s' hs'
    have hrow := hlives.row
    rw [rowOf_eq_some hs.keyed.numbers hr] at hrow
    obtain ⟨hphase, hevents⟩ := hsteps.finished (hrow.2.2.finished hover)
    refine ⟨by rw [hlives'.events, hlives.events, hevents], fun n j hj hnumber => ?_⟩
    obtain ⟨stage, hheld⟩ := hlives'.of_current hj hnumber
    rw [hphase] at hheld
    cases hheld

/-- In every interleaving no job is executed twice at a time, more often than allowed, after it is
over, or before its backoff is over. -/
theorem safe_of_fresh (h : Fresh s) (actions : List (ℕ × Action)) : Safe s actions where
  exclusive s' hs' := (run_sound h.sound s' hs').exclusive
  bounded s' hs' := (run_sound h.sound s' hs').bounded
  later front _ _ _ hs' :=
    (run_sound h.sound _ (Runs.exec_mem_visited s front)).later hs'
  backsOff s' hs' := (run_sound h.sound s' hs').backsOff

namespace Sample

/-- One instance claims the webhook before the other one and fails.  The other one has success when
the backoff is over. -/
def retried : List (ℕ × Action) :=
  [(0, .claim 50 []), (1, .claim 50 []), (0, .start 0), (0, .handle (.error "timeout")),
    (0, .finalise false), (1, .claim 50 []), (1, .tick 30000000), (1, .claim 50 []), (1, .start 0),
    (1, .handle (.ok ())), (1, .finalise false)]

example : (Runs.exec step start retried).shared.events 0 =
    [.started 0, .failed 0, .started 30000000, .succeeded] := by
  decide

end Sample

theorem safe_of_fresh_retried : Safe Sample.start Sample.retried :=
  safe_of_fresh Sample.start_fresh Sample.retried

end OpenAccounting.Jobs
