import OpenAccounting.System.JobSafety

/-!
# Jobs that are lost

A claim commits `running` at once, for the whole batch.  No operation of the queue ever takes a job
out of `running` but the finalising update of its holder.  So a job whose holder is killed, or whose
failure could not be recorded, stays `running` for good and nobody executes it again.  While this
happens only to jobs that are settled (`Spares`), no job is lost.
-/

namespace OpenAccounting.Jobs

open Relational
open Retry (Life Settled)

/-- The job is left to somebody: to the next claim, or to an instance that is alive. -/
def Waits (s : State) (r : Job) : Prop :=
  r.status = .pending ∨
    r.status = .running ∧ ∃ n, ∃ x ∈ (s.place n).jobs, x.2.number = r.number

/-- No job is lost. -/
structure Kept (s : State) : Prop where
  rows : ∀ r ∈ s.shared.jobs, .succeeded ∉ s.shared.events r.number →
    r.attempts < r.maxAttempts → Waits s r
  /-- A job without a row has completed or used up its attempts. -/
  purged : ∀ (i : ℕ) (r : Job), s.shared.inserted[i]? = some r →
    (∀ r' ∈ s.shared.jobs, r'.number ≠ i) →
    .succeeded ∈ s.shared.events i ∨ r.maxAttempts ≤ Retry.failures (s.shared.events i)

/-- What an instance drops has completed, or has used up its attempts. -/
def Spares (s : State) (m : ℕ × Action) : Prop :=
  ∀ job ∈ (s.place m.1).dropped m.2,
    .succeeded ∈ s.shared.events job.number ∨ job.maxAttempts ≤ job.attempts

variable {s : State} {i : ℕ} {L : Life ℕ} {n : ℕ}

theorem Lives.of_mem (h : Lives s i L) {x : Retry.Stage × ClaimedJob} (hx : x ∈ (s.place n).jobs)
    (hi : x.2.number = i) : x.2.attempts = L.attempts ∧ x.2.maxAttempts = L.limit := by
  have hmem : x ∈ (s.place n).about i := List.mem_filter.mpr ⟨hx, decide_eq_true hi⟩
  obtain ⟨front, back, habout⟩ := List.append_of_mem hmem
  have hperm : ((s.place n).about i).Perm (x :: (front ++ back)) := by
    rw [habout]
    exact List.perm_middle
  obtain ⟨r, hrow, -, hjob, -⟩ := h.of_perm hperm
  have hshows := h.row
  rw [hrow] at hshows
  rw [hjob]
  exact ⟨hshows.1, hshows.2.1⟩

theorem mem_of_dropped {place : Place} {a : Action} {job : ClaimedJob}
    (h : job ∈ place.dropped a) : ∃ x ∈ place.jobs, x.2 = job := by
  cases a with
  | crash =>
    have hjob : job ∈ place.jobs.map Prod.snd := by cases place <;> exact h
    exact List.mem_map.mp hjob
  | finalise lost =>
    cases lost with
    | true =>
      cases place with
      | returned job' result queue =>
        rw [List.mem_singleton.mp h]
        exact ⟨_, List.mem_cons_self, rfl⟩
      | idle | batch | executing => cases h
    | false => cases place <;> cases h
  | tick | enqueue | purge | claim | start | handle => cases place <;> cases h

theorem settled_of_spares (h : Lives s i L) {m : ℕ × Action} (hC : Spares s m) :
    ∀ job ∈ (s.place m.1).dropped m.2, job.number = i → Settled L := by
  intro job hjob hi
  obtain ⟨x, hx, rfl⟩ := mem_of_dropped hjob
  obtain ⟨hattempts, hlimit⟩ := h.of_mem hx hi
  refine (hC x.2 hjob).imp (fun hsucceeded => ?_) fun hspent => ?_
  · rw [hi, h.events] at hsucceeded
    exact hsucceeded
  · rw [hattempts, hlimit] at hspent
    exact hspent

/-- Every job that was abandoned is settled. -/
structure Tidy (s : State) : Prop where
  sound : Sound s
  lives : ∀ i, ∃ L, Lives s i L ∧ Retry.Ok delay L ∧ (L.phase = .abandoned → Settled L)

theorem step_tidy {m : ℕ × Action} (hs : Tidy s) (hC : Spares s m) : Tidy (step s m) where
  sound := step_sound hs.sound m
  lives i := by
    obtain ⟨L, h, hok, hsettled⟩ := hs.lives i
    obtain ⟨L', hsteps, h'⟩ := simulates Settled hs.sound h hok (settled_of_spares h hC)
    exact ⟨L', h', hsteps.ok delay_nonneg hok, hsteps.settled hsettled⟩

/-- In a tidy state no job is lost. -/
theorem Tidy.kept (hs : Tidy s) : Kept s := by
  constructor
  · intro r hr hsucceeded hattempts
    obtain ⟨L, h, hok, hsettled⟩ := hs.lives r.number
    have hrow := rowOf_eq_some hs.sound.keyed.numbers hr
    have hshows := h.row
    rw [hrow] at hshows
    obtain ⟨hrecorded, hmax, hphase⟩ := hshows
    have hopen : ¬ Settled L := by
      rintro (hsucceeded' | hspent)
      · exact hsucceeded (h.events ▸ hsucceeded')
      · omega
    have hfits := hok.fits
    cases hcase : L.phase with
    | unborn =>
      rw [hcase] at hphase
      exact hphase.elim
    | waiting ready =>
      rw [hcase] at hphase
      exact Or.inl hphase.1
    | held n stage =>
      rw [hcase] at hphase
      refine Or.inr ⟨hphase, n, (stage, r.claimed), ?_, rfl⟩
      have habout := h.places n
      rw [hrow, hcase, Retry.Phase.stageOf_held] at habout
      have hmem : (stage, r.claimed) ∈ (s.place n).about r.number :=
        habout ▸ List.mem_singleton_self _
      exact (List.mem_filter.mp hmem).1
    | abandoned => exact absurd (hsettled hcase) hopen
    | finished =>
      rw [hcase] at hfits
      exact absurd (hfits.imp_right And.left) hopen
  · intro i r hr hnone
    obtain ⟨L, h, hok, -⟩ := hs.lives i
    have hrow : rowOf s.shared.jobs i = none :=
      List.find?_eq_none.mpr fun r' hr' => by simpa using hnone r' hr'
    have hfits := hok.fits
    have hshows := h.row
    rw [hrow] at hshows
    rcases hshows with hphase | hphase
    · obtain ⟨hborn, -⟩ := List.getElem?_eq_some_iff.mp hr
      exact absurd (h.unborn.mp hphase) (not_le.mpr hborn)
    · rw [hphase] at hfits
      rw [h.events, h.limit r hr]
      refine hfits.imp_right fun ⟨hspent, hfailures⟩ => ?_
      rwa [← hfailures]

theorem Fresh.tidy (h : Fresh s) : Tidy s := by
  refine ⟨h.sound, fun i => ?_⟩
  obtain ⟨L, hlives, hok⟩ := h.sound.lives i
  refine ⟨L, hlives, hok, fun hphase => ?_⟩
  -- An abandoned job would be running.
  have hshows := hlives.row
  cases hrow : rowOf s.shared.jobs i with
  | none =>
    rw [hrow, Shows, hphase] at hshows
    rcases hshows with hshows | hshows <;> cases hshows
  | some r =>
    rw [hrow, Shows, hphase] at hshows
    have hrunning : r.status = .running := hshows.2.2
    obtain ⟨k, hk⟩ := List.mem_iff_getElem?.mp (mem_of_find?_key hrow).1
    rw [(h.fresh k r hk).pending] at hrunning
    cases hrunning

/-- While no instance drops a job that has neither completed nor used up its attempts, no job is
lost. -/
theorem kept_of_spares {actions : List (ℕ × Action)} (h : Fresh s)
    (hspares : Runs.Meets step Spares s actions) :
    ∀ s' ∈ Runs.visited step s actions, Kept s' := fun s' hs' =>
  (Runs.invariant_of_meets (fun _ _ hs hC => step_tidy hs hC) h.tidy hspares s' hs').kept

namespace Sample

/-- The instance is killed between the claim and the execution. -/
def killed : List (ℕ × Action) := [(0, .claim 50 []), (0, .crash)]

theorem killed_idle (n : ℕ) : (Runs.exec step start killed).place n = .idle := by
  show Function.update (Function.update (fun _ => Place.idle) 0 _) 0 .idle n = .idle
  by_cases hn : n = 0
  · rw [hn, Function.update_self]
  · rw [Function.update_of_ne hn, Function.update_of_ne hn]

end Sample

/-- The webhook is `running`, and nobody has it. -/
theorem killed_not_kept :
    Fresh Sample.start ∧ ¬ Kept (Runs.exec step Sample.start Sample.killed) := by
  refine ⟨Sample.start_fresh, fun h => ?_⟩
  have hwaits := h.rows (Sample.delivery.mark 0) (by decide) (by decide)
    (by decide)
  rcases hwaits with hpending | ⟨-, n, x, hx, -⟩
  · cases hpending
  · rw [Sample.killed_idle] at hx
    cases hx

theorem kept_of_spares_retried : Kept (Runs.exec step Sample.start Sample.retried) := by
  have hspares : Runs.Meets step Spares Sample.start Sample.retried := by
    refine ⟨?_, ?_, ?_, ?_, ?_, ?_, ?_, ?_, ?_, ?_, ?_, trivial⟩ <;> intro job hjob <;> cases hjob
  exact kept_of_spares Sample.start_fresh hspares _ (Runs.exec_mem_visited _ _)

end OpenAccounting.Jobs
