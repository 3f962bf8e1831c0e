import OpenAccounting.Jobs.Queue
import OpenAccounting.Lib.Retry
import OpenAccounting.Lib.Threads

/-!
# Instances on one job queue

Any number of instances work on the queue, each with calls of `run_due` one after the other.  A
call claims a batch and then executes the jobs of the batch, in the order in which `RETURNING`
happened to list them.  An execution is the run of the handler, which may take any time and end in
any way, and the finalising update, which may fail unnoticed.  An instance may be killed at any
time, and it loses what it has claimed.

Each job by itself goes through the life of `Retry.Step` (`simulates`), whose phases name the
holder of a job.  That two instances never execute one job at a time, how often a job is executed
and when, is read off there.
-/

namespace OpenAccounting.Jobs

open Relational
open Retry (Event Life Phase Stage)

/-- The table, the clock of the database, and what has happened so far. -/
structure Shared where
  jobs : List Job
  now : ℤ
  /-- Every job as it was enqueued. -/
  inserted : List Job := []
  /-- The executions of each job, by its number. -/
  events : ℕ → List Event := fun _ => []

/-- Where an instance is. -/
inductive Place where
  | idle
  /-- With claimed jobs that it has not started. -/
  | batch (queue : List ClaimedJob)
  | executing (job : ClaimedJob) (queue : List ClaimedJob)
  /-- Before the finalising update. -/
  | returned (job : ClaimedJob) (result : Except String Unit) (queue : List ClaimedJob)

/-- One action.  Anybody may enqueue or purge, and the clock goes on. -/
inductive Action where
  | tick (micros : ℕ)
  | enqueue (id : Uuid) (kind payload : String) (runAt : Option ℤ) (createdBy : Option Uuid)
  | purge
  | claim (limit : ℕ) (locked : List Uuid)
  /-- The execution of the `k`-th job that is left. -/
  | start (k : ℕ)
  | handle (outcome : Except String Unit)
  | finalise (lost : Bool)
  | crash

/-- What is left of a call. -/
def Place.goOn : List ClaimedJob → Place
  | [] => .idle
  | queue => .batch queue

/-- An event of a job. -/
def Shared.log (sh : Shared) (number : ℕ) (e : Event) : Shared :=
  { sh with events := Function.update sh.events number (sh.events number ++ [e]) }

/-- The handler has returned. -/
def Shared.handled (sh : Shared) (number : ℕ) : Except String Unit → Shared
  | .ok () => sh.log number .succeeded
  | .error _ => sh

/-- `execute` is over. -/
def Shared.finalised (sh : Shared) (number : ℕ) : Except String Unit → Shared
  | .ok () => sh
  | .error _ => sh.log number (.failed sh.now)

/-- The steps of `run_due`, and what may happen meanwhile. -/
def act (_ : ℕ) (sh : Shared) : Place → Action → Shared × Place
  | place, .tick micros => ({ sh with now := sh.now + micros }, place)
  | place, .enqueue id kind payload runAt createdBy =>
    match enqueue sh.jobs id sh.now sh.inserted.length kind payload runAt createdBy with
    | .ok (row, jobs) => ({ sh with jobs, inserted := sh.inserted ++ [row] }, place)
    | .error _ => (sh, place)
  | place, .purge => ({ sh with jobs := (purgeOld sh.now sh.jobs).2 }, place)
  | .idle, .claim limit locked =>
    let (batch, jobs) := claimDue limit sh.now locked sh.jobs
    ({ sh with jobs }, .goOn batch)
  | .batch queue, .start k =>
    match queue[k]? with
    | some job => (sh.log job.number (.started sh.now), .executing job (queue.eraseIdx k))
    | none => (sh, .batch queue)
  | .executing job queue, .handle outcome =>
    let result := dispatch job.kind outcome
    (sh.handled job.number result, .returned job result queue)
  | .returned job result queue, .finalise lost =>
    let jobs := if lost then sh.jobs else finalise sh.now job result sh.jobs
    ({ sh with jobs }.finalised job.number result, .goOn queue)
  | _, .crash => (sh, .idle)
  | place, _ => (sh, place)

/-- Everything that is under way. -/
abbrev State := Threads.State ℕ Shared Place

/-- An instance takes its next action. -/
def step : State → ℕ × Action → State := Threads.step act

/-! ## What an instance holds -/

namespace Place

/-- The jobs of an instance, and how far each is. -/
def jobs : Place → List (Stage × ClaimedJob)
  | .idle => []
  | .batch queue => queue.map (Prod.mk .queued)
  | .executing job queue => (.executing, job) :: queue.map (Prod.mk .queued)
  | .returned job result queue =>
    (.returned result.isOk, job) :: queue.map (Prod.mk .queued)

/-- What an instance has to do with a job. -/
def about (i : ℕ) (place : Place) : List (Stage × ClaimedJob) :=
  place.jobs.filter fun x => x.2.number = i

/-- The job under execution, the finalising update included. -/
def current : Place → Option ClaimedJob
  | .executing job _ => some job
  | .returned job _ _ => some job
  | _ => none

/-- The jobs that an instance drops without a record, when it is killed or its finalising update is
lost. -/
def dropped : Place → Action → List ClaimedJob
  | place, .crash => place.jobs.map Prod.snd
  | .returned job _ _, .finalise true => [job]
  | _, _ => []

@[simp] theorem goOn_jobs (queue : List ClaimedJob) :
    (goOn queue).jobs = queue.map (Prod.mk .queued) := by
  cases queue <;> rfl

end Place

/-! ## The life of one job -/

/-- The delay after the `k`-th failure, in microseconds. -/
def delay (k : ℕ) : ℤ := 1000000 * delaySeconds k

/-- A row in a phase of its life. -/
def Job.Shows (r : Job) : Phase ℕ → Prop
  | .unborn => False
  | .waiting ready => r.status = .pending ∧ r.runAt = ready
  | .held _ _ | .abandoned => r.status = .running
  | .finished => r.status.Over

/-- The table shows the life. -/
def Shows (L : Life ℕ) : Option Job → Prop
  | none => L.phase = .unborn ∨ L.phase = .finished
  | some r => r.attempts = L.attempts ∧ r.maxAttempts = L.limit ∧ r.Shows L.phase

/-- The holder of a job has it once, as the row was when it was claimed. -/
def held (row : Option Job) (stage : Option Stage) : List (Stage × ClaimedJob) :=
  match row, stage with
  | some r, some stage => [(stage, r.claimed)]
  | _, _ => []

/-- The job with the number `i` lives the life `L`. -/
structure Lives (s : State) (i : ℕ) (L : Life ℕ) : Prop where
  now : s.shared.now = L.now
  events : s.shared.events i = L.events
  limit : ∀ r ∈ s.shared.inserted[i]?, r.maxAttempts = L.limit
  unborn : L.phase = .unborn ↔ s.shared.inserted.length ≤ i
  row : Shows L (rowOf s.shared.jobs i)
  places : ∀ n, (s.place n).about i = held (rowOf s.shared.jobs i) (L.phase.stageOf n)

/-- What is known of the table as a whole. -/
structure Keyed (sh : Shared) : Prop where
  ids : (sh.jobs.map Job.id).Nodup
  numbers : (sh.jobs.map Job.number).Nodup
  inserted : ∀ r ∈ sh.jobs, r.number < sh.inserted.length

variable {s : State} {i : ℕ} {L L' : Life ℕ} {n : ℕ} {mayDrop : Life ℕ → Prop}

theorem Lives.of_perm (h : Lives s i L) {x : Stage × ClaimedJob} {rest : List (Stage × ClaimedJob)}
    (hx : ((s.place n).about i).Perm (x :: rest)) :
    ∃ r, rowOf s.shared.jobs i = some r ∧ L.phase = .held n x.1 ∧ x.2 = r.claimed ∧ rest = [] := by
  rw [h.places n] at hx
  cases hrow : rowOf s.shared.jobs i with
  | none =>
    rw [hrow] at hx
    exact absurd hx.symm.eq_nil (List.cons_ne_nil _ _)
  | some r =>
    cases hstage : L.phase.stageOf n with
    | none =>
      rw [hrow, hstage] at hx
      exact absurd hx.symm.eq_nil (List.cons_ne_nil _ _)
    | some stage =>
      rw [hrow, hstage] at hx
      obtain ⟨rfl, rfl⟩ := List.cons.inj (List.perm_singleton.mp hx.symm)
      exact ⟨r, rfl, Phase.stageOf_eq_some hstage, rfl, rfl⟩

theorem Lives.about_eq (h : Lives s i L) {l : List (Stage × ClaimedJob)}
    (hl : ((s.place n).about i).Perm l) : l = (s.place n).about i := by
  cases l with
  | nil => exact hl.eq_nil.symm
  | cons x rest =>
    obtain ⟨-, -, -, -, rfl⟩ := h.of_perm hl
    exact (List.perm_singleton.mp hl).symm

theorem about_goOn (i : ℕ) (queue : List ClaimedJob) :
    (Place.goOn queue).about i = (queue.filter fun j => j.number = i).map (Prod.mk .queued) := by
  rw [Place.about, Place.goOn_jobs, List.filter_map]
  rfl

variable {place : Place} {sh : Shared} {job : ClaimedJob} {queue : List ClaimedJob}
  {result : Except String Unit}

theorem Lives.frame (h : Lives s i L) (hnow : sh.now = s.shared.now)
    (hevents : sh.events i = s.shared.events i) (hinserted : sh.inserted = s.shared.inserted)
    (hrow : rowOf sh.jobs i = rowOf s.shared.jobs i)
    (hplace : place.about i = (s.place n).about i) :
    Lives ⟨sh, Function.update s.place n place⟩ i L where
  now := hnow.trans h.now
  events := hevents.trans h.events
  limit := by
    rw [hinserted]
    exact h.limit
  unborn := by
    rw [hinserted]
    exact h.unborn
  row := by
    rw [hrow]
    exact h.row
  places := by
    rw [hrow]
    exact (Function.forall_update_iff s.place fun m place =>
      place.about i = held (rowOf s.shared.jobs i) (L.phase.stageOf m)).mpr
      ⟨hplace.trans (h.places n), fun m _ => h.places m⟩

theorem Lives.advance (h : Lives s i L) {r : Job} (hborn : i < s.shared.inserted.length)
    (hnow : sh.now = L'.now) (hevents : sh.events i = L'.events)
    (hinserted : sh.inserted = s.shared.inserted) (hlimit : L'.limit = L.limit)
    (hrow : rowOf sh.jobs i = some r) (hshows : Shows L' (some r))
    (hplace : place.about i = held (some r) (L'.phase.stageOf n))
    (hothers : ∀ m ≠ n, L.phase.stageOf m = none ∧ L'.phase.stageOf m = none) :
    Lives ⟨sh, Function.update s.place n place⟩ i L' where
  now := hnow
  events := hevents
  limit := by
    rw [hinserted, hlimit]
    exact h.limit
  unborn := by
    rw [hinserted]
    refine ⟨fun hunborn => ?_, fun hle => absurd hle (not_le.mpr hborn)⟩
    have hphase := hshows.2.2
    rw [hunborn] at hphase
    exact hphase.elim
  row := by
    rw [hrow]
    exact hshows
  places := by
    rw [hrow]
    refine (Function.forall_update_iff s.place fun m place =>
      place.about i = held (some r) (L'.phase.stageOf m)).mpr ⟨hplace, fun m hm => ?_⟩
    obtain ⟨hold, hnew⟩ := hothers m hm
    rw [h.places m, hold, hnew]
    cases rowOf s.shared.jobs i <;> rfl

/-! ## What each action is to one job -/

theorem Job.Shows.waiting {r : Job} {phase : Phase ℕ} (h : r.Shows phase)
    (hpending : r.status = .pending) : phase = .waiting r.runAt := by
  cases phase with
  | unborn => exact h.elim
  | waiting ready => rw [h.2]
  | held | abandoned =>
    have hrunning : r.status = .running := h
    rw [hpending] at hrunning
    cases hrunning
  | finished =>
    rcases h with hover | hover <;> rw [hpending] at hover <;> cases hover

theorem Job.Shows.finished {r : Job} {phase : Phase ℕ} (h : r.Shows phase)
    (hover : r.status.Over) : phase = .finished := by
  cases phase with
  | finished => rfl
  | unborn => exact h.elim
  | waiting ready => rcases hover with hover | hover <;> rw [h.1] at hover <;> cases hover
  | held | abandoned =>
    have hrunning : r.status = .running := h
    rcases hover with hover | hover <;> rw [hrunning] at hover <;> cases hover

theorem Lives.born (hkeyed : Keyed s.shared) {r : Job} (hrow : rowOf s.shared.jobs i = some r) :
    i < s.shared.inserted.length := by
  obtain ⟨hmem, rfl⟩ := mem_of_find?_key hrow
  exact hkeyed.inserted r hmem

theorem tick_lives (h : Lives s i L) (micros : ℕ) :
    ∃ L', Retry.Steps delay mayDrop L L' ∧
      Lives ⟨{ s.shared with now := s.shared.now + micros }, s.place⟩ i L' :=
  ⟨_, .single (.tick L micros),
    ⟨congrArg (· + (micros : ℤ)) h.now, h.events, h.limit, h.unborn, h.row, h.places⟩⟩

/-- A row that is added is the start of a life. -/
theorem enqueue_lives (h : Lives s i L) (hok : Retry.Ok delay L) {row : Job}
    (hrow : row.Fresh s.shared.inserted.length) :
    ∃ L', Retry.Steps delay mayDrop L L' ∧
      Lives ⟨{ s.shared with
          jobs := s.shared.jobs ++ [row]
          inserted := s.shared.inserted ++ [row] }, s.place⟩ i L' := by
  by_cases hi : i = s.shared.inserted.length
  · have hunborn := h.unborn.mpr hi.ge
    have hshows := h.row
    have hfits := hok.fits
    rw [hunborn] at hfits
    cases hold : rowOf s.shared.jobs i with
    | some r =>
      rw [hold, Shows, hunborn] at hshows
      exact hshows.2.2.elim
    | none =>
      have hnew : rowOf (s.shared.jobs ++ [row]) i = some row :=
        find?_concat_of_eq hold (hrow.number.trans hi.symm)
      refine ⟨{ L with phase := .waiting row.runAt, limit := row.maxAttempts },
        .single (.add L row.runAt row.maxAttempts hunborn), h.now, h.events, ?_, ?_, ?_, ?_⟩
      · rintro r hr
        rw [hi, List.getElem?_concat_length] at hr
        rw [Option.mem_some.mp hr]
      · rw [List.length_append, List.length_singleton]
        exact ⟨fun hwaiting => (by cases hwaiting), fun hle => (by omega)⟩
      · rw [hnew]
        refine ⟨?_, rfl, hrow.pending, rfl⟩
        rw [hrow.attempts, hfits.1, Nat.cast_zero]
      · intro m
        rw [hnew]
        refine (h.places m).trans ?_
        rw [hold]
        rfl
  · have hkept : rowOf (s.shared.jobs ++ [row]) i = rowOf s.shared.jobs i :=
      find?_concat_of_ne (hrow.number ▸ Ne.symm hi)
    refine ⟨L, .refl, h.now, h.events, fun r hr => ?_, ?_, ?_, fun m => ?_⟩
    · rcases lt_or_gt_of_ne hi with hlt | hgt
      · rw [List.getElem?_append_left hlt] at hr
        exact h.limit r hr
      · rw [List.getElem?_eq_none (by rw [List.length_append, List.length_singleton]; omega)] at hr
        cases hr
    · rw [h.unborn, List.length_append, List.length_singleton]
      omega
    · rw [hkept]
      exact h.row
    · rw [hkept]
      exact h.places m

theorem purge_lives (hkeyed : Keyed s.shared) (h : Lives s i L) :
    Lives ⟨{ s.shared with jobs := (purgeOld s.shared.now s.shared.jobs).2 }, s.place⟩ i L := by
  have hrow := rowOf_purgeOld (i := i) s.shared.now hkeyed.numbers
  have hshows := h.row
  have hplaces := h.places
  cases hold : rowOf s.shared.jobs i with
  | none =>
    rw [hold] at hrow hshows hplaces
    exact ⟨h.now, h.events, h.limit, h.unborn, hrow ▸ hshows, hrow ▸ hplaces⟩
  | some r =>
    rw [hold] at hrow hshows hplaces
    by_cases hpurged : r.status.Over ∧ r.updatedAt < s.shared.now - thirtyDays
    · have hfinished := hshows.2.2.finished hpurged.1
      replace hrow := hrow.trans (Option.filter_some_neg (decide_eq_false (not_not_intro hpurged)))
      refine ⟨h.now, h.events, h.limit, h.unborn, ?_, fun m => ?_⟩
      · rw [hrow]
        exact Or.inr hfinished
      · rw [hrow]
        refine (hplaces m).trans ?_
        rw [hfinished]
        rfl
    · replace hrow := hrow.trans (Option.filter_some_pos (decide_eq_true hpurged))
      exact ⟨h.now, h.events, h.limit, h.unborn, hrow ▸ hshows, hrow ▸ hplaces⟩

/-- A claim is a step in the lives of the jobs that it takes. -/
theorem claim_lives (hkeyed : Keyed s.shared) (h : Lives s i L) (hidle : s.place n = .idle)
    (limit : ℕ) (locked : List Uuid) :
    ∃ L', Retry.Steps delay mayDrop L L' ∧
      Lives ⟨{ s.shared with jobs := (claimDue limit s.shared.now locked s.shared.jobs).2 },
        Function.update s.place n
          (.goOn (claimDue limit s.shared.now locked s.shared.jobs).1)⟩ i L' := by
  have hfilter := filter_key_eq_toList (k := i)
    (due_numbers limit s.shared.now locked hkeyed.numbers)
  have habout : (Place.goOn (claimDue limit s.shared.now locked s.shared.jobs).1).about i =
      ((due limit s.shared.now locked s.shared.jobs).filter fun r => r.number = i).map fun r =>
        (.queued, r.claimed) := by
    rw [about_goOn, claimDue, List.filter_map, List.map_map]
    rfl
  have hrow := rowOf_claimDue s.shared.jobs i limit s.shared.now locked
  rw [hfilter] at habout
  cases hfind : (due limit s.shared.now locked s.shared.jobs).find? fun r => r.number = i with
  | none =>
    rw [hfind] at habout
    refine ⟨L, .refl, h.frame rfl rfl rfl ?_ ?_⟩
    · refine hrow.trans ?_
      cases hold : rowOf s.shared.jobs i with
      | none => rfl
      | some r =>
        obtain ⟨hmem, hnumber⟩ := mem_of_find?_key hold
        -- A selected row with this id would be this row.
        have hnot : ¬ ∃ r' ∈ due limit s.shared.now locked s.shared.jobs, r'.id = r.id := by
          rintro ⟨r', hr', hid⟩
          obtain rfl := List.inj_on_of_nodup_map hkeyed.ids (mem_due hr').1 hmem hid
          exact List.find?_eq_none.mp hfind r' hr' (decide_eq_true hnumber)
        rw [Option.map_some, if_neg hnot]
    · rw [hidle]
      exact habout
  | some r =>
    rw [hfind] at habout
    obtain ⟨hdue, hnumber⟩ := mem_of_find?_key hfind
    obtain ⟨hmem, hpending, hready⟩ := mem_due hdue
    have hold : rowOf s.shared.jobs i = some r := hnumber ▸ rowOf_eq_some hkeyed.numbers hmem
    have hshows := h.row
    rw [hold] at hshows
    obtain ⟨hattempts, hmax, hphase⟩ := hshows
    have hwaiting := hphase.waiting hpending
    rw [hold, Option.map_some, if_pos ⟨r, hdue, rfl⟩] at hrow
    refine ⟨{ L with phase := .held n .queued }, .single (.claim L n hwaiting (h.now ▸ hready)), ?_⟩
    refine h.advance (Lives.born hkeyed hold) h.now h.events rfl rfl hrow ⟨hattempts, hmax, rfl⟩ ?_
      fun m hm => ⟨?_, ?_⟩
    · rw [Phase.stageOf_held]
      exact habout
    · rw [hwaiting]
      rfl
    · exact Phase.stageOf_held_of_ne hm _

theorem Lives.holder (hkeyed : Keyed s.shared) (h : Lives s i L) {stage : Stage}
    {rest : List (Stage × ClaimedJob)}
    (habout : ((s.place n).about i).Perm ((stage, job) :: rest)) :
    ∃ r, rowOf s.shared.jobs i = some r ∧ L.phase = .held n stage ∧ job = r.claimed ∧
      rest = [] ∧ i < s.shared.inserted.length ∧
      (r.attempts = L.attempts ∧ r.maxAttempts = L.limit ∧ r.status = .running) := by
  obtain ⟨r, hrow, hphase, hjob, hrest⟩ := h.of_perm habout
  have hshows := h.row
  rw [hrow, Shows, hphase] at hshows
  exact ⟨r, hrow, hphase, hjob, hrest, Lives.born hkeyed hrow, hshows⟩

theorem log_events (sh : Shared) (number : ℕ) (e : Event) :
    (sh.log number e).events number = sh.events number ++ [e] :=
  Function.update_self ..

theorem log_events_of_ne {number : ℕ} (h : i ≠ number) (sh : Shared) (e : Event) :
    (sh.log number e).events i = sh.events i :=
  Function.update_of_ne h ..

/-- The jobs of an instance with a current one. -/
def concerning (i : ℕ) (stage : Stage) (job : ClaimedJob) (queue : List ClaimedJob) :
    List (Stage × ClaimedJob) :=
  ((stage, job) :: queue.map (Prod.mk .queued)).filter fun x => x.2.number = i

theorem concerning_of_eq (h : job.number = i) (stage : Stage) (queue : List ClaimedJob) :
    concerning i stage job queue = (stage, job) :: (Place.goOn queue).about i := by
  rw [concerning, Place.about, Place.goOn_jobs]
  exact List.filter_cons_of_pos (decide_eq_true h)

theorem concerning_of_ne (h : job.number ≠ i) (stage : Stage) (queue : List ClaimedJob) :
    concerning i stage job queue = (Place.goOn queue).about i := by
  rw [concerning, Place.about, Place.goOn_jobs]
  exact List.filter_cons_of_neg (by simpa using h)

theorem about_of_executing (h : place = .executing job queue) (i : ℕ) :
    place.about i = concerning i .executing job queue := by
  rw [h]
  rfl

theorem about_of_returned (h : place = .returned job result queue) (i : ℕ) :
    place.about i = concerning i (.returned result.isOk) job queue := by
  rw [h]
  rfl

theorem start_lives (hkeyed : Keyed s.shared) (h : Lives s i L)
    (hplace : s.place n = .batch queue) {k : ℕ} (hjob : queue[k]? = some job) :
    ∃ L', Retry.Steps delay mayDrop L L' ∧
      Lives ⟨s.shared.log job.number (.started s.shared.now),
        Function.update s.place n (.executing job (queue.eraseIdx k))⟩ i L' := by
  have hperm : ((s.place n).about i).Perm (concerning i .queued job (queue.eraseIdx k)) := by
    obtain ⟨hk, rfl⟩ := List.getElem?_eq_some_iff.mp hjob
    rw [hplace]
    exact ((List.getElem_cons_eraseIdx_perm hk).symm.map _).filter _
  by_cases hi : job.number = i
  · rw [concerning_of_eq hi] at hperm
    obtain ⟨r, hrow, hphase, rfl, hrest, hborn, hshows⟩ := h.holder hkeyed hperm
    refine ⟨_, .single (.start L hphase), h.advance hborn h.now ?_ rfl rfl hrow hshows ?_
      fun m hm => ?_⟩
    · rw [hi, log_events, h.events, h.now]
    · show concerning i .executing r.claimed (queue.eraseIdx k) = held (some r) _
      rw [concerning_of_eq hi, hrest, Phase.stageOf_held]
      rfl
    · rw [hphase]
      exact ⟨Phase.stageOf_held_of_ne hm _, Phase.stageOf_held_of_ne hm _⟩
  · rw [concerning_of_ne hi] at hperm
    refine ⟨L, .refl, h.frame rfl (log_events_of_ne (Ne.symm hi) _ _) rfl rfl ?_⟩
    show concerning i .executing job (queue.eraseIdx k) = (s.place n).about i
    rw [concerning_of_ne hi, h.about_eq hperm]

/-- The return of a handler is a step in the life of its job. -/
theorem handle_lives (hkeyed : Keyed s.shared) (h : Lives s i L)
    (hplace : s.place n = .executing job queue) (result : Except String Unit) :
    ∃ L', Retry.Steps delay mayDrop L L' ∧
      Lives ⟨s.shared.handled job.number result,
        Function.update s.place n (.returned job result queue)⟩ i L' := by
  have habout := about_of_executing hplace i
  by_cases hi : job.number = i
  · rw [concerning_of_eq hi] at habout
    obtain ⟨r, hrow, hphase, rfl, hrest, hborn, hshows⟩ := h.holder hkeyed (.of_eq habout)
    have hreturned : concerning i (.returned result.isOk) r.claimed queue =
        held (some r) (some (.returned result.isOk)) := by
      rw [concerning_of_eq hi, hrest]
      rfl
    have hothers : ∀ m ≠ n, L.phase.stageOf m = none ∧
        (Phase.held n (.returned result.isOk)).stageOf m = none := fun m hm => by
      rw [hphase]
      exact ⟨Phase.stageOf_held_of_ne hm _, Phase.stageOf_held_of_ne hm _⟩
    cases result with
    | ok _ =>
      refine ⟨_, .single (.succeed L hphase), h.advance hborn h.now ?_ rfl rfl hrow hshows ?_
        hothers⟩
      · show (s.shared.log r.claimed.number .succeeded).events i = L.events ++ [.succeeded]
        rw [hi, log_events, h.events]
      · rw [Phase.stageOf_held]
        exact hreturned
    | error e =>
      refine ⟨_, .single (.fail L hphase), h.advance hborn h.now h.events rfl rfl hrow hshows
        ?_ hothers⟩
      rw [Phase.stageOf_held]
      exact hreturned
  · rw [concerning_of_ne hi] at habout
    have hkept : (Place.returned job result queue).about i = (s.place n).about i := by
      rw [habout]
      exact concerning_of_ne hi _ _
    refine ⟨L, .refl, ?_⟩
    cases result with
    | ok _ => exact h.frame rfl (log_events_of_ne (Ne.symm hi) _ _) rfl rfl hkept
    | error e => exact h.frame rfl rfl rfl rfl hkept

theorem rowOf_finalise_of_ne (hkeyed : Keyed s.shared) (hi : job.number ≠ i)
    (hown : ∃ r ∈ s.shared.jobs, r.id = job.id ∧ r.number = job.number) (now : ℤ)
    (result : Except String Unit) :
    rowOf (finalise now job result s.shared.jobs) i = rowOf s.shared.jobs i := by
  rw [rowOf_finalise]
  cases hold : rowOf s.shared.jobs i with
  | none => rfl
  | some r =>
    obtain ⟨own, hmem, hid, hnumber⟩ := hown
    obtain ⟨hr, rfl⟩ := mem_of_find?_key hold
    have hother : r.id ≠ job.id := fun heq =>
      hi (hnumber.symm.trans (congrArg Job.number
        (List.inj_on_of_nodup_map hkeyed.ids hmem hr (hid.trans heq.symm))))
    rw [Option.map_some, if_neg hother]

/-- The update behind a handler is a step of its job, also when it is lost. -/
theorem finalise_own (hkeyed : Keyed s.shared) (h : Lives s i L)
    (hplace : s.place n = .returned job result queue) (hi : job.number = i) {lost : Bool}
    (hdrop : lost = true → mayDrop L) :
    ∃ L', Retry.Steps delay mayDrop L L' ∧
      Lives ⟨{ s.shared with
          jobs := if lost then s.shared.jobs else finalise s.shared.now job result s.shared.jobs
        }.finalised job.number result, Function.update s.place n (.goOn queue)⟩ i L' := by
  have habout := about_of_returned hplace i
  rw [concerning_of_eq hi] at habout
  obtain ⟨r, hrow, hphase, rfl, hrest, hborn, hattempts, hmax, hrunning⟩ :=
    h.holder hkeyed (.of_eq habout)
  have hfinal := rowOf_finalise s.shared.jobs i s.shared.now r.claimed result
  rw [hrow, Option.map_some, if_pos (show r.id = r.claimed.id from rfl)] at hfinal
  have hothers : ∀ phase : Phase ℕ, (∀ m, phase.stageOf m = none) → ∀ m ≠ n,
      L.phase.stageOf m = none ∧ phase.stageOf m = none := fun phase hnone m hm => by
    rw [hphase]
    exact ⟨Phase.stageOf_held_of_ne hm _, hnone m⟩
  have hempty : ∀ row, (Place.goOn queue).about i = held row none := fun row => by
    rw [hrest]
    cases row <;> rfl
  have hfailed : ∀ sh : Shared, sh.events i = s.shared.events i → sh.now = s.shared.now →
      (sh.log r.claimed.number (.failed sh.now)).events i = L.events ++ [.failed L.now] := by
    intro sh hevents hnow
    rw [hi, log_events, hevents, hnow, h.events, h.now]
  cases lost with
  | true =>
    cases result with
    | ok _ =>
      refine ⟨_, .single (.abandon L hphase (hdrop rfl)), h.advance hborn h.now h.events rfl rfl
        hrow ⟨hattempts, hmax, hrunning⟩ (hempty _) (hothers .abandoned fun _ => rfl)⟩
    | error e =>
      refine ⟨_, .single (.lose L hphase (hdrop rfl)), h.advance hborn h.now (hfailed _ rfl rfl)
        rfl rfl hrow ⟨hattempts, hmax, hrunning⟩ (hempty _) (hothers .abandoned fun _ => rfl)⟩
  | false =>
    cases result with
    | ok _ =>
      refine ⟨_, .single (.complete L hphase), h.advance hborn h.now h.events rfl rfl hfinal
        ⟨hattempts, hmax, Or.inl rfl⟩ (hempty _) (hothers .finished fun _ => rfl)⟩
    | error e =>
      by_cases hdead : r.claimed.maxAttempts ≤ r.claimed.attempts + 1
      · have hlimit : L.limit ≤ L.attempts + 1 := by
          rw [← hattempts, ← hmax]
          exact hdead
        refine ⟨_, .single (.bury L hphase hlimit), h.advance hborn h.now (hfailed _ rfl rfl)
          rfl rfl hfinal ?_ (hempty _) (hothers .finished fun _ => rfl)⟩
        rw [Job.finalised, if_pos hdead]
        refine ⟨?_, hmax, Or.inr rfl⟩
        show r.attempts + 1 = ((L.attempts + 1 : ℕ) : ℤ)
        rw [hattempts, Nat.cast_succ]
      · have hlimit : (L.attempts : ℤ) + 1 < L.limit := by
          rw [← hattempts, ← hmax]
          exact not_le.mp hdead
        refine ⟨_, .single (.retry L hphase hlimit), h.advance hborn h.now (hfailed _ rfl rfl)
          rfl rfl hfinal ?_ (hempty _) (hothers (.waiting _) fun _ => rfl)⟩
        rw [Job.finalised, if_neg hdead]
        refine ⟨?_, hmax, rfl, ?_⟩
        · show r.attempts + 1 = ((L.attempts + 1 : ℕ) : ℤ)
          rw [hattempts, Nat.cast_succ]
        · show s.shared.now + 1000000 * delaySeconds (r.attempts + 1) =
            L.now + 1000000 * delaySeconds ((L.attempts + 1 : ℕ) : ℤ)
          rw [h.now, hattempts, Nat.cast_succ]

theorem finalise_other (hkeyed : Keyed s.shared) (h : Lives s i L)
    (hplace : s.place n = .returned job result queue) (hi : job.number ≠ i)
    (hown : ∃ r ∈ s.shared.jobs, r.id = job.id ∧ r.number = job.number) (lost : Bool) :
    Lives ⟨{ s.shared with
        jobs := if lost then s.shared.jobs else finalise s.shared.now job result s.shared.jobs
      }.finalised job.number result, Function.update s.place n (.goOn queue)⟩ i L := by
  have habout := about_of_returned hplace i
  rw [concerning_of_ne hi] at habout
  have hrow : ∀ lost : Bool, rowOf (if lost then s.shared.jobs
      else finalise s.shared.now job result s.shared.jobs) i = rowOf s.shared.jobs i := by
    intro lost
    cases lost with
    | true => rfl
    | false => exact rowOf_finalise_of_ne hkeyed hi hown _ _
  cases result with
  | ok _ => exact h.frame rfl rfl rfl (hrow lost) habout.symm
  | error e => exact h.frame rfl (log_events_of_ne (Ne.symm hi) _ _) rfl (hrow lost) habout.symm

theorem crash_lives (hkeyed : Keyed s.shared) (h : Lives s i L)
    (hdrop : ∀ job ∈ (s.place n).dropped .crash, job.number = i → mayDrop L) :
    ∃ L', Retry.Steps delay mayDrop L L' ∧
      Lives ⟨s.shared, Function.update s.place n .idle⟩ i L' := by
  cases habout : (s.place n).about i with
  | nil => exact ⟨L, .refl, h.frame rfl rfl rfl rfl habout.symm⟩
  | cons x rest =>
    obtain ⟨stage, job⟩ := x
    obtain ⟨r, hrow, hphase, -, -, hborn, hshows⟩ := h.holder hkeyed (.of_eq habout)
    have hmem : (stage, job) ∈ (s.place n).about i := habout ▸ List.mem_cons_self
    have hmay : mayDrop L := hdrop job (List.mem_map_of_mem (List.mem_filter.mp hmem).1)
      (of_decide_eq_true (List.mem_filter.mp hmem).2)
    refine ⟨_, .single (.abandon L hphase hmay), h.advance hborn h.now h.events rfl rfl hrow hshows
      rfl fun m hm => ?_⟩
    rw [hphase]
    exact ⟨Phase.stageOf_held_of_ne hm _, rfl⟩

/-! ## What an action can do -/

/-- The outcomes of an action, with the jobs that are dropped. -/
inductive Acts (sh : Shared) (place : Place) : List ClaimedJob → Shared × Place → Prop where
  | stay {drops : List ClaimedJob} : Acts sh place drops (sh, place)
  | tick (micros : ℕ) : Acts sh place [] ({ sh with now := sh.now + micros }, place)
  | enqueue {row : Job} (hids : ∀ j ∈ sh.jobs, j.id ≠ row.id) (hrow : row.Fresh sh.inserted.length) :
      Acts sh place []
        ({ sh with jobs := sh.jobs ++ [row], inserted := sh.inserted ++ [row] }, place)
  | purge : Acts sh place [] ({ sh with jobs := (purgeOld sh.now sh.jobs).2 }, place)
  | claim (hplace : place = .idle) (limit : ℕ) (locked : List Uuid) :
      Acts sh place [] ({ sh with jobs := (claimDue limit sh.now locked sh.jobs).2 },
        .goOn (claimDue limit sh.now locked sh.jobs).1)
  | start {queue : List ClaimedJob} (hplace : place = .batch queue) {k : ℕ} {job : ClaimedJob}
      (hjob : queue[k]? = some job) :
      Acts sh place [] (sh.log job.number (.started sh.now), .executing job (queue.eraseIdx k))
  | handle {job : ClaimedJob} {queue : List ClaimedJob} (hplace : place = .executing job queue)
      (result : Except String Unit) :
      Acts sh place [] (sh.handled job.number result, .returned job result queue)
  | finalise {job : ClaimedJob} {result : Except String Unit} {queue : List ClaimedJob}
      (hplace : place = .returned job result queue) (lost : Bool) :
      Acts sh place (if lost then [job] else []) ({ sh with
          jobs := if lost then sh.jobs else finalise sh.now job result sh.jobs
        }.finalised job.number result, .goOn queue)
  | crash : Acts sh place (place.dropped .crash) (sh, .idle)

/-- Every action has one of these outcomes. -/
theorem act_acts (n : ℕ) (sh : Shared) (place : Place) (a : Action) :
    Acts sh place (place.dropped a) (act n sh place a) := by
  match place, a with
  | .idle, .tick micros | .batch _, .tick micros | .executing _ _, .tick micros
  | .returned _ _ _, .tick micros => exact .tick micros
  | place, .enqueue id kind payload runAt createdBy =>
    have hdropped : place.dropped (.enqueue id kind payload runAt createdBy) = [] := by
      cases place <;> rfl
    rw [hdropped]
    simp only [act]
    split
    · next row jobs henqueue =>
        obtain ⟨hids, hrow, rfl⟩ := enqueue_eq_ok henqueue
        exact .enqueue hids hrow
    · exact .stay
  | .idle, .purge | .batch _, .purge | .executing _ _, .purge | .returned _ _ _, .purge =>
    exact .purge
  | .idle, .claim limit locked => exact .claim rfl limit locked
  | .batch queue, .start k =>
    simp only [act]
    split
    · next job hjob => exact .start rfl hjob
    · exact .stay
  | .executing job queue, .handle outcome => exact .handle rfl _
  | .returned job result queue, .finalise true => exact .finalise rfl true
  | .returned job result queue, .finalise false => exact .finalise rfl false
  | .idle, .crash | .batch _, .crash | .executing _ _, .crash | .returned _ _ _, .crash =>
    exact .crash
  | .idle, .start _ | .idle, .handle _ | .idle, .finalise _ => exact .stay
  | .batch _, .claim _ _ | .batch _, .handle _ | .batch _, .finalise _ => exact .stay
  | .executing _ _, .claim _ _ | .executing _ _, .start _ | .executing _ _, .finalise _ => exact .stay
  | .returned _ _ _, .claim _ _ | .returned _ _ _, .start _ | .returned _ _ _, .handle _ =>
    exact .stay

/-- Every job lives its life, and each has its row for itself. -/
structure Sound (s : State) : Prop where
  keyed : Keyed s.shared
  lives : ∀ i, ∃ L, Lives s i L ∧ Retry.Ok delay L

theorem Sound.own (hs : Sound s) (hplace : s.place n = .returned job result queue) :
    ∃ r ∈ s.shared.jobs, r.id = job.id ∧ r.number = job.number := by
  obtain ⟨L, hlives, -⟩ := hs.lives job.number
  have habout := about_of_returned hplace job.number
  rw [concerning_of_eq rfl] at habout
  obtain ⟨r, hrow, -, rfl, -⟩ := hlives.of_perm (.of_eq habout)
  exact ⟨r, (mem_of_find?_key hrow).1, rfl, rfl⟩

variable (mayDrop) in
/-- One step of the queue is some steps of each job. -/
theorem simulates (hs : Sound s) (h : Lives s i L) (hok : Retry.Ok delay L) {m : ℕ × Action}
    (hdrop : ∀ job ∈ (s.place m.1).dropped m.2, job.number = i → mayDrop L) :
    ∃ L', Retry.Steps delay mayDrop L L' ∧ Lives (step s m) i L' := by
  obtain ⟨n, a⟩ := m
  have hstay : Function.update s.place n (s.place n) = s.place := Function.update_eq_self n s.place
  have hacts := act_acts n s.shared (s.place n) a
  show ∃ L', Retry.Steps delay mayDrop L L' ∧ Lives ⟨(act n s.shared (s.place n) a).1,
    Function.update s.place n (act n s.shared (s.place n) a).2⟩ i L'
  replace hdrop : ∀ job ∈ (s.place n).dropped a, job.number = i → mayDrop L := hdrop
  generalize act n s.shared (s.place n) a = r at hacts
  generalize hdrops : (s.place n).dropped a = drops at hacts hdrop
  cases hacts with
  | stay =>
    rw [hstay]
    exact ⟨L, .refl, h⟩
  | tick micros =>
    rw [hstay]
    exact tick_lives h micros
  | enqueue hids hrow =>
    rw [hstay]
    exact enqueue_lives h hok hrow
  | purge =>
    rw [hstay]
    exact ⟨L, .refl, purge_lives hs.keyed h⟩
  | claim hplace limit locked => exact claim_lives hs.keyed h hplace limit locked
  | start hplace hjob => exact start_lives hs.keyed h hplace hjob
  | handle hplace result => exact handle_lives hs.keyed h hplace result
  | @finalise job result queue hplace lost =>
    by_cases hi : job.number = i
    · refine finalise_own hs.keyed h hplace hi fun hlost => ?_
      rw [hlost] at hdrop
      exact hdrop job (List.mem_singleton_self _) hi
    · exact ⟨L, .refl, finalise_other hs.keyed h hplace hi (hs.own hplace) lost⟩
  | crash => exact crash_lives hs.keyed h hdrop

theorem Keyed.update (h : Keyed sh) {p : Job → Prop} [DecidablePred p] {f : Job → Job}
    (hid : ∀ j, (f j).id = j.id) (hnumber : ∀ j, (f j).number = j.number) :
    Keyed { sh with jobs := updateWhere p f sh.jobs } := by
  have hids : (updateWhere p f sh.jobs).map Job.id = sh.jobs.map Job.id := map_key_updateWhere hid
  have hnumbers : (updateWhere p f sh.jobs).map Job.number = sh.jobs.map Job.number :=
    map_key_updateWhere hnumber
  refine ⟨hids ▸ h.ids, hnumbers ▸ h.numbers, fun r hr => ?_⟩
  have hmem : r.number ∈ (updateWhere p f sh.jobs).map Job.number := List.mem_map_of_mem hr
  rw [hnumbers] at hmem
  obtain ⟨r', hr', heq⟩ := List.mem_map.mp hmem
  exact heq ▸ h.inserted r' hr'

theorem Keyed.concat (h : Keyed sh) {row : Job} (hids : ∀ j ∈ sh.jobs, j.id ≠ row.id)
    (hnumber : row.number = sh.inserted.length) :
    Keyed { sh with jobs := sh.jobs ++ [row], inserted := sh.inserted ++ [row] } where
  ids := nodup_map_concat.mpr ⟨h.ids, hids⟩
  numbers := nodup_map_concat.mpr
    ⟨h.numbers, fun j hj => hnumber ▸ (h.inserted j hj).ne⟩
  inserted r hr := by
    show r.number < (sh.inserted ++ [row]).length
    rw [List.length_append, List.length_singleton]
    rcases List.mem_append.mp hr with hr | hr
    · exact (h.inserted r hr).trans (Nat.lt_succ_self _)
    · rw [List.mem_singleton.mp hr, hnumber]
      exact Nat.lt_succ_self _

theorem Keyed.sublist (h : Keyed sh) {jobs : List Job} (hjobs : jobs.Sublist sh.jobs) :
    Keyed { sh with jobs } where
  ids := h.ids.sublist (hjobs.map _)
  numbers := h.numbers.sublist (hjobs.map _)
  inserted r hr := h.inserted r (hjobs.subset hr)

theorem step_keyed (h : Keyed s.shared) (m : ℕ × Action) : Keyed (step s m).shared := by
  obtain ⟨n, a⟩ := m
  have hacts := act_acts n s.shared (s.place n) a
  show Keyed (act n s.shared (s.place n) a).1
  generalize act n s.shared (s.place n) a = r at hacts
  generalize (s.place n).dropped a = drops at hacts
  cases hacts with
  | stay | tick | crash => exact ⟨h.ids, h.numbers, h.inserted⟩
  | enqueue hids hrow => exact h.concat hids hrow.number
  | purge => exact h.sublist List.filter_sublist
  | claim hplace limit locked => exact h.update (fun _ => rfl) fun _ => rfl
  | start hplace hjob => exact ⟨h.ids, h.numbers, h.inserted⟩
  | handle hplace result => cases result <;> exact ⟨h.ids, h.numbers, h.inserted⟩
  | @finalise job result queue hplace lost =>
    have hjobs : Keyed { s.shared with
        jobs := if lost then s.shared.jobs else finalise s.shared.now job result s.shared.jobs } := by
      cases lost with
      | true => exact ⟨h.ids, h.numbers, h.inserted⟩
      | false =>
        exact h.update (fun j => (Job.finalised_id _ job result j).1)
          fun j => (Job.finalised_id _ job result j).2.1
    cases result <;> exact ⟨hjobs.ids, hjobs.numbers, hjobs.inserted⟩

theorem delay_nonneg (k : ℕ) : 0 ≤ delay k := by
  cases k with
  | zero => decide
  | succ k =>
    have hdelay := delaySeconds_succ_nonneg k
    show 0 ≤ 1000000 * delaySeconds ((k + 1 : ℕ) : ℤ)
    rw [Nat.cast_succ]
    omega

theorem step_sound (hs : Sound s) (m : ℕ × Action) : Sound (step s m) where
  keyed := step_keyed hs.keyed m
  lives i := by
    obtain ⟨L, hlives, hok⟩ := hs.lives i
    obtain ⟨L', hsteps, hlives'⟩ := simulates (fun _ => True) hs hlives hok
      fun _ _ _ => trivial
    exact ⟨L', hlives', hsteps.ok delay_nonneg hok⟩

/-- A run of the queue is some steps of each job. -/
theorem run_simulates {actions : List (ℕ × Action)} (hs : Sound s) (h : Lives s i L)
    (hok : Retry.Ok delay L) :
    ∀ s' ∈ Runs.visited step s actions,
      ∃ L', Retry.Steps delay (fun _ => True) L L' ∧ Lives s' i L' := by
  have hrun : ∀ s' ∈ Runs.visited step s actions, ∃ L', Retry.Steps delay (fun _ => True) L L' ∧
      Sound s' ∧ Lives s' i L' ∧ Retry.Ok delay L' := by
    refine Runs.simulates ?_ ⟨hs, h, hok⟩
    rintro s m L ⟨hs, h, hok⟩
    obtain ⟨L', hsteps, h'⟩ := simulates (fun _ => True) hs h hok fun _ _ _ => trivial
    exact ⟨L', hsteps, step_sound hs m, h', hsteps.ok delay_nonneg hok⟩
  intro s' hs'
  obtain ⟨L', hsteps, -, h', -⟩ := hrun s' hs'
  exact ⟨L', hsteps, h'⟩

theorem run_sound {actions : List (ℕ × Action)} (hs : Sound s) :
    ∀ s' ∈ Runs.visited step s actions, Sound s' :=
  Runs.invariant (fun _ m hs => step_sound hs m) actions hs

/-! ## The first state -/

/-- A queue of pending jobs, before any instance has started. -/
structure Fresh (s : State) : Prop where
  idle : ∀ n, s.place n = .idle
  jobs : s.shared.inserted = s.shared.jobs
  ids : (s.shared.jobs.map Job.id).Nodup
  fresh : ∀ (i : ℕ) (r : Job), s.shared.jobs[i]? = some r → r.Fresh i
  events : ∀ i, s.shared.events i = []

theorem Fresh.numbers (h : Fresh s) :
    s.shared.jobs.map Job.number = List.range s.shared.jobs.length := by
  refine List.ext_getElem (by simp) fun i hi _ => ?_
  rw [List.getElem_map, List.getElem_range]
  rw [List.length_map] at hi
  exact (h.fresh i _ (List.getElem?_eq_getElem hi)).number

theorem Fresh.keyed (h : Fresh s) : Keyed s.shared where
  ids := h.ids
  numbers := h.numbers ▸ List.nodup_range
  inserted r hr := by
    have hmem : r.number ∈ s.shared.jobs.map Job.number := List.mem_map_of_mem hr
    rw [h.numbers, List.mem_range] at hmem
    rwa [h.jobs]

theorem Fresh.sound (h : Fresh s) : Sound s := by
  refine ⟨h.keyed, fun i => ?_⟩
  have habout : ∀ n, (s.place n).about i = [] := fun n => by
    rw [h.idle]
    rfl
  cases hrow : s.shared.jobs[i]? with
  | none =>
    refine ⟨⟨s.shared.now, .unborn, 0, 0, []⟩, ⟨rfl, h.events i, ?_, ?_, ?_, fun n => ?_⟩,
      Retry.ok_of_untouched rfl rfl (Or.inl rfl)⟩
    · rw [h.jobs, hrow]
      exact fun r hr => by cases hr
    · rw [h.jobs]
      exact ⟨fun _ => List.getElem?_eq_none_iff.mp hrow, fun _ => rfl⟩
    · cases hold : rowOf s.shared.jobs i with
      | none => exact Or.inl rfl
      | some r =>
        have hborn := Lives.born h.keyed hold
        rw [h.jobs] at hborn
        exact absurd (List.getElem?_eq_none_iff.mp hrow) (not_le.mpr hborn)
    · rw [habout]
      cases rowOf s.shared.jobs i <;> rfl
  | some r =>
    have hfresh := h.fresh i r hrow
    have hold : rowOf s.shared.jobs i = some r :=
      hfresh.number ▸ rowOf_eq_some h.keyed.numbers (List.mem_of_getElem? hrow)
    refine ⟨⟨s.shared.now, .waiting r.runAt, 0, r.maxAttempts, []⟩,
      ⟨rfl, h.events i, ?_, ⟨fun hwaiting => (by cases hwaiting), fun hle => ?_⟩, ?_, fun n => ?_⟩,
      Retry.ok_of_untouched rfl rfl (Or.inr ⟨_, rfl⟩)⟩
    · rw [h.jobs, hrow]
      rintro r' hr'
      rw [Option.mem_some.mp hr']
    · rw [h.jobs] at hle
      rw [List.getElem?_eq_none hle] at hrow
      cases hrow
    · rw [hold]
      exact ⟨hfresh.attempts, rfl, hfresh.pending, rfl⟩
    · rw [habout, hold]
      rfl

namespace Sample

def delivery : Job where
  id := 7
  kind := "webhook_delivery"
  payload := "{}"
  runAt := 0
  createdBy := none
  createdAt := 0
  updatedAt := 0
  number := 0

def start : State where
  shared := { jobs := [delivery], now := 0, inserted := [delivery] }
  place _ := .idle

theorem start_fresh : Fresh start where
  idle _ := rfl
  jobs := rfl
  ids := List.nodup_singleton _
  fresh i r hr := by
    cases i with
    | zero =>
      cases hr
      exact ⟨rfl, rfl, rfl⟩
    | succ i => cases hr
  events _ := rfl

end Sample

end OpenAccounting.Jobs
