import OpenAccounting.System.JobSafety

/-!
# Who holds a job

What a handler knows of the job that it executes.  Its row is `running`, nobody else has it, and
its kind and payload are the ones it was enqueued with.  A job is unfinished while somebody may
still execute it, and no step makes a finished job unfinished again.
-/

namespace OpenAccounting.Jobs

open Relational
open Retry (Phase)

/-- The jobs that an instance may still execute, or give back to the queue. -/
def Place.unfinished : Place → List ClaimedJob
  | .idle => []
  | .batch queue => queue
  | .executing job queue => job :: queue
  | .returned job result queue => if result.isOk then queue else job :: queue

/-- The row of the job is up for a claim. -/
def Shared.Pending (sh : Shared) (i : ℕ) : Prop :=
  ∃ r ∈ sh.jobs, r.number = i ∧ r.status = .pending

/-- Every row has the kind and the payload that were enqueued. -/
def Shared.Genuine (sh : Shared) : Prop :=
  ∀ r ∈ sh.jobs, ∃ j, sh.inserted[r.number]? = some j ∧ j.kind = r.kind ∧ j.payload = r.payload

variable {s : State} {n : ℕ}

theorem mem_jobs_of_unfinished {place : Place} {job : ClaimedJob} (h : job ∈ place.unfinished) :
    ∃ x ∈ place.jobs, x.2 = job := by
  cases place with
  | idle => cases h
  | batch queue => exact ⟨(.queued, job), List.mem_map_of_mem h, rfl⟩
  | executing job' queue =>
    rcases List.mem_cons.mp h with rfl | h
    · exact ⟨_, List.mem_cons_self, rfl⟩
    · exact ⟨(.queued, job), List.mem_cons_of_mem _ (List.mem_map_of_mem h), rfl⟩
  | returned job' result queue =>
    have hmem : job ∈ job' :: queue := by
      rw [Place.unfinished] at h
      split at h
      · exact List.mem_cons_of_mem _ h
      · exact h
    rcases List.mem_cons.mp hmem with rfl | hmem
    · exact ⟨_, List.mem_cons_self, rfl⟩
    · exact ⟨(.queued, job), List.mem_cons_of_mem _ (List.mem_map_of_mem hmem), rfl⟩

/-! ## The holder -/

theorem Sound.holds (hs : Sound s) {x : Retry.Stage × ClaimedJob} (hx : x ∈ (s.place n).jobs) :
    ∃ r ∈ s.shared.jobs, x.2 = r.claimed := by
  obtain ⟨L, hlives, -⟩ := hs.lives x.2.number
  have hmem : x ∈ (s.place n).about x.2.number := List.mem_filter.mpr ⟨hx, decide_eq_true rfl⟩
  obtain ⟨front, back, habout⟩ := List.append_of_mem hmem
  have hperm : ((s.place n).about x.2.number).Perm (x :: (front ++ back)) := by
    rw [habout]
    exact List.perm_middle
  obtain ⟨r, hrow, -, hjob, -⟩ := hlives.of_perm hperm
  exact ⟨r, (mem_of_find?_key hrow).1, hjob⟩

theorem Sound.alone (hs : Sound s) {job : ClaimedJob} {queue : List ClaimedJob}
    (hplace : s.place n = .executing job queue) :
    (∀ r ∈ s.shared.jobs, r.number = job.number → r.status = .running) ∧
      (∀ j ∈ queue, j.number ≠ job.number) ∧
      ∀ m ≠ n, ∀ x ∈ (s.place m).jobs, x.2.number ≠ job.number := by
  obtain ⟨L, hlives, -⟩ := hs.lives job.number
  have habout := about_of_executing hplace job.number
  rw [concerning_of_eq rfl] at habout
  obtain ⟨r, hrow, hphase, -, hrest, -, -, -, hrunning⟩ := hlives.holder hs.keyed (.of_eq habout)
  refine ⟨fun r' hr' hnumber => ?_, fun j hj hnumber => ?_, fun m hm x hx hnumber => ?_⟩
  · have hrow' := rowOf_eq_some hs.keyed.numbers hr'
    rw [hnumber, hrow] at hrow'
    rw [← Option.some.inj hrow']
    exact hrunning
  · rw [about_goOn, List.map_eq_nil_iff, List.filter_eq_nil_iff] at hrest
    exact hrest j hj (decide_eq_true hnumber)
  · have hmem : x ∈ (s.place m).about job.number :=
      List.mem_filter.mpr ⟨hx, decide_eq_true hnumber⟩
    rw [hlives.places m, hrow, hphase, Phase.stageOf_held_of_ne hm] at hmem
    cases hmem

/-! ## What an action leaves unfinished -/

/-- A thread holds a job only if it held it before or claims it now. -/
theorem act_unfinished {sh : Shared} {place : Place} {a : Action} {job : ClaimedJob}
    (h : job ∈ (act n sh place a).2.unfinished) :
    job ∈ place.unfinished ∨ place = .idle ∧ ∃ limit locked, a = .claim limit locked ∧
      ∃ r ∈ due limit sh.now locked sh.jobs, r.claimed = job := by
  match place, a, h with
  | .idle, .claim limit locked, h =>
    refine Or.inr ⟨rfl, limit, locked, rfl, ?_⟩
    have hmem : job ∈ (due limit sh.now locked sh.jobs).map Job.claimed := by
      simp only [act, claimDue] at h
      cases hbatch : (due limit sh.now locked sh.jobs).map Job.claimed with
      | nil =>
        rw [hbatch] at h
        cases h
      | cons first rest =>
        rw [hbatch] at h
        exact h
    exact List.mem_map.mp hmem
  | .batch queue, .start k, h =>
    simp only [act] at h
    cases hjob : queue[k]? with
    | none =>
      rw [hjob] at h
      exact Or.inl h
    | some first =>
      rw [hjob] at h
      rcases List.mem_cons.mp h with rfl | h
      · exact Or.inl (List.mem_of_getElem? hjob)
      · exact Or.inl (List.mem_of_mem_eraseIdx h)
  | .executing job' queue, .handle outcome, h =>
    simp only [act, Place.unfinished] at h
    split at h
    · exact Or.inl (List.mem_cons_of_mem _ h)
    · exact Or.inl h
  | .returned job' result queue, .finalise lost, h =>
    have hmem : job ∈ queue := by
      cases queue with
      | nil => cases h
      | cons first rest => exact h
    refine Or.inl ?_
    rw [Place.unfinished]
    split
    · exact hmem
    · exact List.mem_cons_of_mem _ hmem
  | place, .enqueue id kind payload runAt createdBy, h =>
    simp only [act] at h
    split at h
    · exact Or.inl h
    · exact Or.inl h
  | .idle, .tick _, h | .batch _, .tick _, h | .executing _ _, .tick _, h
  | .returned _ _ _, .tick _, h => exact Or.inl h
  | .idle, .purge, h | .batch _, .purge, h | .executing _ _, .purge, h
  | .returned _ _ _, .purge, h => exact Or.inl h
  | .idle, .start _, h | .idle, .handle _, h | .idle, .finalise _, h => exact Or.inl h
  | .batch _, .claim _ _, h | .batch _, .handle _, h | .batch _, .finalise _, h => exact Or.inl h
  | .executing _ _, .claim _ _, h | .executing _ _, .start _, h
  | .executing _ _, .finalise _, h => exact Or.inl h
  | .returned _ _ _, .claim _ _, h | .returned _ _ _, .start _, h
  | .returned _ _ _, .handle _, h => exact Or.inl h
  | .idle, .crash, h | .batch _, .crash, h | .executing _ _, .crash, h
  | .returned _ _ _, .crash, h => cases h

/-- A row is up for a claim because it was, because it is new, or because its execution has
failed. -/
theorem Sound.act_pending (hs : Sound s) {a : Action} {i : ℕ}
    (h : (act n s.shared (s.place n) a).1.Pending i) :
    i = s.shared.inserted.length ∨ s.shared.Pending i ∨
      ∃ job ∈ (s.place n).unfinished, job.number = i := by
  have hacts := act_acts n s.shared (s.place n) a
  generalize act n s.shared (s.place n) a = next at hacts h
  generalize (s.place n).dropped a = drops at hacts
  cases hacts with
  | stay | tick | start | crash => exact Or.inr (Or.inl h)
  | @handle job queue hplace result => cases result <;> exact Or.inr (Or.inl h)
  | enqueue hids hrow =>
    obtain ⟨r, hr, hnumber, hpending⟩ := h
    rcases List.mem_append.mp hr with hr | hr
    · exact Or.inr (Or.inl ⟨r, hr, hnumber, hpending⟩)
    · rw [List.mem_singleton.mp hr, hrow.number] at hnumber
      exact Or.inl hnumber.symm
  | purge =>
    obtain ⟨r, hr, hnumber, hpending⟩ := h
    exact Or.inr (Or.inl ⟨r, List.mem_of_mem_filter hr, hnumber, hpending⟩)
  | claim hplace limit locked =>
    obtain ⟨r, hr, hnumber, hpending⟩ := h
    obtain ⟨r', hr', rfl⟩ := List.mem_map.mp hr
    split at hpending
    · cases hpending
    · next hnot =>
        rw [if_neg hnot] at hnumber
        exact Or.inr (Or.inl ⟨r', hr', hnumber, hpending⟩)
  | @finalise job result queue hplace lost =>
    have hjobs : ∃ r ∈ (if lost then s.shared.jobs
        else finalise s.shared.now job result s.shared.jobs), r.number = i ∧
          r.status = .pending := by
      cases result <;> exact h
    obtain ⟨r, hr, hnumber, hpending⟩ := hjobs
    cases lost with
    | true => exact Or.inr (Or.inl ⟨r, hr, hnumber, hpending⟩)
    | false =>
      obtain ⟨r', hr', rfl⟩ := List.mem_map.mp hr
      split at hpending
      · next hid =>
          obtain ⟨own, hown, hownId, hownNumber⟩ := hs.own hplace
          obtain rfl := List.inj_on_of_nodup_map hs.keyed.ids hown hr' (hownId.trans hid.symm)
          rw [if_pos hid, (Job.finalised_id _ _ _ _).2.1] at hnumber
          refine Or.inr (Or.inr ⟨job, ?_, hownNumber.symm.trans hnumber⟩)
          rw [hplace]
          cases result with
          | ok _ => cases hpending
          | error e => exact List.mem_cons_self
      · next hid =>
          rw [if_neg hid] at hnumber
          exact Or.inr (Or.inl ⟨r', hr', hnumber, hpending⟩)

/-! ## What was enqueued -/

theorem act_now_le (n : ℕ) (sh : Shared) (place : Place) (a : Action) :
    sh.now ≤ (act n sh place a).1.now := by
  have hacts := act_acts n sh place a
  generalize act n sh place a = next at hacts
  generalize place.dropped a = drops at hacts
  cases hacts with
  | tick micros => exact le_add_of_nonneg_right (Int.natCast_nonneg micros)
  | stay | enqueue | purge | claim | start | crash => exact le_rfl
  | @handle job queue hplace result => cases result <;> exact le_rfl
  | @finalise job result queue hplace lost => cases result <;> exact le_rfl

/-- Only `enqueue` adds a job, and it adds one. -/
theorem act_inserted (n : ℕ) (sh : Shared) (place : Place) (a : Action) :
    (act n sh place a).1.inserted = sh.inserted ∨
      ∃ id kind payload runAt createdBy row jobs, a = .enqueue id kind payload runAt createdBy ∧
        enqueue sh.jobs id sh.now sh.inserted.length kind payload runAt createdBy = .ok (row, jobs) ∧
        (act n sh place a).1 = { sh with jobs, inserted := sh.inserted ++ [row] } := by
  match place, a with
  | place, .enqueue id kind payload runAt createdBy =>
    simp only [act]
    split
    · next row jobs henqueue =>
        exact Or.inr ⟨id, kind, payload, runAt, createdBy, row, jobs, rfl, henqueue, rfl⟩
    · exact Or.inl rfl
  | .batch queue, .start k =>
    simp only [act]
    split
    · exact Or.inl rfl
    · exact Or.inl rfl
  | .executing job queue, .handle outcome =>
    simp only [act]
    cases dispatch job.kind outcome <;> exact Or.inl rfl
  | .returned job result queue, .finalise lost => cases result <;> exact Or.inl rfl
  | .idle, .tick _ | .batch _, .tick _ | .executing _ _, .tick _ | .returned _ _ _, .tick _ =>
    exact Or.inl rfl
  | .idle, .purge | .batch _, .purge | .executing _ _, .purge | .returned _ _ _, .purge =>
    exact Or.inl rfl
  | .idle, .crash | .batch _, .crash | .executing _ _, .crash | .returned _ _ _, .crash =>
    exact Or.inl rfl
  | .idle, .claim _ _ | .idle, .start _ | .idle, .handle _ | .idle, .finalise _ => exact Or.inl rfl
  | .batch _, .claim _ _ | .batch _, .handle _ | .batch _, .finalise _ => exact Or.inl rfl
  | .executing _ _, .claim _ _ | .executing _ _, .start _ | .executing _ _, .finalise _ =>
    exact Or.inl rfl
  | .returned _ _ _, .claim _ _ | .returned _ _ _, .start _ | .returned _ _ _, .handle _ =>
    exact Or.inl rfl

theorem Shared.Genuine.concat {sh : Shared} (h : sh.Genuine) {row : Job}
    (hnumber : row.number = sh.inserted.length) :
    Shared.Genuine { sh with jobs := sh.jobs ++ [row], inserted := sh.inserted ++ [row] } := by
  intro r hr
  rcases List.mem_append.mp hr with hr | hr
  · obtain ⟨j, hj, hsame⟩ := h r hr
    refine ⟨j, ?_, hsame⟩
    rw [List.getElem?_append_left (List.getElem?_eq_some_iff.mp hj).1]
    exact hj
  · rw [List.mem_singleton.mp hr, hnumber]
    exact ⟨row, List.getElem?_concat_length, rfl, rfl⟩

theorem Shared.Genuine.act {sh : Shared} (h : sh.Genuine) (n : ℕ) (place : Place) (a : Action) :
    (Jobs.act n sh place a).1.Genuine := by
  have hupdate : ∀ {p : Job → Prop} [DecidablePred p] {f : Job → Job}, (∀ r, (f r).number = r.number ∧
      (f r).kind = r.kind ∧ (f r).payload = r.payload) →
      ∀ r ∈ updateWhere p f sh.jobs, ∃ j, sh.inserted[r.number]? = some j ∧ j.kind = r.kind ∧
        j.payload = r.payload := by
    intro p _ f hf r hr
    obtain ⟨r', hr', rfl⟩ := List.mem_map.mp hr
    split
    · obtain ⟨hnumber, hkind, hpayload⟩ := hf r'
      rw [hnumber, hkind, hpayload]
      exact h r' hr'
    · exact h r' hr'
  have hacts := act_acts n sh place a
  generalize Jobs.act n sh place a = next at hacts
  generalize place.dropped a = drops at hacts
  cases hacts with
  | stay | tick | start | crash => exact h
  | enqueue hids hrow => exact h.concat hrow.number
  | purge => exact fun r hr => h r (List.mem_of_mem_filter hr)
  | claim hplace limit locked => exact hupdate fun r => ⟨rfl, rfl, rfl⟩
  | @handle job queue hplace result => cases result <;> exact h
  | @finalise job result queue hplace lost =>
    have hjobs : ∀ r ∈ (if lost then sh.jobs else finalise sh.now job result sh.jobs),
        ∃ j, sh.inserted[r.number]? = some j ∧ j.kind = r.kind ∧ j.payload = r.payload := by
      cases lost with
      | true => exact h
      | false =>
        refine hupdate fun r => ?_
        cases result with
        | ok _ => exact ⟨rfl, rfl, rfl⟩
        | error e =>
          rw [Job.finalised]
          split
          · exact ⟨rfl, rfl, rfl⟩
          · exact ⟨rfl, rfl, rfl⟩
    cases result <;> exact hjobs

end OpenAccounting.Jobs
