import OpenAccounting.Db.Statements
import OpenAccounting.Lib.Relational

/-!
# The job queue

`jobs/mod.rs`.  A job is a row of `jobs`.  `claim_due` marks the due rows `running`, `execute` runs
the handler of a job and records how it ended, and `purge_old` deletes what ended long ago.  Times
are in microseconds.
-/

namespace OpenAccounting.Jobs

open Commit Relational

def backoffSeconds : List ℤ := [30, 120, 600, 3600, 21600]

/-- The delay of `execute`.  As a `usize`, a negative number of attempts is beyond the list. -/
def delaySeconds : ℤ → ℤ
  | .ofNat attempts => backoffSeconds[attempts - 1]?.getD (backoffSeconds.getLast?.getD 21600)
  | .negSucc _ => backoffSeconds.getLast?.getD 21600

/-- `jobs.status`. -/
inductive Status where
  | pending
  | running
  | done
  | dead
deriving DecidableEq

structure Job where
  id : Uuid
  kind : String
  payload : String
  runAt : ℤ
  attempts : ℤ := 0
  maxAttempts : ℤ := 5
  status : Status := .pending
  lastError : Option String := none
  createdBy : Option Uuid
  createdAt : ℤ
  updatedAt : ℤ
  /-- The number of jobs that were enqueued before.  It is no column: it tells a job from a later
  one that happens to draw the id of a purged one. -/
  number : ℕ
deriving DecidableEq

structure ClaimedJob where
  id : Uuid
  kind : String
  payload : String
  attempts : ℤ
  maxAttempts : ℤ
  number : ℕ

/-- What `claim_due` reads of a row. -/
def Job.claimed (j : Job) : ClaimedJob :=
  ⟨j.id, j.kind, j.payload, j.attempts, j.maxAttempts, j.number⟩

/-- `enqueue`, with the id that is drawn. -/
def enqueue (jobs : List Job) (id : Uuid) (now : ℤ) (number : ℕ) (kind payload : String)
    (runAt : Option ℤ) (createdBy : Option Uuid) : Except SqlError (Job × List Job) := do
  ensure (¬ ∃ j ∈ jobs, j.id = id) (.uniqueViolation "jobs_pkey")
  let row : Job :=
    { id, kind, payload, runAt := runAt.getD now, createdBy, createdAt := now, updatedAt := now,
      number }
  .ok (row, jobs ++ [row])

/-- The rows that `claim_due` selects.  Rows `locked` by others are skipped. -/
def due (limit : ℕ) (now : ℤ) (locked : List Uuid) (jobs : List Job) : List Job :=
  (orderBy Job.runAt
    (jobs.filter fun j => j.status = .pending ∧ j.runAt ≤ now ∧ j.id ∉ locked)).take limit

/-- A claimed row. -/
def Job.mark (now : ℤ) (j : Job) : Job := { j with status := .running, updatedAt := now }

def claimDue (limit : ℕ) (now : ℤ) (locked : List Uuid) (jobs : List Job) :
    List ClaimedJob × List Job :=
  let rows := due limit now locked jobs
  (rows.map Job.claimed, updateWhere (fun j => ∃ r ∈ rows, r.id = j.id) (Job.mark now) jobs)

/-- The kinds that have a handler. -/
def handled : List String :=
  ["template_scan", "invoice_reminder_scan", "recurring_invoice_scan", "restore_verify",
    "webhook_delivery", "automation_action", "email_send", "weekly_digest"]

/-- The `match` of `execute` on the kind, given how its handler ends.  An error is the text of the
`JobError`. -/
def dispatch (kind : String) (outcome : Except String Unit) : Except String Unit :=
  if kind ∈ handled then outcome else .error ("unknown job kind '" ++ kind ++ "'")

/-- The row after the finalising update of `execute`. -/
def Job.finalised (now : ℤ) (job : ClaimedJob) : Except String Unit → Job → Job
  | .ok (), j => { j with status := .done, updatedAt := now }
  | .error e, j =>
    if job.maxAttempts ≤ job.attempts + 1 then
      { j with
        status := .dead
        attempts := job.attempts + 1
        lastError := some e
        updatedAt := now }
    else
      { j with
        status := .pending
        attempts := job.attempts + 1
        lastError := some e
        runAt := now + 1000000 * delaySeconds (job.attempts + 1)
        updatedAt := now }

/-- The finalising update of `execute`. -/
def finalise (now : ℤ) (job : ClaimedJob) (result : Except String Unit) (jobs : List Job) :
    List Job :=
  updateWhere (fun j => j.id = job.id) (Job.finalised now job result) jobs

def thirtyDays : ℤ := 30 * 24 * 3600 * 1000000

/-- The job is over. -/
def Status.Over (status : Status) : Prop := status = .done ∨ status = .dead

instance (status : Status) : Decidable status.Over := by
  unfold Status.Over
  infer_instance

/-- `purge_old`, with the number of deleted rows. -/
def purgeOld (now : ℤ) (jobs : List Job) : ℕ × List Job :=
  let kept := deleteWhere (fun j => j.status.Over ∧ j.updatedAt < now - thirtyDays) jobs
  (jobs.length - kept.length, kept)

/-! ## The delays -/

/-- After `k` failures the delay is the `k`-th of the list, and the last one from the fifth on. -/
theorem delaySeconds_succ (k : ℕ) :
    delaySeconds ((k : ℤ) + 1) = backoffSeconds.getD (min (k + 1) 5 - 1) 0 := by
  show backoffSeconds[k + 1 - 1]?.getD 21600 = backoffSeconds.getD (min (k + 1) 5 - 1) 0
  have hlisted : ∀ k < 5, backoffSeconds[k + 1 - 1]?.getD 21600 =
      backoffSeconds.getD (min (k + 1) 5 - 1) 0 := by decide
  rcases Nat.lt_or_ge k 5 with hk | hk
  · exact hlisted k hk
  · have hbeyond : backoffSeconds.length ≤ k + 1 - 1 := by
      show 5 ≤ k + 1 - 1
      omega
    rw [Nat.min_eq_right (by omega), List.getElem?_eq_none hbeyond]
    rfl

theorem delaySeconds_succ_nonneg (k : ℕ) : 0 ≤ delaySeconds ((k : ℤ) + 1) := by
  rw [delaySeconds_succ]
  have hindex : min (k + 1) 5 - 1 < 5 := by omega
  have hall : ∀ m < 5, 0 ≤ backoffSeconds.getD m 0 := by decide
  exact hall _ hindex

/-! ## Rows by number -/

def rowOf (jobs : List Job) (number : ℕ) : Option Job := jobs.find? fun j => j.number = number

/-- A job that nobody has claimed yet. -/
structure Job.Fresh (j : Job) (number : ℕ) : Prop where
  number : j.number = number
  pending : j.status = .pending
  attempts : j.attempts = 0

section

variable {jobs : List Job} {i : ℕ}

theorem Job.finalised_id (now : ℤ) (job : ClaimedJob) (result : Except String Unit) (j : Job) :
    (Job.finalised now job result j).id = j.id ∧
      (Job.finalised now job result j).number = j.number ∧
      (Job.finalised now job result j).maxAttempts = j.maxAttempts := by
  cases result with
  | ok _ => exact ⟨rfl, rfl, rfl⟩
  | error e =>
    by_cases hdead : job.maxAttempts ≤ job.attempts + 1
    · simp [Job.finalised, hdead]
    · simp [Job.finalised, hdead]

theorem rowOf_eq_some (hnumbers : (jobs.map Job.number).Nodup) {r : Job} (h : r ∈ jobs) :
    rowOf jobs r.number = some r :=
  find?_key_eq_some hnumbers h

theorem enqueue_eq_ok {id : Uuid} {now : ℤ} {number : ℕ} {kind payload : String}
    {runAt : Option ℤ} {createdBy : Option Uuid} {row : Job} {jobs' : List Job}
    (h : enqueue jobs id now number kind payload runAt createdBy = .ok (row, jobs')) :
    (∀ j ∈ jobs, j.id ≠ row.id) ∧ row.Fresh number ∧ jobs' = jobs ++ [row] := by
  simp only [enqueue, bind_eq_ok, ensure_eq_ok] at h
  obtain ⟨-, hnew, h⟩ := h
  obtain ⟨rfl, rfl⟩ := Prod.mk.inj (Except.ok.inj h)
  exact ⟨fun j hj heq => hnew ⟨j, hj, heq⟩, ⟨rfl, rfl, rfl⟩, rfl⟩

theorem mem_due {limit : ℕ} {now : ℤ} {locked : List Uuid} {r : Job}
    (h : r ∈ due limit now locked jobs) : r ∈ jobs ∧ r.status = .pending ∧ r.runAt ≤ now := by
  have hmem := List.mem_filter.mp (mem_orderBy.mp (List.mem_of_mem_take h))
  have hdue := of_decide_eq_true hmem.2
  exact ⟨hmem.1, hdue.1, hdue.2.1⟩

theorem due_numbers (limit : ℕ) (now : ℤ) (locked : List Uuid)
    (hnumbers : (jobs.map Job.number).Nodup) :
    ((due limit now locked jobs).map Job.number).Nodup := by
  refine List.Nodup.sublist ((List.take_sublist _ _).map _) ?_
  rw [((orderBy_perm _ _).map _).nodup_iff]
  exact hnumbers.sublist (List.filter_sublist.map _)

theorem rowOf_claimDue (jobs : List Job) (i limit : ℕ) (now : ℤ) (locked : List Uuid) :
    rowOf (claimDue limit now locked jobs).2 i = (rowOf jobs i).map fun j =>
      if ∃ r ∈ due limit now locked jobs, r.id = j.id then j.mark now else j :=
  find?_updateWhere fun _ => rfl

theorem rowOf_finalise (jobs : List Job) (i : ℕ) (now : ℤ) (job : ClaimedJob)
    (result : Except String Unit) :
    rowOf (finalise now job result jobs) i = (rowOf jobs i).map fun j =>
      if j.id = job.id then j.finalised now job result else j :=
  find?_updateWhere fun j => (Job.finalised_id now job result j).2.1

theorem rowOf_purgeOld (now : ℤ) (hnumbers : (jobs.map Job.number).Nodup) :
    rowOf (purgeOld now jobs).2 i =
      (rowOf jobs i).filter fun j => ¬ (j.status.Over ∧ j.updatedAt < now - thirtyDays) :=
  find?_deleteWhere hnumbers

end

end OpenAccounting.Jobs
