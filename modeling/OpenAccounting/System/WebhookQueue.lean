import OpenAccounting.Jobs.Webhooks
import OpenAccounting.System.JobHolders

/-!
# Webhooks on the job queue

The instances of `System/JobQueue` execute the deliveries, one statement or request at a time, and
any number of events are fanned out meanwhile.  Every statement may fail, and every thread may be
killed.  The receivers answer whatever they like.

The users' replays (`replay_latest`) and the deliveries of automation rules are left out: both add
rows of their own.  So are the deletion of a ledger and the changes to a subscription other than
`toggle`.
-/

namespace OpenAccounting.Webhooks

open Commit Relational
open Jobs (ClaimedJob Job)

/-- The kind of the jobs of `deliver`. -/
def deliveryKind : String := "webhook_delivery"

/-- A call of `post_signed`, and whether it has made a request. -/
structure Call where
  attempt : Attempt
  time : ℤ
  posted : Bool
deriving DecidableEq

/-- An attempt that has failed. -/
structure Failure where
  attempt : Attempt
  time : ℤ
deriving DecidableEq

/-- The tables, and what has happened so far. -/
structure Shared where
  queue : Jobs.Shared
  subscriptions : List Subscription := []
  deliveries : List Delivery := []
  calls : List Call := []
  failures : List Failure := []

/-- How far `deliver` is. -/
inductive Stage where
  /-- Before the request. -/
  | ready
  /-- The request is out. -/
  | posted
  | answered (outcome : Except String ℕ)
  /-- The failure is on record, and another attempt is allowed. -/
  | failed
  /-- The row of the next attempt is there. -/
  | inserted (next : Uuid)
  /-- The last statement has been executed. -/
  | settled

/-- Where a thread is. -/
inductive Place where
  | queue (place : Jobs.Place)
  | deliver (job : ClaimedJob) (rest : List ClaimedJob) (delivery : Delivery)
      (target : Subscription) (stage : Stage)
  /-- `deliver` returns. -/
  | returning (job : ClaimedJob) (rest : List ClaimedJob) (result : Except String Unit)
  /-- In the loop of `emit_inner`. -/
  | emitting (event : Event) (subscriptions : List Uuid)
  /-- The row of the attempt 0 is there. -/
  | announcing (event : Event) (subscriptions : List Uuid) (delivery : Uuid)

inductive Action where
  /-- An action of the queue that has nothing to do with webhooks. -/
  | queue (a : Jobs.Action)
  | toggle (ledger subscription : Uuid)
  | emit (ledger : Uuid) (event : Event)
  | insertFirst (id : Uuid)
  | enqueue (id : Uuid)
  | select
  | post
  | answer (outcome : Except String ℕ)
  | record (elapsedMs : ℕ)
  | insertNext (id : Uuid)
  | finish
  /-- The statement that is due fails, or the one before has been executed and its answer is
  lost. -/
  | fail (message : String)
  | crash

/-- The queue as an instance sees it. -/
def Place.queueing : Place → Jobs.Place
  | .queue place => place
  | .deliver job rest _ _ _ | .returning job rest _ => .executing job rest
  | .emitting _ _ | .announcing _ _ _ => .idle

/-- The row that has no job yet. -/
def Place.announced : Place → Option Uuid
  | .announcing _ _ delivery => some delivery
  | .deliver _ _ _ _ (.inserted next) => some next
  | _ => none

/-- The jobs that may still lead to a request. -/
def Place.unfinished : Place → List ClaimedJob
  | .queue place => place.unfinished
  | .deliver job rest _ _ .ready => job :: rest
  | .deliver _ rest _ _ _ => rest
  | .returning job rest _ => job :: rest
  | .emitting _ _ | .announcing _ _ _ => []

/-- What the queue leaves to `deliver` and to the fan-out. -/
def Reserved : Jobs.Place → Jobs.Action → Prop
  | .executing job _, .handle _ => job.kind = deliveryKind
  | _, .enqueue _ kind _ _ _ => kind = deliveryKind
  | _, _ => False

instance (place : Jobs.Place) (a : Jobs.Action) : Decidable (Reserved place a) := by
  induction place using Jobs.Place.casesOn <;> induction a using Jobs.Action.casesOn <;>
    dsimp only [Reserved] <;> infer_instance

/-- The rest of a fan-out. -/
def Place.fanOut (event : Event) : List Uuid → Place
  | [] => .queue .idle
  | subscriptions => .emitting event subscriptions

/-- What the `SELECT` of `deliver` leads to. -/
def Place.selected (job : ClaimedJob) (rest : List ClaimedJob) :
    Except String (Option (Delivery × Subscription)) → Place
  | .error e => .returning job rest (.error e)
  | .ok none => .returning job rest (.ok ())
  | .ok (some (d, target)) => .deliver job rest d target .ready

def enqueueDelivery (lib : Libraries) (queue : Jobs.Shared) (id delivery : Uuid) :
    Except SqlError Jobs.Shared := do
  let (row, jobs) ← Jobs.enqueue queue.jobs id queue.now queue.inserted.length deliveryKind
    (lib.payload delivery) none none
  .ok { queue with jobs, inserted := queue.inserted ++ [row] }

/-- A request is made for the row, or refused. -/
def Shared.called (sh : Shared) (d : Delivery) (posted : Bool) : Shared :=
  { sh with calls := sh.calls ++ [⟨d.toAttempt, sh.queue.now, posted⟩] }

def Shared.failed (sh : Shared) (d : Delivery) : Shared :=
  { sh with failures := sh.failures ++ [⟨d.toAttempt, sh.queue.now⟩] }

/-- The handler of the job returns. -/
def Shared.finish (sh : Shared) (n : ℕ) (job : ClaimedJob) (rest : List ClaimedJob)
    (result : Except String Unit) : Shared × Place :=
  let next := Jobs.act n sh.queue (.executing job rest) (.handle result)
  ({ sh with queue := next.1 }, .queue next.2)

/-- The steps of `emit_inner`, of `deliver` and of the queue. -/
def act (lib : Libraries) (n : ℕ) (sh : Shared) : Place → Action → Shared × Place
  | .queue place, .queue a =>
    if Reserved place a then (sh, .queue place)
    else
      let next := Jobs.act n sh.queue place a
      ({ sh with queue := next.1 }, .queue next.2)
  | _, .crash => (sh, .queue .idle)
  | place, .toggle ledger id =>
    ({ sh with subscriptions := toggle ledger id sh.subscriptions }, place)
  | .queue .idle, .emit ledger event =>
    (sh, .fanOut event (subscribers sh.subscriptions ledger event.eventType))
  | .emitting event (subscription :: rest), .insertFirst id =>
    match insertFirst sh.deliveries event subscription id sh.queue.now with
    | .error _ => (sh, .queue .idle)
    | .ok (none, deliveries) => ({ sh with deliveries }, .fanOut event rest)
    | .ok (some id, deliveries) =>
      ({ sh with deliveries }, if id = 0 then .fanOut event rest else .announcing event rest id)
  | .announcing event rest delivery, .enqueue id =>
    match enqueueDelivery lib sh.queue id delivery with
    | .error _ => (sh, .queue .idle)
    | .ok queue => ({ sh with queue }, .fanOut event rest)
  | .emitting _ _, .fail _ | .announcing _ _ _, .fail _ => (sh, .queue .idle)
  | .queue (.executing job rest), .select =>
    if job.kind = deliveryKind then
      (sh, .selected job rest ((lib.deliveryId job.payload).map fun id =>
        selectDelivery sh.subscriptions sh.deliveries id))
    else (sh, .queue (.executing job rest))
  | .queue (.executing job rest), .fail message =>
    if job.kind = deliveryKind then (sh, .returning job rest (.error message))
    else (sh, .queue (.executing job rest))
  | .deliver job rest d target .ready, .post =>
    match refusal lib target.targetUrl with
    | some e =>
      ((sh.called d false).failed d, .deliver job rest d target (.answered (.error e)))
    | none => (sh.called d true, .deliver job rest d target .posted)
  | .deliver job rest d target .posted, .answer outcome =>
    (if succeeded outcome then sh else sh.failed d,
      .deliver job rest d target (.answered outcome))
  | .deliver job rest d target (.answered outcome), .record elapsedMs =>
    ({ sh with deliveries := recordAttempt d.id outcome elapsedMs sh.deliveries },
      .deliver job rest d target
        (if !succeeded outcome && d.attempt + 1 < maxAttempts then .failed else .settled))
  | .deliver job rest d target .failed, .insertNext id =>
    match insertNext sh.deliveries d.id (d.attempt + 1) id sh.queue.now with
    | .error e => (sh, .returning job rest (.error (lib.sqlMessage e)))
    | .ok deliveries => ({ sh with deliveries }, .deliver job rest d target (.inserted id))
  | .deliver job rest d target (.inserted next), .enqueue id =>
    match enqueueDelivery lib sh.queue id next with
    | .error e => (sh, .returning job rest (.error (lib.sqlMessage e)))
    | .ok queue => ({ sh with queue }, .deliver job rest d target .settled)
  -- There is no statement while the request is out.
  | .deliver job rest d target .posted, .fail _ => (sh, .deliver job rest d target .posted)
  | .deliver job rest _ _ _, .fail message => (sh, .returning job rest (.error message))
  | .deliver job rest _ _ .settled, .finish => sh.finish n job rest (.ok ())
  | .returning job rest result, .finish => sh.finish n job rest result
  | place, _ => (sh, place)

/-- Everything that is under way. -/
abbrev State := Threads.State ℕ Shared Place

/-- A thread takes its next action. -/
def step (lib : Libraries) : State → ℕ × Action → State := Threads.step (act lib)

/-- The attempts on the table. -/
def Shared.attempts (sh : Shared) : List Attempt := sh.deliveries.map Delivery.toAttempt

def queueOf (s : State) : Jobs.State := ⟨s.shared.queue, fun n => (s.place n).queueing⟩

/-! ## What is asked of the steps -/

/-- `BACKOFF_SECONDS`, in microseconds. -/
def wait (attempt : ℕ) : ℤ := 1000000 * Jobs.backoffSeconds.getD attempt 0

/-- The job is no retry, or its row is old enough. -/
def Ripe (lib : Libraries) (sh : Shared) (kind payload : String) : Prop :=
  kind = deliveryKind → ∀ a ∈ sh.attempts, payload = lib.payload a.id → 0 < a.attempt →
    a.createdAt + wait (a.attempt - 1) ≤ sh.queue.now

instance (lib : Libraries) (sh : Shared) (kind payload : String) :
    Decidable (Ripe lib sh kind payload) := by
  unfold Ripe
  infer_instance

/-- No statement of `deliver` fails behind the request, also not for an id that is taken, and no
retry is claimed before its time. -/
def Careful (lib : Libraries) (sh : Shared) : Place → Action → Prop
  | .deliver _ _ _ _ .ready, .fail _ => True
  | .deliver _ _ _ _ _, .fail _ => False
  | .deliver _ _ _ _ _, .insertNext id => ∀ d ∈ sh.deliveries, d.id ≠ id
  | .deliver _ _ _ _ _, .enqueue id => ∀ j ∈ sh.queue.jobs, j.id ≠ id
  | .queue .idle, .queue (.claim limit locked) =>
    ∀ j ∈ Jobs.due limit sh.queue.now locked sh.queue.jobs, Ripe lib sh j.kind j.payload
  | _, _ => True

instance (lib : Libraries) (sh : Shared) (place : Place) (action : Action) :
    Decidable (Careful lib sh place action) := by
  unfold Careful
  split <;> infer_instance

theorem act_queue {lib : Libraries} {sh : Shared} {place : Jobs.Place} {a : Jobs.Action}
    (hfree : ¬ Reserved place a) (n : ℕ) : act lib n sh (.queue place) (.queue a) =
      ({ sh with queue := (Jobs.act n sh.queue place a).1 },
        .queue (Jobs.act n sh.queue place a).2) := by
  simp only [act, if_neg hfree]

/-! ## What an action can do -/

/-- The row of an attempt whose next one has no row yet. -/
def Shared.Awaits (sh : Shared) (a : Attempt) : Prop :=
  a ∈ sh.attempts ∧ ∀ b ∈ sh.attempts, ¬ b.Follows a

/-- The moves of a thread that add no row, no job and nothing to the history. -/
inductive Moves (lib : Libraries) (sh : Shared) (clean : Prop) : Place → Place → Prop where
  | stay {place : Place} : Moves lib sh clean place place
  | fanOut {place : Place} (hidle : place.queueing = .idle) (event : Event) (rest : List Uuid) :
      Moves lib sh clean place (.fanOut event rest)
  | select {job : ClaimedJob} {rest : List ClaimedJob} {d : Delivery} {target : Subscription}
      (hkind : job.kind = deliveryKind) (hread : lib.deliveryId job.payload = .ok d.id)
      (hd : d.toAttempt ∈ sh.attempts) :
      Moves lib sh clean (.queue (.executing job rest)) (.deliver job rest d target .ready)
  | giveUp {job : ClaimedJob} {rest : List ClaimedJob} (hkind : job.kind = deliveryKind)
      (result : Except String Unit) :
      Moves lib sh clean (.queue (.executing job rest)) (.returning job rest result)
  | abort {job : ClaimedJob} {rest : List ClaimedJob} {d : Delivery} {target : Subscription}
      {stage : Stage} (hclean : clean → (sh.attempts.map Attempt.id).Nodup →
        stage = .ready ∨ stage = .failed ∧ ¬ sh.Awaits d.toAttempt)
      (result : Except String Unit) :
      Moves lib sh clean (.deliver job rest d target stage) (.returning job rest result)
  | answer {job : ClaimedJob} {rest : List ClaimedJob} {d : Delivery} {target : Subscription}
      (outcome : Except String ℕ) :
      Moves lib sh clean (.deliver job rest d target .posted)
        (.deliver job rest d target (.answered outcome))
  | retry {job : ClaimedJob} {rest : List ClaimedJob} {d : Delivery} {target : Subscription}
      {outcome : Except String ℕ} (hnext : d.attempt + 1 < maxAttempts) :
      Moves lib sh clean (.deliver job rest d target (.answered outcome))
        (.deliver job rest d target .failed)
  | settle {job : ClaimedJob} {rest : List ClaimedJob} {d : Delivery} {target : Subscription}
      {outcome : Except String ℕ} :
      Moves lib sh clean (.deliver job rest d target (.answered outcome))
        (.deliver job rest d target .settled)

structure Shared.New (sh : Shared) (row : Delivery) : Prop where
  id : ∀ d ∈ sh.deliveries, d.id ≠ row.id
  key : ∀ d ∈ sh.deliveries, d.key ≠ row.key
  createdAt : row.createdAt = sh.queue.now

/-- The outcomes of an action. -/
inductive Acts (lib : Libraries) (n : ℕ) (sh : Shared) (place : Place) (clean : Prop) :
    Shared × Place → Prop where
  | quiet {sh' : Shared} {place' : Place} (hqueue : sh'.queue = sh.queue)
      (hattempts : sh'.attempts = sh.attempts) (hcalls : sh'.calls = sh.calls)
      (hfailures : sh'.failures = sh.failures) (hmoves : Moves lib sh clean place place') :
      Acts lib n sh place clean (sh', place')
  | queue {p : Jobs.Place} {a : Jobs.Action} (hplace : place = .queue p) (hfree : ¬ Reserved p a)
      (hripe : clean → p = .idle → ∀ limit locked, a = .claim limit locked →
        ∀ j ∈ Jobs.due limit sh.queue.now locked sh.queue.jobs, Ripe lib sh j.kind j.payload) :
      Acts lib n sh place clean
        ({ sh with queue := (Jobs.act n sh.queue p a).1 }, .queue (Jobs.act n sh.queue p a).2)
  | crash : Acts lib n sh place clean (sh, .queue .idle)
  | finish {job : ClaimedJob} {rest : List ClaimedJob} {result : Except String Unit}
      (hplace : place = .returning job rest result ∨
        result = .ok () ∧ ∃ d target, place = .deliver job rest d target .settled) :
      Acts lib n sh place clean (sh.finish n job rest result)
  | insertFirst {row : Delivery} {event : Event} {rest : List Uuid} {place' : Place}
      (hplace : place.queueing = .idle) (hnew : sh.New row) (hattempt : row.attempt = 0)
      (hplace' : place' = .fanOut event rest ∨ place' = .announcing event rest row.id) :
      Acts lib n sh place clean ({ sh with deliveries := sh.deliveries ++ [row] }, place')
  | insertNext {job : ClaimedJob} {rest : List ClaimedJob} {d d' row : Delivery}
      {target : Subscription} {next : Uuid} (hplace : place = .deliver job rest d target .failed)
      (hd' : d' ∈ sh.deliveries) (hid : d'.id = d.id) (hnew : sh.New row)
      (hrow : row.toAttempt =
        ⟨next, d'.subscriptionId, d'.eventId, d.attempt + 1, sh.queue.now⟩) :
      Acts lib n sh place clean
        ({ sh with deliveries := sh.deliveries ++ [row] },
          .deliver job rest d target (.inserted next))
  | enqueue {place' : Place} {id delivery : Uuid} {queue : Jobs.Shared}
      (hplace : (∃ event rest, place = .announcing event rest delivery ∧
          place' = .fanOut event rest) ∨
        ∃ job rest d target, place = .deliver job rest d target (.inserted delivery) ∧
          place' = .deliver job rest d target .settled)
      (henqueue : enqueueDelivery lib sh.queue id delivery = .ok queue) :
      Acts lib n sh place clean ({ sh with queue }, place')
  | post {job : ClaimedJob} {rest : List ClaimedJob} {d : Delivery} {target : Subscription}
      (hplace : place = .deliver job rest d target .ready) :
      Acts lib n sh place clean (sh.called d true, .deliver job rest d target .posted)
  | refuse {job : ClaimedJob} {rest : List ClaimedJob} {d : Delivery} {target : Subscription}
      (hplace : place = .deliver job rest d target .ready) (e : String) :
      Acts lib n sh place clean
        ((sh.called d false).failed d, .deliver job rest d target (.answered (.error e)))
  | fail {job : ClaimedJob} {rest : List ClaimedJob} {d : Delivery} {target : Subscription}
      (hplace : place = .deliver job rest d target .posted) (outcome : Except String ℕ) :
      Acts lib n sh place clean (sh.failed d, .deliver job rest d target (.answered outcome))

section

variable {lib : Libraries} {n : ℕ} {sh : Shared} {place : Place} {clean : Prop}

theorem Acts.move {place' : Place} (h : Moves lib sh clean place place') :
    Acts lib n sh place clean (sh, place') :=
  .quiet rfl rfl rfl rfl h

theorem Acts.still : Acts lib n sh place clean (sh, place) := .move .stay

theorem mem_attempts {d : Delivery} (h : d ∈ sh.deliveries) : d.toAttempt ∈ sh.attempts :=
  List.mem_map_of_mem h

theorem queue_acts (n : ℕ) (sh : Shared) (p : Jobs.Place) (a : Jobs.Action) :
    Acts lib n sh (.queue p) (Careful lib sh (.queue p) (.queue a))
      (act lib n sh (.queue p) (.queue a)) := by
  by_cases hfree : Reserved p a
  · simp only [act, if_pos hfree]
    exact .still
  · rw [act_queue hfree]
    refine .queue rfl hfree ?_
    rintro hclean rfl limit locked rfl
    exact hclean

theorem insertFirst_acts (n : ℕ) (sh : Shared) (event : Event) (subscription : Uuid)
    (rest : List Uuid) (id : Uuid) :
    Acts lib n sh (.emitting event (subscription :: rest)) clean
      (act lib n sh (.emitting event (subscription :: rest)) (.insertFirst id)) := by
  simp only [act]
  split
  · exact .move (.fanOut rfl event [])
  · next deliveries hinsert =>
      rcases insertFirst_eq_ok hinsert with ⟨-, rfl⟩ | ⟨hnone, -⟩
      · exact .move (.fanOut rfl event rest)
      · cases hnone
  · next id' deliveries hinsert =>
      rcases insertFirst_eq_ok hinsert with ⟨hsome, -⟩ | ⟨hsome, row, rfl, hrow, hids, hkeys⟩
      · cases hsome
      · obtain rfl := Option.some.inj hsome
        have hid : row.id = id' := congrArg Attempt.id hrow
        have hnew : sh.New row :=
          ⟨hid ▸ hids, hkeys, congrArg Attempt.createdAt hrow⟩
        have hplace' : (if id' = 0 then Place.fanOut event rest else .announcing event rest id') =
              .fanOut event rest ∨
            (if id' = 0 then Place.fanOut event rest else .announcing event rest id') =
              .announcing event rest row.id := by
          rw [hid]
          split
          · exact Or.inl rfl
          · exact Or.inr rfl
        exact .insertFirst rfl hnew (congrArg Attempt.attempt hrow) hplace'

/-- The row of the next attempt can be inserted while there is none. -/
theorem insertNext_of_awaits {d : Delivery} {id : Uuid} {now : ℤ}
    (hids : (sh.attempts.map Attempt.id).Nodup) (h : sh.Awaits d.toAttempt)
    (hid : ∀ d ∈ sh.deliveries, d.id ≠ id) :
    ∃ deliveries, insertNext sh.deliveries d.id (d.attempt + 1) id now = .ok deliveries := by
  obtain ⟨hmem, hnone⟩ := h
  rw [insertNext]
  cases hfind : sh.deliveries.find? fun d' => d'.id = d.id with
  | none =>
    obtain ⟨d', hd', heq⟩ := List.mem_map.mp hmem
    have hsame : d'.id = d.id := congrArg Attempt.id heq
    exact absurd (decide_eq_true hsame) (List.find?_eq_none.mp hfind d' hd')
  | some d' =>
    obtain ⟨hd', hsame⟩ := mem_of_find?_key hfind
    have heq : d'.toAttempt = d.toAttempt :=
      List.inj_on_of_nodup_map hids (mem_attempts hd') hmem hsame
    have hsub : d'.subscriptionId = d.subscriptionId := congrArg Attempt.subscriptionId heq
    have hevent : d'.eventId = d.eventId := congrArg Attempt.eventId heq
    simp only [insertDelivery, bind_eq_ok, ensure_eq_ok]
    refine ⟨_, (), hid, (), fun x hx hkey => ?_, rfl⟩
    obtain ⟨hxsub, hkey⟩ := Prod.mk.inj hkey
    obtain ⟨hxevent, hxattempt⟩ := Prod.mk.inj hkey
    exact hnone _ (mem_attempts hx)
      ⟨hxsub.trans hsub, hxevent.trans hevent, hxattempt⟩

theorem insertNext_acts (n : ℕ) (sh : Shared) (job : ClaimedJob) (rest : List ClaimedJob)
    (d : Delivery) (target : Subscription) (id : Uuid) :
    Acts lib n sh (.deliver job rest d target .failed)
      (Careful lib sh (.deliver job rest d target .failed) (.insertNext id))
      (act lib n sh (.deliver job rest d target .failed) (.insertNext id)) := by
  simp only [act]
  split
  · next e herror =>
      refine .move (.abort (fun hclean hids => Or.inr ⟨rfl, fun hawaits => ?_⟩) _)
      obtain ⟨deliveries, hok⟩ := insertNext_of_awaits hids hawaits hclean
      cases herror.symm.trans hok
  · next deliveries hok =>
      obtain ⟨d', hd', hid, row, rfl, hrow, hids, hkeys⟩ := insertNext_eq_ok hok
      have hrowid : row.id = id := congrArg Attempt.id hrow
      have hnew : sh.New row := ⟨hrowid ▸ hids, hkeys, congrArg Attempt.createdAt hrow⟩
      exact .insertNext rfl hd' hid hnew hrow

theorem enqueueDelivery_cases (lib : Libraries) (queue : Jobs.Shared) (id delivery : Uuid) :
    (∃ j ∈ queue.jobs, j.id = id) ∨ ∃ row : Job,
      Jobs.enqueue queue.jobs id queue.now queue.inserted.length deliveryKind
        (lib.payload delivery) none none = .ok (row, queue.jobs ++ [row]) ∧
      row.kind = deliveryKind ∧ row.payload = lib.payload delivery ∧
      enqueueDelivery lib queue id delivery =
        .ok { queue with jobs := queue.jobs ++ [row], inserted := queue.inserted ++ [row] } := by
  by_cases hid : ∃ j ∈ queue.jobs, j.id = id
  · exact Or.inl hid
  · have henqueue : ∃ row : Job, row.kind = deliveryKind ∧ row.payload = lib.payload delivery ∧
        Jobs.enqueue queue.jobs id queue.now queue.inserted.length deliveryKind
          (lib.payload delivery) none none = .ok (row, queue.jobs ++ [row]) := by
      rw [Jobs.enqueue, ensure, if_pos hid]
      exact ⟨_, rfl, rfl, rfl⟩
    obtain ⟨row, hkind, hpayload, henqueue⟩ := henqueue
    refine Or.inr ⟨row, henqueue, hkind, hpayload, ?_⟩
    rw [enqueueDelivery, henqueue]
    rfl

theorem enqueueNext_acts (n : ℕ) (sh : Shared) (job : ClaimedJob) (rest : List ClaimedJob)
    (d : Delivery) (target : Subscription) (next id : Uuid) :
    Acts lib n sh (.deliver job rest d target (.inserted next))
      (Careful lib sh (.deliver job rest d target (.inserted next)) (.enqueue id))
      (act lib n sh (.deliver job rest d target (.inserted next)) (.enqueue id)) := by
  simp only [act]
  split
  · next e herror =>
      refine .move (.abort (fun hclean _ => ?_) _)
      rcases enqueueDelivery_cases lib sh.queue id next with ⟨j, hj, hid⟩ | ⟨row, -, -, -, hok⟩
      · exact absurd hid (hclean j hj)
      · cases herror.symm.trans hok
  · next queue hok =>
      exact .enqueue (Or.inr ⟨job, rest, d, target, rfl, rfl⟩) hok

theorem deliver_acts (n : ℕ) (sh : Shared) (job : ClaimedJob) (rest : List ClaimedJob)
    (d : Delivery) (target : Subscription) (stage : Stage) (a : Action) :
    Acts lib n sh (.deliver job rest d target stage)
      (Careful lib sh (.deliver job rest d target stage) a)
      (act lib n sh (.deliver job rest d target stage) a) := by
  cases a with
  | crash => exact .crash
  | toggle ledger id => exact .quiet rfl rfl rfl rfl .stay
  | queue a | emit ledger event | insertFirst id | select => cases stage <;> exact .still
  | post =>
    cases stage with
    | ready =>
      simp only [act]
      split
      · next e _ => exact .refuse rfl e
      · exact .post rfl
    | posted | answered | failed | inserted | settled => exact .still
  | answer outcome =>
    cases stage with
    | posted =>
      simp only [act]
      split
      · exact .move (.answer outcome)
      · exact .fail rfl outcome
    | ready | answered | failed | inserted | settled => exact .still
  | record elapsedMs =>
    cases stage with
    | answered outcome =>
      simp only [act]
      split
      · next hnext =>
          have hless : d.attempt + 1 < maxAttempts := by simpa using (Bool.and_eq_true_iff.mp hnext).2
          exact .quiet rfl (map_recordAttempt _ _ _ _) rfl rfl (.retry hless)
      · exact .quiet rfl (map_recordAttempt _ _ _ _) rfl rfl .settle
    | ready | posted | failed | inserted | settled => exact .still
  | insertNext id =>
    cases stage with
    | failed => exact insertNext_acts n sh job rest d target id
    | ready | posted | answered | inserted | settled => exact .still
  | enqueue id =>
    cases stage with
    | inserted next => exact enqueueNext_acts n sh job rest d target next id
    | ready | posted | answered | failed | settled => exact .still
  | finish =>
    cases stage with
    | settled => exact .finish (Or.inr ⟨rfl, d, target, rfl⟩)
    | ready | posted | answered | failed | inserted => exact .still
  | fail message =>
    cases stage with
    | ready => exact .move (.abort (fun _ _ => Or.inl rfl) _)
    | posted => exact .still
    | answered | failed | inserted | settled =>
      exact .move (.abort (fun hclean _ => hclean.elim) _)

/-- Every action has one of these outcomes. -/
theorem act_acts (lib : Libraries) (n : ℕ) (sh : Shared) (place : Place) (a : Action) :
    Acts lib n sh place (Careful lib sh place a) (act lib n sh place a) := by
  cases place with
  | deliver job rest d target stage => exact deliver_acts n sh job rest d target stage a
  | returning job rest result =>
    cases a with
    | crash => exact .crash
    | toggle ledger id => exact .quiet rfl rfl rfl rfl .stay
    | finish => exact .finish (Or.inl rfl)
    | queue | emit | insertFirst | enqueue | select | post | answer | record | insertNext | fail =>
      exact .still
  | emitting event subscriptions =>
    cases a with
    | crash => exact .crash
    | toggle ledger id => exact .quiet rfl rfl rfl rfl .stay
    | fail message => exact .move (.fanOut rfl event [])
    | insertFirst id =>
      cases subscriptions with
      | nil => exact .still
      | cons subscription rest => exact insertFirst_acts n sh event subscription rest id
    | queue | emit | enqueue | select | post | answer | record | insertNext | finish => exact .still
  | announcing event rest delivery =>
    cases a with
    | crash => exact .crash
    | toggle ledger id => exact .quiet rfl rfl rfl rfl .stay
    | fail message => exact .move (.fanOut rfl event [])
    | enqueue id =>
      simp only [act]
      split
      · exact .move (.fanOut rfl event [])
      · next queue hok => exact .enqueue (Or.inl ⟨event, rest, rfl, rfl⟩) hok
    | queue | emit | insertFirst | select | post | answer | record | insertNext | finish =>
      exact .still
  | queue p =>
    cases a with
    | crash => exact .crash
    | toggle ledger id => exact .quiet rfl rfl rfl rfl .stay
    | queue a => exact queue_acts n sh p a
    | emit ledger event =>
      cases p with
      | idle => exact .move (.fanOut rfl event _)
      | batch | executing | returned => exact .still
    | select =>
      cases p with
      | executing job rest =>
        simp only [act]
        split
        · next hkind =>
            cases hread : lib.deliveryId job.payload with
            | error e => exact .move (.giveUp hkind _)
            | ok id =>
              cases hselect : selectDelivery sh.subscriptions sh.deliveries id with
              | none =>
                simp only [Except.map, hselect]
                exact .move (.giveUp hkind _)
              | some found =>
                obtain ⟨hmem, rfl⟩ := selectDelivery_eq_some hselect
                simp only [Except.map, hselect]
                exact .move (.select hkind hread (mem_attempts hmem))
        · exact .still
      | idle | batch | returned => exact .still
    | fail message =>
      cases p with
      | executing job rest =>
        simp only [act]
        split
        · next hkind => exact .move (.giveUp hkind _)
        · exact .still
      | idle | batch | returned => exact .still
    | insertFirst | enqueue | post | answer | record | insertNext | finish => exact .still

end

end OpenAccounting.Webhooks
