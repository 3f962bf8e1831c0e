import OpenAccounting.Jobs.AutomationRules
import OpenAccounting.System.JobHolders

/-!
# The budget of automation actions

The events of a ledger are matched one after the other.  Meanwhile the instances of the job queue
claim, execute and purge jobs, other jobs are enqueued, and the rules are edited.

The jobs are counted once for an event, and then every rule that matches gets a job.  So the budget
holds along every run in which each event fits into what is left of it
(`withinBudget_of_affordable`).  What has been purged is too old to be missed.
-/

namespace OpenAccounting.Automation

open Relational
open Jobs (Job)

variable {Number Float : Type} {lib : Libraries Number Float}

/-! ## What the table keeps -/

/-- What is never updated of a job. -/
def issued (j : Job) : String × String × ℤ := (j.kind, j.payload, j.createdAt)

/-- The jobs behind a time. -/
def since (c : ℤ) (jobs : List Job) : List Job := jobs.filter fun j => c < j.createdAt

/-- The table has every job of the last thirty days. -/
structure Queue.Tracked (q : Queue) : Prop where
  dated : ∀ j ∈ q.jobs, j.createdAt ≤ j.updatedAt ∧ j.createdAt ≤ q.now
  past : ∀ j ∈ q.inserted, j.createdAt ≤ q.now
  kept : ∀ c, q.now - Jobs.thirtyDays ≤ c →
    (since c q.jobs).map issued = (since c q.inserted).map issued

namespace Queue.Tracked

variable {q : Queue}

theorem later (h : q.Tracked) {now : ℤ} (hnow : q.now ≤ now) : Queue.Tracked { q with now } where
  dated j hj := ⟨(h.dated j hj).1, (h.dated j hj).2.trans hnow⟩
  past j hj := (h.past j hj).trans hnow
  kept c hc := h.kept c ((sub_le_sub_right hnow _).trans hc)

theorem concat (h : q.Tracked) {row : Job} (hcreated : row.createdAt = q.now)
    (hupdated : row.updatedAt = q.now) :
    Queue.Tracked ⟨q.jobs ++ [row], q.now, q.inserted ++ [row]⟩ where
  dated := by
    intro j hj
    rcases List.mem_append.mp hj with hj | hj
    · exact h.dated j hj
    · rw [List.mem_singleton.mp hj, hcreated, hupdated]
      exact ⟨le_rfl, le_rfl⟩
  past := by
    intro j hj
    rcases List.mem_append.mp hj with hj | hj
    · exact h.past j hj
    · rw [List.mem_singleton.mp hj, hcreated]
  kept c hc := by
    simp only [since, List.filter_append, List.map_append]
    congr 1
    exact h.kept c hc

theorem update (h : q.Tracked) {p : Job → Prop} [DecidablePred p] {f : Job → Job}
    (hissued : ∀ j, issued (f j) = issued j) (hupdated : ∀ j, (f j).updatedAt = q.now) :
    Queue.Tracked { q with jobs := updateWhere p f q.jobs } where
  dated := by
    intro j hj
    obtain ⟨j', hj', rfl⟩ := List.mem_map.mp hj
    split
    · have hcreated : (f j').createdAt = j'.createdAt := congrArg (fun x => x.2.2) (hissued j')
      rw [hcreated, hupdated]
      exact ⟨(h.dated j' hj').2, (h.dated j' hj').2⟩
    · exact h.dated j' hj'
  past := h.past
  kept c hc := by
    rw [← h.kept c hc]
    have hrow : ∀ j, issued (if p j then f j else j) = issued j := by
      intro j
      split
      · exact hissued j
      · rfl
    have hcreated : ∀ j, (if p j then f j else j).createdAt = j.createdAt :=
      fun j => congrArg (fun x => x.2.2) (hrow j)
    simp only [since, updateWhere, List.filter_map, List.map_map]
    have hfilter : ((fun j : Job => decide (c < j.createdAt)) ∘ fun j => if p j then f j else j) =
        fun j => decide (c < j.createdAt) := by
      funext j
      simp only [Function.comp_apply, hcreated]
    rw [hfilter]
    exact List.map_congr_left fun j _ => hrow j

theorem purge (h : q.Tracked) :
    Queue.Tracked { q with jobs := (Jobs.purgeOld q.now q.jobs).2 } where
  dated j hj := h.dated j (List.mem_of_mem_filter hj)
  past := h.past
  kept c hc := by
    replace hc : q.now - Jobs.thirtyDays ≤ c := hc
    rw [← h.kept c hc]
    simp only [since, Jobs.purgeOld, deleteWhere, List.filter_filter]
    congr 1
    refine List.filter_congr fun j hj => ?_
    by_cases hrecent : c < j.createdAt
    · have hyoung : ¬ (j.status.Over ∧ j.updatedAt < q.now - Jobs.thirtyDays) := by
        rintro ⟨-, hold⟩
        have := (h.dated j hj).1
        omega
      simp [hrecent, hyoung]
    · simp [hrecent]

end Queue.Tracked

/-- The queue as the fan-out sees it. -/
def queueOf (sh : Jobs.Shared) : Queue := ⟨sh.jobs, sh.now, sh.inserted⟩

/-- The table keeps the jobs of the last thirty days, whatever the queue does. -/
theorem Queue.Tracked.act {sh : Jobs.Shared} (h : (queueOf sh).Tracked) (n : ℕ)
    (place : Jobs.Place) (a : Jobs.Action) : (queueOf (Jobs.act n sh place a).1).Tracked := by
  rcases Jobs.act_inserted n sh place a with hinserted | ⟨id, kind, payload, runAt, createdBy, row,
    jobs, rfl, henqueue, hact⟩
  · have hacts := Jobs.act_acts n sh place a
    generalize Jobs.act n sh place a = next at hacts hinserted
    generalize place.dropped a = drops at hacts
    cases hacts with
    | stay | start | crash => exact h
    | tick micros => exact h.later (le_add_of_nonneg_right (Int.natCast_nonneg micros))
    | enqueue hids hrow => exact absurd hinserted (by simp)
    | purge => exact h.purge
    | claim hplace limit locked => exact h.update (fun _ => rfl) fun _ => rfl
    | @handle job queue hplace result => cases result <;> exact h
    | @finalise job result queue hplace lost =>
      have hjobs : Queue.Tracked { queueOf sh with
          jobs := if lost then sh.jobs else Jobs.finalise sh.now job result sh.jobs } := by
        cases lost with
        | true => exact h
        | false =>
          refine h.update (fun j => ?_) fun j => ?_
          · cases result with
            | ok _ => rfl
            | error e =>
              rw [Job.finalised]
              split <;> rfl
          · cases result with
            | ok _ => rfl
            | error e =>
              rw [Job.finalised]
              split <;> rfl
      cases result <;> exact hjobs
  · rw [hact]
    simp only [Jobs.enqueue, Commit.bind_eq_ok] at henqueue
    obtain ⟨-, -, henqueue⟩ := henqueue
    obtain ⟨rfl, rfl⟩ := Prod.mk.inj (Except.ok.inj henqueue)
    exact h.concat rfl rfl

/-! ## What an event adds -/

/-- The fan-out of an event enqueues the jobs `added`. -/
structure Queue.Adds (lib : Libraries Number Float) (ledger : Uuid) (q q' : Queue)
    (added : List Job) : Prop where
  inserted : q'.inserted = q.inserted ++ added
  action : ∀ j ∈ added, IsAction lib ledger j
  recent : ∀ j ∈ added, q.now ≤ j.createdAt
  clock : q.now ≤ q'.now
  tracked : q.Tracked → q'.Tracked

namespace Queue.Adds

variable {ledger : Uuid} {q q' q'' : Queue} {added added' : List Job}

theorem later (q : Queue) {now : ℤ} (h : q.now ≤ now) :
    Queue.Adds lib ledger q { q with now } [] where
  inserted := (List.append_nil _).symm
  action _ hj := absurd hj List.not_mem_nil
  recent _ hj := absurd hj List.not_mem_nil
  clock := h
  tracked hq := hq.later h

theorem trans (h : Queue.Adds lib ledger q q' added) (h' : Queue.Adds lib ledger q' q'' added') :
    Queue.Adds lib ledger q q'' (added ++ added') where
  inserted := by rw [h'.inserted, h.inserted, List.append_assoc]
  action j hj := (List.mem_append.mp hj).elim (h.action j) (h'.action j)
  recent j hj := (List.mem_append.mp hj).elim (h.recent j) fun hj => h.clock.trans (h'.recent j hj)
  clock := h.clock.trans h'.clock
  tracked hq := h'.tracked (h.tracked hq)

end Queue.Adds

theorem Queue.adds_enqueueAction (q : Queue) (draw : Draw) {ledger : Uuid} {payload : String}
    (hpayload : lib.ledgerId payload = some ledger.hyphenated) :
    ∃ added, Queue.Adds lib ledger q (q.enqueueAction draw payload).2 added ∧ added.length ≤ 1 := by
  have hnow : q.now ≤ q.now + draw.wait := le_add_of_nonneg_right (Int.natCast_nonneg _)
  have hrow : ∀ row jobs, Jobs.enqueue q.jobs draw.id (q.now + draw.wait) q.inserted.length
      actionKind payload none none = .ok (row, jobs) →
      Queue.Adds lib ledger q ⟨jobs, q.now + draw.wait, q.inserted ++ [row]⟩ [row] := by
    intro row jobs henqueue
    simp only [Jobs.enqueue, Commit.bind_eq_ok] at henqueue
    obtain ⟨-, -, henqueue⟩ := henqueue
    obtain ⟨rfl, rfl⟩ := Prod.mk.inj (Except.ok.inj henqueue)
    refine ⟨rfl, fun j hj => ?_, fun j hj => ?_, hnow, fun hq => (hq.later hnow).concat rfl rfl⟩
    · rw [List.mem_singleton.mp hj]
      exact ⟨rfl, hpayload⟩
    · rw [List.mem_singleton.mp hj]
      exact hnow
  rw [enqueueAction]
  cases henqueue : Jobs.enqueue q.jobs draw.id (q.now + draw.wait) q.inserted.length actionKind
      payload none none with
  | error e => cases draw.outcome <;> exact ⟨[], .later q hnow, Nat.zero_le 1⟩
  | ok new =>
    cases draw.outcome with
    | failed => exact ⟨[], .later q hnow, Nat.zero_le 1⟩
    | done | lost => exact ⟨[new.1], hrow new.1 new.2 henqueue, le_rfl⟩

section

variable [LE Float] [DecidableLE Float]

theorem adds_enqueueAll (e : Event Number) (k : ℕ) (rules : List (Rule Number)) (q : Queue) :
    ∃ added, Queue.Adds lib e.ledger q (enqueueAll lib e k rules q).2 added ∧
      added.length ≤ rules.countP fun r => conditionsMatch lib r.conditions e.data := by
  induction rules generalizing k q with
  | nil => exact ⟨[], .later q le_rfl, le_rfl⟩
  | cons rule rest ih =>
    rw [enqueueAll, List.countP_cons]
    split
    · obtain ⟨first, hfirst, hone⟩ := q.adds_enqueueAction (e.draw k)
        (lib.ledgerId_payload rule e.ledger e.eventType e.data)
      obtain ⟨added, hadded, hlength⟩ := ih (k + 1) _
      refine ⟨first ++ added, hfirst.trans hadded, ?_⟩
      rw [List.length_append]
      omega
    · exact ih (k + 1) q

def matching (lib : Libraries Number Float) (rules : List (Rule Number)) (e : Event Number) : ℕ :=
  (rulesFor rules e.ledger e.eventType).countP fun r => conditionsMatch lib r.conditions e.data

/-- What an event finds when the jobs are counted. -/
def Event.used (lib : Libraries Number Float) (e : Event Number) (q : Queue) : ℕ :=
  Automation.used lib e.ledger (q.now + e.countWait) q.jobs

/-- The event is dropped, or it fits into what is left of the budget. -/
def Affordable (lib : Libraries Number Float) (rules : List (Rule Number)) (e : Event Number)
    (q : Queue) : Prop :=
  e.lookupFails = true ∨ (e.countFails = false ∧ ledgerActionBudgetPerHour ≤ e.used lib q) ∨
    e.used lib q + matching lib rules e ≤ ledgerActionBudgetPerHour

theorem affordable_of_length_le {rules : List (Rule Number)} {e : Event Number} {q : Queue}
    (h : q.jobs.length + matching lib rules e ≤ ledgerActionBudgetPerHour) :
    Affordable lib rules e q :=
  Or.inr (Or.inr ((Nat.add_le_add_right (List.length_filter_le _ _) _).trans h))

theorem adds_matchAndEnqueue (lib : Libraries Number Float) (rules : List (Rule Number))
    (e : Event Number) (q : Queue) :
    ∃ q₀ added, q₀ = { q with now := q₀.now } ∧ q.now ≤ q₀.now ∧
      Queue.Adds lib e.ledger q₀ (matchAndEnqueue lib rules e q).2 added ∧
      (Affordable lib rules e q → added = [] ∨
        Automation.used lib e.ledger q₀.now q.jobs + added.length ≤ ledgerActionBudgetPerHour) := by
  have hwait : q.now ≤ q.now + e.countWait := le_add_of_nonneg_right (Int.natCast_nonneg _)
  rw [matchAndEnqueue]
  split
  · exact ⟨q, [], rfl, le_rfl, .later q le_rfl, fun _ => Or.inl rfl⟩
  · next hnone =>
      dsimp only
      generalize hcounted : (if e.countFails = true then 0
        else Automation.used lib e.ledger (q.now + e.countWait) q.jobs) = counted
      split
      · exact ⟨{ q with now := q.now + e.countWait }, [], rfl, hwait, .later _ le_rfl,
          fun _ => Or.inl rfl⟩
      · next hcount =>
          obtain ⟨added, hadds, hlength⟩ : ∃ added, Queue.Adds lib e.ledger
              { q with now := q.now + e.countWait } _ added ∧ _ :=
            adds_enqueueAll e 0 (rulesFor rules e.ledger e.eventType) _
          refine ⟨{ q with now := q.now + e.countWait }, added, rfl, hwait, hadds, fun h => Or.inr ?_⟩
          rcases h with hlookup | ⟨hread, hspent⟩ | hfits
          · exact absurd (Or.inl hlookup) hnone
          · rw [hread, if_neg Bool.false_ne_true] at hcounted
            exact absurd (hcounted ▸ hspent) hcount
          · exact (Nat.add_le_add_left hlength _).trans hfits

end

/-! ## The budget -/

/-- The actions of a ledger in the hour up to `t`. -/
def actionsWithin (lib : Libraries Number Float) (ledger : Uuid) (t : ℤ) (jobs : List Job) : ℕ :=
  jobs.countP fun j => IsAction lib ledger j ∧ t - hour < j.createdAt ∧ j.createdAt ≤ t

/-- In every hour at most 120 actions are enqueued for a ledger. -/
def WithinBudget (lib : Libraries Number Float) (inserted : List Job) : Prop :=
  ∀ ledger t, actionsWithin lib ledger t inserted ≤ ledgerActionBudgetPerHour

theorem Queue.Tracked.used_eq {q : Queue} (h : q.Tracked) (ledger : Uuid) {now : ℤ}
    (hnow : q.now ≤ now) :
    used lib ledger now q.jobs =
      q.inserted.countP fun j => IsAction lib ledger j ∧ now - hour < j.createdAt := by
  have hcount : ∀ jobs : List Job, (jobs.countP fun j => IsAction lib ledger j ∧
      now - hour < j.createdAt) = ((since (now - hour) jobs).map issued).countP fun x =>
        x.1 = actionKind ∧ lib.ledgerId x.2.1 = some ledger.hyphenated := by
    intro jobs
    rw [List.countP_map, since, List.countP_filter]
    refine List.countP_congr fun j _ => ?_
    rw [Bool.and_eq_true]
    exact decide_eq_true_iff.trans (and_congr decide_eq_true_iff.symm decide_eq_true_iff.symm)
  have hrecent : q.now - Jobs.thirtyDays ≤ now - hour := by
    have : hour ≤ Jobs.thirtyDays := by decide
    omega
  rw [used, ← List.countP_eq_length_filter, hcount, hcount, h.kept _ hrecent]

theorem WithinBudget.append {inserted added : List Job} (h : WithinBudget lib inserted)
    {ledger : Uuid} {now : ℤ} (haction : ∀ j ∈ added, IsAction lib ledger j)
    (hrecent : ∀ j ∈ added, now ≤ j.createdAt)
    (hfits : added = [] ∨ (inserted.countP fun j => IsAction lib ledger j ∧
      now - hour < j.createdAt) + added.length ≤ ledgerActionBudgetPerHour) :
    WithinBudget lib (inserted ++ added) := by
  intro other t
  have hold := h other t
  rw [actionsWithin, List.countP_append]
  by_cases hnone : (added.countP fun j => IsAction lib other j ∧ t - hour < j.createdAt ∧
      j.createdAt ≤ t) = 0
  · rw [hnone]
    exact hold
  -- Otherwise the hour goes on at the time of the count, and the actions are those of the ledger.
  obtain ⟨j, hj, hwithin⟩ := List.countP_pos_iff.mp (Nat.pos_of_ne_zero hnone)
  obtain ⟨⟨-, hledger⟩, -, hend⟩ := of_decide_eq_true hwithin
  have hsame : other.hyphenated = ledger.hyphenated :=
    Option.some.inj (hledger.symm.trans (haction j hj).2)
  have hnow : now ≤ t := (hrecent j hj).trans hend
  have hbefore : (inserted.countP fun j => IsAction lib other j ∧ t - hour < j.createdAt ∧
      j.createdAt ≤ t) ≤ inserted.countP fun j => IsAction lib ledger j ∧ now - hour < j.createdAt := by
    refine List.countP_mono_left fun i _ hi => ?_
    obtain ⟨⟨hkind, hi⟩, hstart, -⟩ := of_decide_eq_true hi
    rw [hsame] at hi
    exact decide_eq_true ⟨⟨hkind, hi⟩, by omega⟩
  rcases hfits with rfl | hfits
  · cases hj
  · exact (Nat.add_le_add hbefore List.countP_le_length).trans hfits

/-! ## Runs -/

/-- The job queue with its instances, and the rules. -/
structure State (Number : Type) where
  queue : Jobs.State
  rules : List (Rule Number)

/-- What may happen. -/
inductive Activity (Number : Type) where
  | event (e : Event Number)
  /-- Rules are created, edited, switched on or off, and deleted. -/
  | setRules (rules : List (Rule Number))
  | queue (n : ℕ) (a : Jobs.Action)

/-- An action of the queue that is left to the fan-out. -/
def Reserved : Jobs.Action → Prop
  | .enqueue _ kind _ _ _ => kind = actionKind
  | _ => False

instance : DecidablePred Reserved
  | .enqueue _ kind _ _ _ => instDecidableEqString kind actionKind
  | .tick _ | .purge | .claim _ _ | .start _ | .handle _ | .finalise _ | .crash =>
    instDecidableFalse

/-- No job yet. -/
def Fresh (s : State Number) : Prop :=
  s.queue.shared.jobs = [] ∧ s.queue.shared.inserted = []

/-- The invariant. -/
def Budgeted (lib : Libraries Number Float) (s : State Number) : Prop :=
  (queueOf s.queue.shared).Tracked ∧ WithinBudget lib s.queue.shared.inserted

theorem Fresh.budgeted {s : State Number} (h : Fresh s) : Budgeted lib s := by
  obtain ⟨hjobs, hinserted⟩ := h
  refine ⟨⟨fun j hj => ?_, fun j hj => ?_, fun c _ => ?_⟩, fun ledger t => ?_⟩
  · rw [queueOf, hjobs] at hj
    cases hj
  · rw [queueOf, hinserted] at hj
    cases hj
  · rw [queueOf, hjobs, hinserted]
  · rw [hinserted]
    exact Nat.zero_le _

theorem WithinBudget.act {sh : Jobs.Shared} (h : WithinBudget lib sh.inserted) (n : ℕ)
    (place : Jobs.Place) {a : Jobs.Action} (hfree : ¬ Reserved a) :
    WithinBudget lib (Jobs.act n sh place a).1.inserted := by
  rcases Jobs.act_inserted n sh place a with hinserted | ⟨id, kind, payload, runAt, createdBy, row,
    jobs, rfl, henqueue, hact⟩
  · rw [hinserted]
    exact h
  · rw [hact]
    simp only [Jobs.enqueue, Commit.bind_eq_ok] at henqueue
    obtain ⟨-, -, henqueue⟩ := henqueue
    obtain ⟨rfl, -⟩ := Prod.mk.inj (Except.ok.inj henqueue)
    intro ledger t
    have hold := h ledger t
    rw [actionsWithin, List.countP_append, List.countP_singleton, if_neg]
    · exact hold
    · rintro haction
      exact hfree (of_decide_eq_true haction).1.1

section

variable [LE Float] [DecidableLE Float]

/-- One event, one edit of the rules, or one step of the queue. -/
def step (lib : Libraries Number Float) (s : State Number) : Activity Number → State Number
  | .event e =>
    let q := (matchAndEnqueue lib s.rules e (queueOf s.queue.shared)).2
    let shared := { s.queue.shared with jobs := q.jobs, now := q.now, inserted := q.inserted }
    { s with queue := { s.queue with shared } }
  | .setRules rules => { s with rules }
  | .queue n a => if Reserved a then s else { s with queue := Jobs.step s.queue (n, a) }

theorem step_event_inserted (s : State Number) (e : Event Number) :
    (step lib s (.event e)).queue.shared.inserted =
      (matchAndEnqueue lib s.rules e (queueOf s.queue.shared)).2.inserted := rfl

/-- The events that fit into what is left of the budget. -/
def Frugal (lib : Libraries Number Float) (s : State Number) : Activity Number → Prop
  | .event e => Affordable lib s.rules e (queueOf s.queue.shared)
  | _ => True

/-- The invariant, for one step whose events fit the budget. -/
theorem Budgeted.step {s : State Number} (h : Budgeted lib s) {a : Activity Number}
    (ha : Frugal lib s a) : Budgeted lib (step lib s a) := by
  obtain ⟨htracked, hbudget⟩ := h
  cases a with
  | event e =>
    obtain ⟨q₀, added, hq₀, hclock, hadds, hfits⟩ :=
      adds_matchAndEnqueue lib s.rules e (queueOf s.queue.shared)
    replace hfits := hfits ha
    have hq₀tracked : q₀.Tracked := by
      rw [hq₀]
      exact htracked.later hclock
    have hq₀inserted : q₀.inserted = s.queue.shared.inserted := by
      rw [hq₀]
      rfl
    refine ⟨hadds.tracked hq₀tracked, ?_⟩
    rw [step_event_inserted, hadds.inserted, hq₀inserted]
    refine hbudget.append hadds.action hadds.recent ?_
    rw [htracked.used_eq e.ledger hclock] at hfits
    exact hfits
  | setRules rules => exact ⟨htracked, hbudget⟩
  | queue n a =>
    simp only [Automation.step]
    split
    · exact ⟨htracked, hbudget⟩
    · next hfree => exact ⟨htracked.act n _ a, hbudget.act n _ hfree⟩

/-- The budget is kept while every event is dropped or fits into what is left of it. -/
theorem withinBudget_of_affordable {s : State Number} (h : Fresh s)
    {activities : List (Activity Number)}
    (hfrugal : Runs.Meets (step lib) (Frugal lib) s activities) :
    ∀ s' ∈ Runs.visited (step lib) s activities, WithinBudget lib s'.queue.shared.inserted := by
  intro s' hs'
  have hkept : ∀ s a, Budgeted lib s → Frugal lib s a → Budgeted lib (Automation.step lib s a) :=
    fun _ _ hs ha => hs.step ha
  exact (Runs.invariant_of_meets hkept h.budgeted hfrugal s' hs').2

end

namespace Sample

def payloadStart : String :=
  "\x7b\"action\":\"webhook_post\",\"action_config\":\x7b\x7d,\"data\":\x7b\x7d," ++
    "\"event_type\":\"external.sync\",\"ledger_id\":\""

def payload (rule : Rule ℤ) (ledger : Uuid) : String :=
  payloadStart ++ ledger.hyphenated ++ "\",\"rule_id\":\"" ++ rule.id.hyphenated ++ "\"\x7d"

def readLedgerId (text : String) : Option String :=
  some (String.ofList ((text.toList.drop payloadStart.toList.length).take 36))

/-- Payloads as the sample has them, and integers for the numbers. -/
def libraries : Libraries ℤ ℤ where
  asF64 := some
  toLowercase := String.toLower
  payload rule ledger _ _ := payload rule ledger
  ledgerId := readLedgerId
  ledgerId_payload rule ledger _ _ := by
    rw [readLedgerId, payload, String.toList_append, String.toList_append, String.toList_append,
      String.toList_append, List.append_assoc, List.append_assoc, List.append_assoc,
      List.drop_left, List.take_left' ledger.length_hyphenated, String.ofList_toList]

/-- A rule of the ledger 1 that every event matches. -/
def rule (i : ℕ) : Rule ℤ where
  id := Fin.ofNat _ i
  ledgerId := 1
  trigger := "external.sync"
  conditions := .object []
  action := "webhook_post"
  actionConfig := .object []

/-- An instance that is idle, no job, and `n` rules. -/
def start (n : ℕ) : State ℤ where
  queue := ⟨{ jobs := [], now := 0 }, fun _ => .idle⟩
  rules := (List.range n).map rule

/-- An event for the ledger 1, with the ids that are drawn. -/
def event (first : ℕ) : Event ℤ where
  ledger := 1
  eventType := "external.sync"
  data := .object []
  draw k := { id := Fin.ofNat _ (first + k) }

end Sample

/-- A ledger with 121 rules gets 121 actions from one event. -/
theorem not_withinBudget :
    Fresh (Sample.start 121) ∧ ¬ ∀ s' ∈ Runs.visited (step Sample.libraries) (Sample.start 121)
      [.event (Sample.event 0)], WithinBudget Sample.libraries s'.queue.shared.inserted := by
  refine ⟨⟨rfl, rfl⟩, fun h => ?_⟩
  have hcount := h _ (Runs.exec_mem_visited _ _) 1 0
  obtain ⟨q₀, added, hq₀, -, hadds, -⟩ := adds_matchAndEnqueue Sample.libraries
    (Sample.start 121).rules (Sample.event 0) (queueOf (Sample.start 121).queue.shared)
  have htimes : (matchAndEnqueue Sample.libraries (Sample.start 121).rules (Sample.event 0)
      (queueOf (Sample.start 121).queue.shared)).2.inserted.map Job.createdAt =
        List.replicate 121 0 := by decide +kernel
  have hadded : (matchAndEnqueue Sample.libraries (Sample.start 121).rules (Sample.event 0)
      (queueOf (Sample.start 121).queue.shared)).2.inserted = added := by
    rw [hadds.inserted, hq₀]
    rfl
  rw [hadded] at htimes
  have hall : actionsWithin Sample.libraries 1 0 added = added.length := by
    refine List.countP_eq_length.mpr fun j hj => decide_eq_true ⟨hadds.action j hj, ?_⟩
    have hcreated := List.mem_map_of_mem (f := Job.createdAt) hj
    rw [htimes] at hcreated
    rw [List.eq_of_mem_replicate hcreated]
    decide
  have hlength : added.length = 121 := by
    rw [← List.length_map Job.createdAt, htimes, List.length_replicate]
  rw [Runs.exec_cons, Runs.exec_nil, step_event_inserted, hadded, hall, hlength] at hcount
  exact absurd hcount (by decide)

theorem withinBudget_of_affordable_pair :
    WithinBudget Sample.libraries (Runs.exec (step Sample.libraries) (Sample.start 2)
      [.event (Sample.event 0), .queue 0 (.tick 1000),
        .event (Sample.event 2)]).queue.shared.inserted := by
  refine withinBudget_of_affordable ⟨rfl, rfl⟩ ?_ _ (Runs.exec_mem_visited _ _)
  simp only [Runs.Meets]
  refine ⟨?_, trivial, ?_, trivial⟩
  · refine affordable_of_length_le ?_
    decide
  · refine affordable_of_length_le ?_
    decide

end OpenAccounting.Automation
