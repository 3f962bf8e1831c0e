import OpenAccounting.Lib.Threads
import OpenAccounting.System.AmortizationTotal

/-!
# A period is posted once

Any number of sweeps run interleaved, one database transaction at a time, and any of them may stop
for good.  The record of a period comes after its entry, in another transaction.  A second sweep that
has checked the period before the record, or checks it after the first sweep has crashed, posts it
again.  While every sweep that posts a period finds it still unrecorded and on its way to the record
nowhere (`Undisturbed`), every period has one entry at most.
-/

namespace OpenAccounting.Amortization

open Calendar Decimal

/-- Where a sweep is. -/
inductive Place where
  | idle
  /-- Between two schedules. -/
  | sweeping (actor : Uuid) (queue : List AmortizationSchedule)
  /-- The check of the period has passed. -/
  | creating (actor : Uuid) (p : Period) (queue : List AmortizationSchedule)
  /-- The entry of the period is committed. -/
  | recording (actor : Uuid) (p : Period) (queue : List AmortizationSchedule)
deriving DecidableEq

inductive Action where
  | sweep (today : NaiveDate) (actor : Uuid)
  | check
  | create (req : Request)
  | record

/-- What is left of a sweep. -/
def Place.goOn (actor : Uuid) : List AmortizationSchedule → Place
  | [] => .idle
  | queue => .sweeping actor queue

/-- The steps of `run_sweep`, one transaction at a time.  An error goes on with the next schedule. -/
def act (d : Decimal.Arith) (_ : ℕ) (sh : Shared) : Place → Action → Shared × Place
  | .idle, .sweep today actor => (sh, .goOn actor (dueSchedules sh.db today))
  | .sweeping actor (s :: rest), .check =>
    (sh, match readPeriod d sh.db s with
      | .ok (some p) => .creating actor p rest
      | _ => .goOn actor rest)
  | .creating actor p rest, .create req =>
    match createPeriod sh.db req actor p with
    | (.ok created, db) => (sh.enter db p created.id, .recording actor p rest)
    | (.error _, db) => ({ sh with db := db }, .goOn actor rest)
  | .recording actor p rest, .record =>
    match recordPeriod sh.db p with
    | .ok db => ({ sh with db := db }, .goOn actor rest)
    | .error _ => (sh, .goOn actor rest)
  | place, _ => (sh, place)

/-- Everything that is under way. -/
abbrev State := Threads.State ℕ Shared Place

/-- A sweep takes its next action. -/
def step (d : Decimal.Arith) : State → ℕ × Action → State := Threads.step (act d)

/-! ## Periods in flight -/

def Entry.key (e : Entry) : PostedPeriod := ⟨e.schedule, e.number⟩

/-- The period that is about to be posted. -/
def Period.key (p : Period) : PostedPeriod := ⟨p.schedule.id, p.number⟩

namespace Place

/-- The schedules that are left. -/
def queue : Place → List AmortizationSchedule
  | .idle => []
  | .sweeping _ queue => queue
  | .creating _ _ queue => queue
  | .recording _ _ queue => queue

/-- A checked period without an entry. -/
def checked : Place → Option Period
  | .creating _ p _ => some p
  | _ => none

/-- An entered period without a record. -/
def entered : Place → Option Period
  | .recording _ p _ => some p
  | _ => none

/-- A period between its check and its record. -/
def flight : Place → Option Period
  | .creating _ p _ => some p
  | .recording _ p _ => some p
  | _ => none

end Place

/-- A sweep that posts a period finds it without a record, and no sweep, running or crashed, between
its entry and its record. -/
def Undisturbed (s : State) : ℕ × Action → Prop
  | (n, .create _) => ∀ p ∈ (s.place n).checked, p.key ∉ s.shared.db.amortizationPostedPeriods ∧
      ∀ m, ∀ q ∈ (s.place m).entered, q.key ≠ p.key
  | _ => True

/-- Every period has one entry at most. -/
def PostedOnce (sh : Shared) : Prop :=
  ∀ key, (sh.posted.filter fun e => e.key = key).length ≤ 1

/-! ## What is kept -/

/-- The record of the period will be accepted. -/
def Recordable (db : Db) (p : Period) : Prop :=
  0 < p.number ∧ ∃ r ∈ db.amortizationSchedules, r.id = p.schedule.id

/-- What a place knows by itself. -/
structure Sane (db : Db) (place : Place) : Prop where
  queue : ∀ r ∈ place.queue, 0 ≤ r.postedPeriods
  flight : ∀ p ∈ place.flight, Recordable db p

/-- Each entry is recorded or on its way to the record, and no two are of one period. -/
structure Once (s : State) : Prop where
  rows : ∀ r ∈ s.shared.db.amortizationSchedules, 0 ≤ r.postedPeriods
  sane : ∀ n, Sane s.shared.db (s.place n)
  backed : ∀ e ∈ s.shared.posted, e.key ∈ s.shared.db.amortizationPostedPeriods ∨
    ∃ n, ∃ p ∈ (s.place n).entered, p.key = e.key
  nodup : (s.shared.posted.map Entry.key).Nodup

variable {s : State} {n : ℕ} {rest : List AmortizationSchedule}

theorem Once.postedOnce (h : Once s) : PostedOnce s.shared := by
  intro key
  refine Relational.length_filter_le_one (k := key) h.nodup fun e _ hp => ?_
  exact of_decide_eq_true hp

/-! ## What an action does -/

variable {d : Decimal.Arith}

theorem goOn_queue (actor : Uuid) (rest : List AmortizationSchedule) :
    (Place.goOn actor rest).queue = rest ∧ (Place.goOn actor rest).flight = none := by
  cases rest <;> exact ⟨rfl, rfl⟩

/-- An action without effect on the tables that takes no period in flight. -/
structure Quiet (sh : Shared) (place : Place) (r : Shared × Place) : Prop where
  shared : r.1 = sh
  flight : r.2.flight = none
  entered : place.entered = none
  queue : ∀ row ∈ r.2.queue, row ∈ place.queue ∨ row ∈ sh.db.amortizationSchedules

/-- What an action does to the tables: nothing, an entry, or its record. -/
theorem act_cases (d : Decimal.Arith) (n : ℕ) (sh : Shared) (place : Place) (a : Action) :
    act d n sh place a = (sh, place) ∨ Quiet sh place (act d n sh place a) ∨
      (∃ actor r rest p, place = .sweeping actor (r :: rest) ∧ a = .check ∧
        readPeriod d sh.db r = .ok (some p) ∧ act d n sh place a = (sh, .creating actor p rest)) ∨
      (∃ actor p rest req t db', place = .creating actor p rest ∧ a = .create req ∧
        Entered sh.db db' p t ∧ act d n sh place a = (sh.enter db' p t.id, .recording actor p rest)) ∨
      ∃ actor p rest, place = .recording actor p rest ∧ a = .record := by
  match place, a with
  | .idle, .sweep today actor =>
    refine Or.inr (Or.inl ⟨rfl, (goOn_queue _ _).2, rfl, fun row hrow => Or.inr ?_⟩)
    simp only [act, (goOn_queue _ _).1] at hrow
    exact List.mem_of_mem_filter (Relational.mem_orderBy.mp (List.mem_of_mem_take hrow))
  | .sweeping actor (r :: rest), .check =>
    right
    cases hread : readPeriod d sh.db r with
    | error e =>
      left
      simp only [act, hread]
      exact ⟨rfl, (goOn_queue _ _).2, rfl, fun row hrow => Or.inl
        (List.mem_cons_of_mem r ((goOn_queue actor rest).1 ▸ hrow))⟩
    | ok read =>
      cases read with
      | none =>
        left
        simp only [act, hread]
        exact ⟨rfl, (goOn_queue _ _).2, rfl, fun row hrow => Or.inl
          (List.mem_cons_of_mem r ((goOn_queue actor rest).1 ▸ hrow))⟩
      | some p =>
        right
        left
        exact ⟨actor, r, rest, p, rfl, rfl, hread, by simp only [act, hread]⟩
  | .creating actor p rest, .create req =>
    right
    obtain ⟨r, db', hcreate⟩ : ∃ r db', createPeriod sh.db req actor p = (r, db') := ⟨_, _, rfl⟩
    rcases createPeriod_spec hcreate with
      ⟨⟨e, rfl⟩, rfl⟩ | ⟨created, t, rfl, hid, hentered⟩
    · left
      simp only [act, hcreate]
      exact ⟨rfl, (goOn_queue _ _).2, rfl, fun row hrow =>
        Or.inl ((goOn_queue actor rest).1 ▸ hrow)⟩
    · right
      right
      left
      refine ⟨actor, p, rest, req, t, db', rfl, rfl, hentered, ?_⟩
      simp only [act, hcreate, hid]
  | .recording actor p rest, .record =>
    exact Or.inr (Or.inr (Or.inr (Or.inr ⟨actor, p, rest, rfl, rfl⟩)))
  | .idle, .check | .idle, .create _ | .idle, .record => exact Or.inl rfl
  | .sweeping _ [], .sweep _ _ | .sweeping _ [], .check | .sweeping _ [], .create _
  | .sweeping _ [], .record => exact Or.inl rfl
  | .sweeping _ (_ :: _), .sweep _ _ | .sweeping _ (_ :: _), .create _
  | .sweeping _ (_ :: _), .record => exact Or.inl rfl
  | .creating _ _ _, .sweep _ _ | .creating _ _ _, .check | .creating _ _ _, .record =>
    exact Or.inl rfl
  | .recording _ _ _, .sweep _ _ | .recording _ _ _, .check | .recording _ _ _, .create _ =>
    exact Or.inl rfl

/-! ## What an action keeps -/

/-- Another place for one sweep. -/
abbrev State.move (s : State) (n : ℕ) (sh : Shared) (place : Place) : State :=
  ⟨sh, Function.update s.place n place⟩

theorem backed_update {place : Place} {e : Entry} (hplace : (s.place n).entered = none)
    (h : ∃ m, ∃ p ∈ (s.place m).entered, p.key = e.key) :
    ∃ m, ∃ p ∈ (Function.update s.place n place m).entered, p.key = e.key := by
  obtain ⟨m, p, hp, hkey⟩ := h
  have hm : m ≠ n := by
    rintro rfl
    rw [hplace] at hp
    cases hp
  exact ⟨m, p, by rwa [Function.update_of_ne hm], hkey⟩

theorem once_quiet (h : Once s) {r : Shared × Place} (hq : Quiet s.shared (s.place n) r) :
    Once (s.move n r.1 r.2) := by
  obtain ⟨sh, place⟩ := r
  obtain ⟨rfl, hflight, hentered, hqueue⟩ := hq
  refine ⟨h.rows, ?_, fun e he => (h.backed e he).imp_right (backed_update hentered), h.nodup⟩
  refine (Function.forall_update_iff s.place fun _ => Sane s.shared.db).mpr
    ⟨⟨fun row hrow => ?_, fun p hp => ?_⟩, fun m _ => h.sane m⟩
  · exact (hqueue row hrow).elim ((h.sane n).queue row) (h.rows row)
  · rw [hflight] at hp
    cases hp

theorem once_check (h : Once s) {actor : Uuid} {r : AmortizationSchedule} {p : Period}
    (hplace : s.place n = .sweeping actor (r :: rest))
    (hread : readPeriod d s.shared.db r = .ok (some p)) :
    Once (s.move n s.shared (.creating actor p rest)) := by
  obtain ⟨-, row, hrow, hp⟩ := readPeriod_eq_some hread
  have hentered : (s.place n).entered = none := by
    rw [hplace]
    rfl
  have hsane := h.sane n
  rw [hplace] at hsane
  refine ⟨h.rows, ?_, fun e he => (h.backed e he).imp_right (backed_update hentered), h.nodup⟩
  refine (Function.forall_update_iff s.place fun _ => Sane s.shared.db).mpr
    ⟨⟨fun row hrow => hsane.queue row (List.mem_cons_of_mem r hrow), fun q hq => ?_⟩,
      fun m _ => h.sane m⟩
  cases hq
  have hnonneg := hsane.queue r List.mem_cons_self
  have hpos : 0 < r.postedPeriods + 1 := by omega
  rw [hp]
  exact ⟨hpos, row, List.mem_of_find?_eq_some hrow, by simpa using List.find?_some hrow⟩

/-- An entry for a period without one keeps each period at one. -/
theorem once_create (h : Once s) {actor : Uuid} {p : Period} {t : Transaction} {db' : Db}
    (hplace : s.place n = .creating actor p rest) (hentered : Entered s.shared.db db' p t)
    (hunrecorded : p.key ∉ s.shared.db.amortizationPostedPeriods)
    (hunentered : ∀ m, ∀ q ∈ (s.place m).entered, q.key ≠ p.key) :
    Once (s.move n (s.shared.enter db' p t.id) (.recording actor p rest)) := by
  obtain ⟨-, b', ps, -, -, rfl⟩ := hentered
  have hnone : (s.place n).entered = none := by
    rw [hplace]
    rfl
  have hsane := h.sane n
  rw [hplace] at hsane
  -- An entry of the period would be recorded or on its way to the record.
  have hunposted : ∀ e ∈ s.shared.posted, e.key ≠ p.key := by
    intro e he heq
    rcases h.backed e he with hrecorded | ⟨m, q, hq, hqkey⟩
    · exact hunrecorded (heq ▸ hrecorded)
    · exact hunentered m q hq (hqkey.trans heq)
  have hstands : p ∈ (Function.update s.place n (.recording actor p rest) n).entered := by
    rw [Function.update_self]
    rfl
  refine ⟨h.rows, ?_, fun e he => ?_, ?_⟩
  · exact (Function.forall_update_iff s.place fun _ => Sane _).mpr
      ⟨⟨hsane.queue, hsane.flight⟩, fun m _ => ⟨(h.sane m).queue, (h.sane m).flight⟩⟩
  · rcases List.mem_append.mp he with he | he
    · exact (h.backed e he).imp_right (backed_update hnone)
    · rw [List.mem_singleton.mp he]
      exact Or.inr ⟨n, p, hstands, rfl⟩
  · show ((s.shared.posted ++ [Entry.mk p.schedule.id p.number t.id]).map Entry.key).Nodup
    exact Relational.nodup_map_concat.mpr ⟨h.nodup, hunposted⟩

/-- So does its record. -/
theorem once_record (h : Once s) {actor : Uuid} {p : Period} {db' : Db}
    (hplace : s.place n = .recording actor p rest)
    (hrecord : recordPeriod s.shared.db p = .ok db') :
    Once (s.move n { s.shared with db := db' } (.goOn actor rest)) := by
  obtain ⟨hperiods, rows, rfl⟩ := recordPeriod_eq_ok hrecord
  obtain ⟨hqueue, hflight⟩ := goOn_queue actor rest
  have hsane := h.sane n
  rw [hplace] at hsane
  have hrecordable : ∀ q, Recordable s.shared.db q →
      0 < q.number ∧ ∃ r ∈ s.shared.db.amortizationSchedules.map (moveOn p), r.id = q.schedule.id :=
    fun q ⟨hpos, r, hr, hid⟩ =>
      ⟨hpos, moveOn p r, List.mem_map_of_mem hr, (moveOn_id p r).trans hid⟩
  have hrows : ∀ r ∈ s.shared.db.amortizationSchedules, 0 ≤ (moveOn p r).postedPeriods := by
    intro r hr
    unfold moveOn
    split
    · exact (hsane.flight p rfl).1.le
    · exact h.rows r hr
  have hgone : ∀ m, ∀ q ∈ (s.place m).entered, m ≠ n →
      q ∈ (Function.update s.place n (.goOn actor rest) m).entered := fun m q hq hm => by
    rwa [Function.update_of_ne hm]
  refine ⟨List.forall_mem_map.mpr hrows, ?_, fun e he => ?_, h.nodup⟩
  · refine (Function.forall_update_iff s.place fun _ => Sane _).mpr
      ⟨⟨fun r hr => hsane.queue r (hqueue ▸ hr), fun q hq => ?_⟩, fun m _ =>
        ⟨(h.sane m).queue, fun q hq => hrecordable q ((h.sane m).flight q hq)⟩⟩
    rw [hflight] at hq
    cases hq
  · rcases h.backed e he with hrecorded | ⟨m, q, hq, hqkey⟩
    · exact Or.inl ((hperiods _).mpr (Or.inl hrecorded))
    · by_cases hm : m = n
      · subst hm
        rw [hplace] at hq
        cases hq
        exact Or.inl ((hperiods _).mpr (Or.inr hqkey.symm))
      · exact Or.inr ⟨m, q, hgone m q hq hm, hqkey⟩

/-- The invariant, for one undisturbed step. -/
theorem once_step {m : ℕ × Action} (h : Once s) (hC : Undisturbed s m) : Once (step d s m) := by
  obtain ⟨n, a⟩ := m
  show Once (s.move n (act d n s.shared (s.place n) a).1 (act d n s.shared (s.place n) a).2)
  rcases act_cases d n s.shared (s.place n) a with
    hstay | hquiet | ⟨actor, r, rest, p, hplace, rfl, hread, hact⟩ |
    ⟨actor, p, rest, req, t, db', hplace, rfl, hentered, hact⟩ | ⟨actor, p, rest, hplace, rfl⟩
  · rw [hstay]
    show Once ⟨s.shared, Function.update s.place n (s.place n)⟩
    rw [Function.update_eq_self]
    exact h
  · exact once_quiet h hquiet
  · rw [hact]
    exact once_check h hplace hread
  · rw [hact]
    obtain ⟨hunrecorded, hunentered⟩ := hC p (by rw [hplace]; rfl)
    exact once_create h hplace hentered hunrecorded hunentered
  · have hsane := h.sane n
    rw [hplace] at hsane ⊢
    obtain ⟨hnumber, hrow⟩ := hsane.flight p rfl
    obtain ⟨db', hrecord⟩ := exists_recordPeriod hnumber hrow
    simp only [act, hrecord]
    exact once_record h hplace hrecord

/-- No sweep is under way, and nothing has been posted. -/
structure Fresh (s : State) : Prop where
  rows : ∀ r ∈ s.shared.db.amortizationSchedules, 0 ≤ r.postedPeriods
  idle : ∀ n, s.place n = .idle
  posted : s.shared.posted = []

theorem Fresh.once (h : Fresh s) : Once s where
  rows := h.rows
  sane n := by
    rw [h.idle]
    exact ⟨List.forall_mem_nil _, fun p hp => by cases hp⟩
  backed e he := by
    rw [h.posted] at he
    cases he
  nodup := by
    rw [h.posted]
    exact List.nodup_nil

/-- In every interleaving in which each posted period is unrecorded and on its way to the record
nowhere, every period has one entry at most at any time. -/
theorem postedOnce_of_undisturbed {s : State} {actions : List (ℕ × Action)} (hs : Fresh s)
    (hcalm : Runs.Meets (step d) Undisturbed s actions) :
    ∀ s' ∈ Runs.visited (step d) s actions, PostedOnce s'.shared := fun s' hs' =>
  (Runs.invariant_of_meets (fun _ _ h hC => once_step h hC) hs.once hcalm s' hs').postedOnce

namespace Sample

open OpenAccounting.Sample

/-- The sample schedule, and no sweep. -/
def start : State where
  shared := { db := (scheduled (threeMonths 300)).2 }
  place _ := .idle

theorem start_fresh : Fresh start where
  rows := by decide +kernel
  idle _ := rfl
  posted := rfl

/-- A sweep up to the entry of its first period. -/
def entering (n seed : ℕ) : List (ℕ × Action) :=
  [(n, .sweep (sweep seed).today owner), (n, .check), (n, .create (request seed))]

theorem entering_undisturbed (m : ℕ) :
    ∀ q ∈ ((Runs.exec (step nearest) start ((entering 0 2).take 2)).place m).entered, False := by
  intro q hq
  by_cases hm : m = 0
  · rw [hm] at hq
    revert q
    decide +kernel
  · rw [show (Runs.exec (step nearest) start ((entering 0 2).take 2)).place m = .idle from
      (Function.update_of_ne hm _ _).trans (Function.update_of_ne hm _ _)] at hq
    cases hq

end Sample

/-- A sweep that stops after its entry, or is slow to record it, and another one. -/
theorem stopped_not_postedOnce :
    Fresh Sample.start ∧
      ¬ PostedOnce (Runs.exec (step nearest) Sample.start
        (Sample.entering 0 2 ++ Sample.entering 1 3)).shared := by
  refine ⟨Sample.start_fresh, fun h => ?_⟩
  exact absurd (h ⟨Sample.scheduleId, 1⟩) (by decide +kernel)

/-- A sweep alone. -/
theorem postedOnce_of_undisturbed_alone :
    PostedOnce (Runs.exec (step nearest) Sample.start
      (Sample.entering 0 2 ++ [(0, .record)])).shared := by
  have hcalm : Runs.Meets (step nearest) Undisturbed Sample.start
      (Sample.entering 0 2 ++ [(0, .record)]) := by
    refine ⟨trivial, trivial, fun p hp => ⟨?_, fun m q hq => ?_⟩, trivial, trivial⟩
    · revert p
      decide +kernel
    · exact (Sample.entering_undisturbed m q hq).elim
  exact postedOnce_of_undisturbed Sample.start_fresh hcalm _ (Runs.exec_mem_visited _ _)

end OpenAccounting.Amortization
