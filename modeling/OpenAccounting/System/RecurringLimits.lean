import OpenAccounting.Handlers.RecurringJournals
import OpenAccounting.System.JournalOps

/-!
# The limits of recurring journals

Any sequence of `run_due`, `preview` and `skip`.  `run_due` creates one run for a period at most,
and none after the end of the template, whatever comes before it.  It reads the occurrence cap of a
template once and then catches up on as many as twelve periods, so it keeps to the cap exactly when
no template that is below its cap has more periods to catch up on than are left
(`limits_kept_iff`).
-/

namespace OpenAccounting.RecurringJournals

open Calendar Commit

/-! ## Periods to catch up on -/

/-- The periods of a catch-up from this one on, with the turns that are left. -/
def duePeriods (today : NaiveDate) (t : RecurringJournalTemplate) :
    ℕ → NaiveDate → List NaiveDate
  | 0, _ => []
  | turns + 1, period =>
    if Beyond today t period then []
    else period :: match advancePeriod period t.frequency with
      | some next => duePeriods today t turns next
      | none => []

/-- Those of them that have no run. -/
def missing (db : Db) (today : NaiveDate) (t : RecurringJournalTemplate) : List NaiveDate :=
  ((duePeriods today t 12 t.nextPeriod).filter fun period =>
    ¬ HasRun db t.id (periodKey period)).dedup

theorem periodKey_injective : Function.Injective periodKey := by
  intro a b h
  have hparsed := congrArg NaiveDate.parseYmd h
  rw [periodKey, periodKey, NaiveDate.parseYmd_display, NaiveDate.parseYmd_display] at hparsed
  exact Option.some.inj hparsed

theorem not_beyond_of_mem {today : NaiveDate} {t : RecurringJournalTemplate} {turns : ℕ}
    {start period : NaiveDate} (h : period ∈ duePeriods today t turns start) :
    ¬ Beyond today t period := by
  induction turns generalizing start with
  | zero => cases h
  | succ turns ih =>
    rw [duePeriods] at h
    split at h
    · cases h
    · rename_i hstart
      rcases List.mem_cons.mp h with rfl | h
      · exact hstart
      · split at h
        · exact ih h
        · cases h

/-! ## The catch-up of a template -/

/-- The rows are previews of missing periods of a template. -/
structure CaughtUp (db db' : Db) (t : RecurringJournalTemplate) (periods : List NaiveDate)
    (answered : Prop) (rows : List RecurringJournalRun) : Prop where
  inserted : Inserted db db' rows
  preview : ∀ r ∈ rows, r.templateId = t.id ∧ r.status = .preview ∧
    ∃ period ∈ periods, r.periodKey = periodKey period
  done : answered → ∀ period ∈ periods, HasRun db' t.id (periodKey period)

/-- The loop over the periods inserts previews of missing ones, and if it succeeds of all. -/
theorem catchUp_spec (fire : Fire) (ledger actor : Uuid) (t : RecurringJournalTemplate) :
    ∀ (turns : ℕ) (period : NaiveDate) (generated : ℕ) (db : Db),
    ∃ rows, CaughtUp db (catchUp fire ledger actor t turns period generated db).2 t
      (duePeriods fire.today t turns period)
      ((catchUp fire ledger actor t turns period generated db).1.isOk = true) rows
  | 0, _, _, _ => ⟨[], Inserted.refl, List.forall_mem_nil _, fun _ => List.forall_mem_nil _⟩
  | turns + 1, period, generated, db => by
    rw [catchUp, duePeriods]
    split
    · exact ⟨[], Inserted.refl, List.forall_mem_nil _, fun _ => List.forall_mem_nil _⟩
    · obtain ⟨rows, hfirst⟩ := handlePeriod_spec fire ledger actor t db period
      generalize handlePeriod fire ledger actor t db period = handled at hfirst ⊢
      obtain ⟨answer, db₁⟩ := handled
      have hrows : ∀ later : List NaiveDate, ∀ r ∈ rows, r.templateId = t.id ∧
          r.status = .preview ∧ ∃ p ∈ period :: later, r.periodKey = periodKey p := by
        intro later r hr
        obtain ⟨htemplate, hkey, hpreview⟩ := hfirst.preview r hr
        exact ⟨htemplate, hpreview, period, List.mem_cons_self, hkey⟩
      cases answer with
      | error e =>
        exact ⟨rows, hfirst.inserted, hrows _, fun h => by cases h⟩
      | ok created =>
        dsimp only
        cases advancePeriod period t.frequency with
        | none =>
          exact ⟨rows, hfirst.inserted, hrows _, fun h => by cases h⟩
        | some next =>
          dsimp only
          obtain ⟨later, hlater⟩ := catchUp_spec fire ledger actor t turns next
            (if created then generated + 1 else generated) db₁
          refine ⟨rows ++ later, hfirst.inserted.trans hlater.inserted, ?_, ?_⟩
          · refine List.forall_mem_append.mpr ⟨hrows _, fun r hr => ?_⟩
            obtain ⟨htemplate, hpreview, p, hp, hkey⟩ := hlater.preview r hr
            exact ⟨htemplate, hpreview, p, List.mem_cons_of_mem _ hp, hkey⟩
          · intro hok
            refine List.forall_mem_cons.mpr ⟨?_, hlater.done hok⟩
            exact hlater.inserted.hasRun_iff.mpr (Or.inl (hfirst.done rfl))

/-! ## A call of `run_due` -/

/-- The new runs of a template that are not skipped. -/
def ownRows (template : Uuid) (rows : List RecurringJournalRun) : List RecurringJournalRun :=
  rows.filter fun r => r.templateId = template ∧ r.status ≠ .skipped

/-- The rows are previews of missing periods of templates that are below their caps. -/
structure Ran (db db' : Db) (today : NaiveDate) (ts : List RecurringJournalTemplate)
    (answered : Prop) (rows : List RecurringJournalRun) : Prop where
  inserted : Inserted db db' rows
  due : ∀ r ∈ rows, r.status = .preview ∧ ∃ t ∈ ts, r.templateId = t.id ∧ ¬ CapReached db t ∧
    ∃ period ∈ duePeriods today t 12 t.nextPeriod, r.periodKey = periodKey period
  done : answered → ∀ t ∈ ts, ¬ CapReached db t →
    ∀ period ∈ duePeriods today t 12 t.nextPeriod, HasRun db' t.id (periodKey period)

section

variable {db db' : Db} {rows : List RecurringJournalRun} {today : NaiveDate}
  {t : RecurringJournalTemplate} {ts : List RecurringJournalTemplate} {answered : Prop}

theorem Inserted.nonSkipped_eq (h : Inserted db db' rows) (template : Uuid) :
    nonSkipped db' template = nonSkipped db template + (ownRows template rows).length := by
  rw [nonSkipped, h.runs, List.filter_append, List.length_append]
  rfl

theorem Inserted.capReached_iff (h : Inserted db db' rows)
    (hother : ∀ r ∈ rows, r.templateId ≠ t.id) : CapReached db' t ↔ CapReached db t := by
  have hnone : ownRows t.id rows = [] := by
    rw [ownRows, List.filter_eq_nil_iff]
    exact fun r hr hown => hother r hr (of_decide_eq_true hown).1
  rw [CapReached, CapReached, h.nonSkipped_eq, hnone, List.length_nil, Nat.add_zero]

theorem CaughtUp.setNextPeriod {periods : List NaiveDate} {next : NaiveDate}
    (h : CaughtUp db db' t periods answered rows) :
    CaughtUp db (setNextPeriod db' t.id next) t periods answered rows where
  inserted := by simpa using h.inserted.trans (inserted_setNextPeriod next)
  preview := h.preview
  done := fun hok period hperiod =>
    (inserted_setNextPeriod next).hasRun_iff.mpr (Or.inl (h.done hok period hperiod))

theorem Ran.nil (db : Db) : Ran db db today [] answered [] where
  inserted := Inserted.refl
  due := List.forall_mem_nil _
  done := fun _ => List.forall_mem_nil _

theorem Ran.skip (h : Ran db db' today ts answered rows) (hcap : CapReached db t) :
    Ran db db' today (t :: ts) answered rows where
  inserted := h.inserted
  due := by
    intro r hr
    obtain ⟨hpreview, t', ht', hrow⟩ := h.due r hr
    exact ⟨hpreview, t', List.mem_cons_of_mem _ ht', hrow⟩
  done := fun hok => List.forall_mem_cons.mpr ⟨fun hnot => absurd hcap hnot, h.done hok⟩

theorem Ran.cons {db₁ : Db} {first : List RecurringJournalRun} {caught : Prop}
    (hcap : ¬ CapReached db t) (hids : ∀ t' ∈ ts, t'.id ≠ t.id)
    (hfirst : CaughtUp db db₁ t (duePeriods today t 12 t.nextPeriod) caught first)
    (hcaught : answered → caught) (h : Ran db₁ db' today ts answered rows) :
    Ran db db' today (t :: ts) answered (first ++ rows) := by
  have hsame : ∀ t' ∈ ts, (CapReached db₁ t' ↔ CapReached db t') := fun t' ht' =>
    hfirst.inserted.capReached_iff fun r hr heq =>
      hids t' ht' (heq.symm.trans (hfirst.preview r hr).1)
  refine ⟨hfirst.inserted.trans h.inserted, List.forall_mem_append.mpr ⟨?_, ?_⟩, fun hok =>
    List.forall_mem_cons.mpr ⟨?_, ?_⟩⟩
  · intro r hr
    obtain ⟨htemplate, hpreview, hperiod⟩ := hfirst.preview r hr
    exact ⟨hpreview, t, List.mem_cons_self, htemplate, hcap, hperiod⟩
  · intro r hr
    obtain ⟨hpreview, t', ht', htemplate, hbelow, hperiod⟩ := h.due r hr
    exact ⟨hpreview, t', List.mem_cons_of_mem _ ht', htemplate,
      fun hreached => hbelow ((hsame t' ht').mpr hreached), hperiod⟩
  · intro _ period hperiod
    exact h.inserted.hasRun_iff.mpr (Or.inl (hfirst.done (hcaught hok) period hperiod))
  · exact fun t' ht' hbelow => h.done hok t' ht' fun hreached => hbelow ((hsame t' ht').mp hreached)

/-- The loop over the templates does so for those below their caps. -/
theorem runAll_spec {fire : Fire} {ledger actor : Uuid} :
    ∀ {ts : List RecurringJournalTemplate} (generated : ℕ) (db : Db),
      (ts.map RecurringJournalTemplate.id).Nodup →
      ∃ rows, Ran db (runAll fire ledger actor ts generated db).2 fire.today ts
        ((runAll fire ledger actor ts generated db).1.isOk = true) rows
  | [], _, db, _ => ⟨[], Ran.nil db⟩
  | t :: ts, generated, db, hids => by
    rw [List.map_cons, List.nodup_cons] at hids
    have hother : ∀ t' ∈ ts, t'.id ≠ t.id := fun t' ht' heq =>
      hids.1 (List.mem_map.mpr ⟨t', ht', heq⟩)
    rw [runAll]
    split
    · rename_i hcap
      obtain ⟨rows, h⟩ := runAll_spec generated db hids.2
      exact ⟨rows, h.skip hcap⟩
    · rename_i hcap
      obtain ⟨first, hfirst⟩ := catchUp_spec fire ledger actor t 12 t.nextPeriod generated db
      generalize catchUp fire ledger actor t 12 t.nextPeriod generated db = caught at hfirst ⊢
      obtain ⟨answer, db₁⟩ := caught
      cases answer with
      | error e =>
        refine ⟨_, Ran.cons hcap hother hfirst id ⟨Inserted.refl, List.forall_mem_nil _, ?_⟩⟩
        exact fun h => by cases h
      | ok reached =>
        obtain ⟨period, generated⟩ := reached
        obtain ⟨rows, h⟩ := runAll_spec generated (setNextPeriod db₁ t.id period) hids.2
        exact ⟨_, Ran.cons hcap hother hfirst.setNextPeriod (fun _ => rfl) h⟩

theorem template_ext {t' : RecurringJournalTemplate}
    (hids : (ts.map RecurringJournalTemplate.id).Nodup) (ht : t ∈ ts) (ht' : t' ∈ ts)
    (h : t.id = t'.id) : t = t' :=
  List.inj_on_of_nodup_map hids ht ht' h

theorem Ran.mem_missing (h : Ran db db' today ts answered rows)
    (hids : (ts.map RecurringJournalTemplate.id).Nodup) (ht : t ∈ ts) :
    ∀ r ∈ ownRows t.id rows, ∃ period ∈ missing db today t, periodKey period = r.periodKey := by
  intro r hr
  obtain ⟨hr, hown⟩ := List.mem_filter.mp hr
  obtain ⟨htemplate, -⟩ := of_decide_eq_true hown
  obtain ⟨-, t', ht', hid, -, period, hperiod, hkey⟩ := h.due r hr
  obtain rfl := template_ext hids ht ht' (htemplate.symm.trans hid)
  refine ⟨period, ?_, hkey.symm⟩
  rw [missing, List.mem_dedup, List.mem_filter, decide_eq_true_eq, ← hkey, ← htemplate]
  exact ⟨hperiod, h.inserted.fresh r hr⟩

theorem Ran.nodup_keys (h : Ran db db' today ts answered rows) (template : Uuid) :
    ((ownRows template rows).map RecurringJournalRun.periodKey).Nodup := by
  have hdistinct : ((ownRows template rows).map runKey).Nodup :=
    h.inserted.distinct.sublist (List.filter_sublist.map runKey)
  have hkeys : (ownRows template rows).map runKey =
      ((ownRows template rows).map RecurringJournalRun.periodKey).map (Prod.mk template) := by
    rw [List.map_map]
    refine List.map_congr_left fun r hr => ?_
    rw [runKey, (of_decide_eq_true (List.mem_filter.mp hr).2).1, Function.comp_apply]
  rw [hkeys] at hdistinct
  exact hdistinct.of_map

theorem Ran.length_le (h : Ran db db' today ts answered rows)
    (hids : (ts.map RecurringJournalTemplate.id).Nodup) (ht : t ∈ ts) :
    (ownRows t.id rows).length ≤ (missing db today t).length := by
  have hsub : (ownRows t.id rows).map RecurringJournalRun.periodKey ⊆
      (missing db today t).map periodKey := by
    intro key hkey
    obtain ⟨r, hr, rfl⟩ := List.mem_map.mp hkey
    obtain ⟨period, hperiod, hkey⟩ := h.mem_missing hids ht r hr
    exact List.mem_map.mpr ⟨period, hperiod, hkey⟩
  have hle := (List.subperm_of_subset (h.nodup_keys t.id) hsub).length_le
  rwa [List.length_map, List.length_map] at hle

theorem Ran.length_eq (h : Ran db db' today ts answered rows)
    (hids : (ts.map RecurringJournalTemplate.id).Nodup) (ht : t ∈ ts) (hcap : ¬ CapReached db t)
    (hok : answered) : (ownRows t.id rows).length = (missing db today t).length := by
  refine le_antisymm (h.length_le hids ht) ?_
  have hnodup : ((missing db today t).map periodKey).Nodup :=
    (List.nodup_dedup _).map periodKey_injective
  have hsub : (missing db today t).map periodKey ⊆
      (ownRows t.id rows).map RecurringJournalRun.periodKey := by
    intro key hkey
    obtain ⟨period, hperiod, rfl⟩ := List.mem_map.mp hkey
    rw [missing, List.mem_dedup, List.mem_filter, decide_eq_true_eq] at hperiod
    obtain ⟨r, hr, hrow⟩ := List.mem_map.mp
      ((h.inserted.hasRun_iff.mp (h.done hok t ht hcap period hperiod.1)).resolve_left hperiod.2)
    obtain ⟨htemplate, hkey⟩ := Prod.mk.inj hrow
    refine List.mem_map.mpr ⟨r, List.mem_filter.mpr ⟨hr, ?_⟩, hkey⟩
    rw [decide_eq_true_eq, (h.due r hr).1]
    exact ⟨htemplate, by decide⟩
  have hle := (List.subperm_of_subset hnodup hsub).length_le
  rwa [List.length_map, List.length_map] at hle

theorem runDue_spec (db : Db) (fire : Fire) (auth : Option Uuid) (ledger : Uuid)
    (hids : (db.recurringJournalTemplates.map RecurringJournalTemplate.id).Nodup) :
    ∃ rows, Ran db (runDue db fire auth ledger).2 fire.today (dueTemplates db ledger fire.today)
      ((runDue db fire auth ledger).1.isOk = true) rows := by
  unfold runDue
  cases authorize db auth ledger with
  | error e => exact ⟨[], Inserted.refl, List.forall_mem_nil _, fun h => by cases h⟩
  | ok user => exact runAll_spec 0 db (hids.sublist (List.filter_sublist.map _))

end

/-! ## Sequences of calls -/

inductive Call where
  | runDue (fire : Fire) (auth : Option Uuid) (ledger : Uuid)
  | preview (req : Request) (auth : Option Uuid) (ledger template : Uuid) (period : Option String)
  | skip (req : Request) (auth : Option Uuid) (ledger template : Uuid) (period : String)

/-- A run that `run_due` created, with the non-skipped runs of its template after the call. -/
structure Created where
  run : RecurringJournalRun
  count : ℕ

/-- The database, and the runs that `run_due` has created in it. -/
structure State where
  db : Db
  created : List Created := []

/-- The runs that a call has inserted. -/
def newRuns (db db' : Db) : List RecurringJournalRun :=
  db'.recurringJournalRuns.drop db.recurringJournalRuns.length

/-- What `run_due` leaves behind. -/
def fired (s : State) (fire : Fire) (auth : Option Uuid) (ledger : Uuid) : State :=
  let db := (runDue s.db fire auth ledger).2
  { db := db
    created := s.created ++ (newRuns s.db db).map fun r => ⟨r, nonSkipped db r.templateId⟩ }

/-- The next call is made. -/
def step (parseDate : String → Option NaiveDate) (s : State) : Call → State
  | .runDue fire auth ledger => fired s fire auth ledger
  | .preview req auth ledger template period =>
    { s with db := (preview parseDate s.db req auth ledger template period).2 }
  | .skip req auth ledger template period =>
    { s with db := (skip parseDate s.db req auth ledger template period).2 }

/-- Before the first call. -/
def start (db : Db) : State where
  db := db

/-! ## Limits -/

/-- One run for a period at most, and none after the end of its template. -/
structure WithinPeriods (s : State) : Prop where
  once : (s.created.map fun c => runKey c.run).Nodup
  ended : ∀ c ∈ s.created, ∀ t ∈ s.db.recurringJournalTemplates, t.id = c.run.templateId →
    ∃ period, c.run.periodKey = periodKey period ∧ ∀ e ∈ t.endDate, period ≤ e

/-- No template has been taken past its cap. -/
def WithinCaps (s : State) : Prop :=
  ∀ c ∈ s.created, ∀ t ∈ s.db.recurringJournalTemplates, t.id = c.run.templateId →
    ∀ n ∈ t.maxOccurrences, (c.count : ℤ) ≤ n

/-- The limits of every template. -/
structure LimitsKept (s : State) : Prop extends WithinPeriods s where
  capped : WithinCaps s

/-- A due template that is below its cap has no more periods missing than are left. -/
def CapFits (s : State) : Call → Prop
  | .runDue fire _ ledger =>
    ∀ t ∈ dueTemplates s.db ledger fire.today, ∀ n ∈ t.maxOccurrences,
      (nonSkipped s.db t.id : ℤ) < n →
        (nonSkipped s.db t.id : ℤ) + (missing s.db fire.today t).length ≤ n
  | _ => True

instance (s : State) (call : Call) : Decidable (CapFits s call) := by
  cases call with
  | runDue fire auth ledger => exact List.decidableBAll _ _
  | preview | skip => exact .isTrue trivial

/-- The call does not fail half way. -/
def Answered (s : State) : Call → Prop
  | .runDue fire auth ledger => (runDue s.db fire auth ledger).1.isOk = true
  | _ => True

/-! ## What every call keeps -/

/-- The created runs are stored, and templates are known by their ids. -/
structure Known (s : State) : Prop extends WithinPeriods s where
  ids : (s.db.recurringJournalTemplates.map RecurringJournalTemplate.id).Nodup
  stored : ∀ c ∈ s.created, HasRun s.db c.run.templateId c.run.periodKey

section

variable {s : State} {db' : Db} {rows : List RecurringJournalRun}

theorem Inserted.newRuns_eq {db : Db} (h : Inserted db db' rows) : newRuns db db' = rows := by
  rw [newRuns, h.runs, List.drop_left]

theorem exists_of_map_limits {ts ts' : List RecurringJournalTemplate}
    (h : ts.map limits = ts'.map limits) {t : RecurringJournalTemplate} (ht : t ∈ ts) :
    ∃ t' ∈ ts', t'.id = t.id ∧ t'.endDate = t.endDate ∧ t'.maxOccurrences = t.maxOccurrences := by
  have hmem : limits t ∈ ts'.map limits := by
    rw [← h]
    exact List.mem_map_of_mem ht
  obtain ⟨t', ht', heq⟩ := List.mem_map.mp hmem
  obtain ⟨hid, hrest⟩ := Prod.mk.inj heq
  exact ⟨t', ht', hid, Prod.mk.inj hrest⟩

theorem Inserted.map_id {db : Db} (h : Inserted db db' rows) :
    db'.recurringJournalTemplates.map RecurringJournalTemplate.id =
      db.recurringJournalTemplates.map RecurringJournalTemplate.id := by
  have hids := congrArg (List.map Prod.fst) h.limits
  rwa [List.map_map, List.map_map] at hids

theorem Known.of_inserted (hs : Known s) (h : Inserted s.db db' rows) :
    Known { s with db := db' } where
  once := hs.once
  ended := by
    intro c hc t' ht' hid
    obtain ⟨t, ht, htid, hend, -⟩ := exists_of_map_limits h.limits ht'
    obtain ⟨period, hkey, hle⟩ := hs.ended c hc t ht (htid.trans hid)
    exact ⟨period, hkey, by rwa [← hend]⟩
  ids := by
    show (db'.recurringJournalTemplates.map _).Nodup
    rw [h.map_id]
    exact hs.ids
  stored := fun c hc => h.hasRun_iff.mpr (Or.inl (hs.stored c hc))

theorem WithinCaps.of_inserted (hs : WithinCaps s) (h : Inserted s.db db' rows) :
    WithinCaps { s with db := db' } := by
  intro c hc t' ht' hid n hn
  obtain ⟨t, ht, htid, -, hmax⟩ := exists_of_map_limits h.limits ht'
  exact hs c hc t ht (htid.trans hid) n (by rwa [hmax])

end

section

variable {s : State} {fire : Fire} {auth : Option Uuid} {ledger : Uuid}

theorem fired_cases (fire : Fire) (auth : Option Uuid) (ledger : Uuid) (hs : Known s) : ∃ rows,
    Ran s.db (fired s fire auth ledger).db fire.today (dueTemplates s.db ledger fire.today)
        (Answered s (.runDue fire auth ledger)) rows ∧
      (fired s fire auth ledger).created = s.created ++ rows.map fun r =>
        ⟨r, nonSkipped (fired s fire auth ledger).db r.templateId⟩ := by
  obtain ⟨rows, hran⟩ := runDue_spec s.db fire auth ledger hs.ids
  refine ⟨rows, hran, ?_⟩
  rw [fired]
  dsimp only
  rw [hran.inserted.newRuns_eq]

theorem Known.fired (hs : Known s) : Known (fired s fire auth ledger) := by
  obtain ⟨rows, hran, hcreated⟩ := fired_cases fire auth ledger hs
  have hold := hs.of_inserted hran.inserted
  refine ⟨⟨?_, ?_⟩, hold.ids, ?_⟩
  · rw [hcreated, List.map_append, List.map_map, List.nodup_append]
    refine ⟨hs.once, hran.inserted.distinct, ?_⟩
    rintro key hkey _ hnew rfl
    -- The runs created before are stored, and the new ones are not.
    obtain ⟨c, hc, rfl⟩ := List.mem_map.mp hkey
    obtain ⟨r, hr, hrow⟩ := List.mem_map.mp hnew
    obtain ⟨htemplate, hperiod⟩ := Prod.mk.inj hrow
    refine hran.inserted.fresh r hr ?_
    rw [htemplate, hperiod]
    exact hs.stored c hc
  · rw [hcreated]
    refine List.forall_mem_append.mpr ⟨hold.ended, List.forall_mem_map.mpr ?_⟩
    intro r hr t' ht' hid
    obtain ⟨t, ht, htid, hend, -⟩ := exists_of_map_limits hran.inserted.limits ht'
    obtain ⟨-, due, hdue, hown, -, period, hperiod, hkey⟩ := hran.due r hr
    obtain rfl := template_ext hs.ids ht (List.mem_of_mem_filter hdue)
      (htid.trans (hid.trans hown))
    refine ⟨period, hkey, fun e he => ?_⟩
    rw [← hend] at he
    exact not_lt.mp fun hlt => not_beyond_of_mem hperiod (Or.inr ⟨e, he, hlt⟩)
  · rw [hcreated]
    refine List.forall_mem_append.mpr ⟨hold.stored, List.forall_mem_map.mpr fun r hr => ?_⟩
    exact hran.inserted.hasRun_iff.mpr (Or.inr (List.mem_map_of_mem hr))

theorem WithinCaps.fired (hs : Known s) (hcaps : WithinCaps s)
    (hfits : CapFits s (.runDue fire auth ledger)) : WithinCaps (fired s fire auth ledger) := by
  obtain ⟨rows, hran, hcreated⟩ := fired_cases fire auth ledger hs
  intro c hc
  rw [hcreated] at hc
  rcases List.mem_append.mp hc with hc | hc
  · exact hcaps.of_inserted hran.inserted c hc
  · obtain ⟨r, hr, rfl⟩ := List.mem_map.mp hc
    intro t' ht' hid n hn
    obtain ⟨t, ht, htid, -, hmax⟩ := exists_of_map_limits hran.inserted.limits ht'
    obtain ⟨-, due, hdue, hown, hbelow, -⟩ := hran.due r hr
    obtain rfl := template_ext hs.ids ht (List.mem_of_mem_filter hdue)
      (htid.trans (hid.trans hown))
    rw [← hmax] at hn
    have hlt : (nonSkipped s.db t.id : ℤ) < n := not_le.mp fun hle => hbelow ⟨n, hn, hle⟩
    have hle := hran.length_le (hs.ids.sublist (List.filter_sublist.map _)) hdue
    have hleft := hfits t hdue n hn hlt
    rw [hown, hran.inserted.nonSkipped_eq]
    show ((nonSkipped s.db t.id + (ownRows t.id rows).length : ℕ) : ℤ) ≤ n
    omega

theorem capFits_of_fired (hs : Known s) (hok : Answered s (.runDue fire auth ledger))
    (hcaps : WithinCaps (fired s fire auth ledger)) : CapFits s (.runDue fire auth ledger) := by
  obtain ⟨rows, hran, hcreated⟩ := fired_cases fire auth ledger hs
  intro t ht n hn hlt
  have hbelow : ¬ CapReached s.db t := by
    rintro ⟨cap, hcap, hle⟩
    obtain rfl := Option.mem_unique hcap hn
    exact absurd hle (not_le.mpr hlt)
  have hlen := hran.length_eq (hs.ids.sublist (List.filter_sublist.map _)) ht hbelow hok
  cases hrows : ownRows t.id rows with
  | nil =>
    rw [hrows, List.length_nil] at hlen
    rw [← hlen]
    exact (add_zero _).trans_le hlt.le
  | cons r others =>
    have hr : r ∈ ownRows t.id rows := by
      rw [hrows]
      exact List.mem_cons_self
    obtain ⟨hr, hown⟩ := List.mem_filter.mp hr
    obtain ⟨htemplate, -⟩ := of_decide_eq_true hown
    obtain ⟨t', ht', htid, -, hmax⟩ := exists_of_map_limits
      hran.inserted.limits.symm (List.mem_of_mem_filter ht)
    have hcount := hcaps ⟨r, nonSkipped (fired s fire auth ledger).db r.templateId⟩ (by
      rw [hcreated]
      exact List.mem_append_right _ (List.mem_map_of_mem hr)) t' ht' (htid.trans htemplate.symm) n
        (by rwa [hmax])
    rw [htemplate, hran.inserted.nonSkipped_eq, hlen] at hcount
    exact_mod_cast hcount

end

section

variable {parseDate : String → Option NaiveDate} {s : State}

theorem Known.step (hs : Known s) (call : Call) : Known (step parseDate s call) := by
  cases call with
  | runDue fire auth ledger => exact hs.fired
  | preview req auth ledger template period =>
    obtain ⟨rows, h⟩ := preview_spec parseDate s.db req auth ledger template period
    exact hs.of_inserted h
  | skip req auth ledger template period =>
    obtain ⟨rows, h⟩ := skip_spec parseDate s.db req auth ledger template period
    exact hs.of_inserted h

theorem WithinCaps.step (hs : Known s) (hcaps : WithinCaps s) {call : Call}
    (hfits : CapFits s call) : WithinCaps (step parseDate s call) := by
  cases call with
  | runDue fire auth ledger => exact hcaps.fired hs hfits
  | preview req auth ledger template period =>
    obtain ⟨rows, h⟩ := preview_spec parseDate s.db req auth ledger template period
    exact hcaps.of_inserted h
  | skip req auth ledger template period =>
    obtain ⟨rows, h⟩ := skip_spec parseDate s.db req auth ledger template period
    exact hcaps.of_inserted h

theorem capFits_of_step (hs : Known s) {call : Call} (hok : Answered s call)
    (hcaps : WithinCaps (RecurringJournals.step parseDate s call)) : CapFits s call := by
  cases call with
  | runDue fire auth ledger => exact capFits_of_fired hs hok hcaps
  | preview => trivial
  | skip => trivial

theorem known_start {db : Db}
    (hids : (db.recurringJournalTemplates.map RecurringJournalTemplate.id).Nodup) :
    Known (start db) where
  once := List.nodup_nil
  ended := List.forall_mem_nil _
  ids := hids
  stored := List.forall_mem_nil _

end

/-- The periods are kept to in every sequence of calls.  The caps are kept to while they fit, and,
where every call of `run_due` is answered, only then. -/
theorem limits_kept_iff {parseDate : String → Option NaiveDate} {db : Db}
    (hids : (db.recurringJournalTemplates.map RecurringJournalTemplate.id).Nodup)
    (calls : List Call) :
    (∀ s ∈ Runs.visited (step parseDate) (start db) calls, WithinPeriods s) ∧
      (Runs.Meets (step parseDate) CapFits (start db) calls →
        ∀ s ∈ Runs.visited (step parseDate) (start db) calls, LimitsKept s) ∧
      (Runs.Meets (step parseDate) Answered (start db) calls →
        ((∀ s ∈ Runs.visited (step parseDate) (start db) calls, LimitsKept s) ↔
          Runs.Meets (step parseDate) CapFits (start db) calls)) := by
  have hknown : Known (start db) := known_start hids
  have hcapped : WithinCaps (start db) := List.forall_mem_nil _
  refine ⟨fun s hs => ?_, fun hmeets s hs => ?_, fun hmeets => ?_⟩
  · exact (Runs.invariant (fun _ call hs => hs.step call) calls hknown s hs).toWithinPeriods
  · have hboth := Runs.invariant_of_meets (P := fun s => Known s ∧ WithinCaps s)
      (fun _ call h hfits => ⟨h.1.step call, h.2.step h.1 hfits⟩) ⟨hknown, hcapped⟩ hmeets s hs
    exact ⟨hboth.1.toWithinPeriods, hboth.2⟩
  · refine Runs.forall_visited_iff_meets_of_meets (Q := Known) (fun _ call hs _ _ => hs.step call)
      (fun _ call hs hkept hok => ⟨fun h => capFits_of_step hs hok h.capped, fun hfits => ?_⟩)
      hknown ⟨hknown.toWithinPeriods, hcapped⟩ hmeets
    exact ⟨(hs.step call).toWithinPeriods, hkept.capped.step hs hfits⟩

namespace Sample

open OpenAccounting.Sample

/-- A weekly template from 1 March on. -/
def weekly (cap : ℤ) : RecurringJournalTemplate where
  id := 41
  ledgerId := ledgerId
  name := "Takings"
  frequency := "weekly"
  maxOccurrences := some cap
  nextPeriod := march 1

/-- The sample ledger with the template. -/
def db (cap : ℤ) : Db :=
  { OpenAccounting.Sample.db with
    recurringJournalTemplates := [weekly cap]
    recurringJournalLines :=
      [{ templateId := 41, accountId := cash, direction := .debit, amount := 100 },
       { templateId := 41, accountId := sales, direction := .credit, amount := 100 }] }

/-- The owner's call of `run_due` on 15 March, when three weeks are due. -/
def fireWeekly : Call :=
  .runDue { today := march 15, draw := fun _ period => request period.day } (some owner) ledgerId

/-- The owner skips the second week. -/
def skipSecond : Call := .skip (request 20) (some owner) ledgerId 41 " 2026-03-08 "

end Sample

/-- A template with one occurrence gets three. -/
theorem weekly_exceeds : ¬ ∀ s ∈ Runs.visited (step NaiveDate.parseYmd) (start (Sample.db 1))
    [Sample.fireWeekly], LimitsKept s := by
  intro h
  have hover : ∃ c ∈ (Runs.exec (step NaiveDate.parseYmd) (start (Sample.db 1))
        [Sample.fireWeekly]).created,
      ∃ t ∈ (Runs.exec (step NaiveDate.parseYmd) (start (Sample.db 1))
        [Sample.fireWeekly]).db.recurringJournalTemplates,
        t.id = c.run.templateId ∧ ∃ n ∈ t.maxOccurrences, n < (c.count : ℤ) := by
    decide +kernel
  obtain ⟨c, hc, t, ht, hid, n, hn, hlt⟩ := hover
  exact absurd ((h _ (Runs.exec_mem_visited _ _)).capped c hc t ht hid n hn) (not_le.mpr hlt)

/-- Two occurrences are enough for three weeks of which one is skipped. -/
theorem limits_kept_iff_weekly : LimitsKept (Runs.exec (step NaiveDate.parseYmd)
    (start (Sample.db 2)) [Sample.skipSecond, Sample.fireWeekly, Sample.fireWeekly]) :=
  (limits_kept_iff (by decide) _).2.1 (by decide +kernel) _ (Runs.exec_mem_visited _ _)

end OpenAccounting.RecurringJournals
