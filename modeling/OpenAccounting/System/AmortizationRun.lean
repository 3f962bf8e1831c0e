import OpenAccounting.Handlers.Amortization
import OpenAccounting.Lib.Runs

/-!
# The run of a schedule

A schedule that `create` has written is posted by sweeps, one after the other.  `Progress` is what
the database says of it after `k` periods.  A sweep posts the next period or leaves the schedule
alone, so in every run the schedule stands at some period, with one entry for each earlier one
(`Progress.runSweeps`).
-/

namespace OpenAccounting.Amortization

open Calendar Rounding

def Shared.entriesOf (sh : Shared) (schedule : Uuid) : List Entry :=
  sh.posted.filter fun e => e.schedule = schedule

def txnDateOf (b : Books) (txn : Uuid) : Option NaiveDate := (b.header txn).map Header.txnDate

def amountOf (b : Books) (txn : Uuid) : ℚ := Posting.sumOn .debit (b.postingsOf txn)

/-- The date of the period after the first `k`. -/
def dateAfter (start : NaiveDate) : ℕ → NaiveDate
  | 0 => start
  | k + 1 => advance (dateAfter start k) "monthly" 1

/-- What the entry of the period after the first `j` is. -/
def expected (d : Decimal.Arith) (s₀ : AmortizationSchedule) (j : ℕ) : ℤ × Option NaiveDate × ℚ :=
  (j + 1, some (dateAfter s₀.startDate j),
    roundDp 4 |periodAmount d s₀.totalAmount s₀.periods (j + 1)|)

/-- What the journal says of an entry. -/
def seen (b : Books) (e : Entry) : ℤ × Option NaiveDate × ℚ :=
  (e.number, txnDateOf b e.txn, amountOf b e.txn)

/-- The row of a schedule after `k` periods. -/
def rowAfter (s₀ : AmortizationSchedule) (k : ℕ) : AmortizationSchedule :=
  { s₀ with postedPeriods := k, nextPostDate := dateAfter s₀.startDate k }

/-- The schedule stands after its first `k` periods. -/
structure Progress (d : Decimal.Arith) (s₀ : AmortizationSchedule) (sh : Shared) (k : ℕ) : Prop where
  ids : (sh.db.amortizationSchedules.map AmortizationSchedule.id).Nodup
  row : rowAfter s₀ k ∈ sh.db.amortizationSchedules
  recorded : ∀ n, ⟨s₀.id, n⟩ ∈ sh.db.amortizationPostedPeriods ↔ 1 ≤ n ∧ n ≤ k
  entries : (sh.entriesOf s₀.id).map (seen sh.db.books) = (List.range k).map (expected d s₀)
  booked : ∀ e ∈ sh.posted, e.txn ∈ sh.db.books.txnIds

variable {d : Decimal.Arith} {s₀ : AmortizationSchedule} {k : ℕ}

/-! ## The journal after an entry -/

variable {ps : List Posting} {t : Transaction} {p : Period} {sh : Shared}
  {form : NewAmortizationForm}

theorem seen_of_booked {b b' : Books} {e : Entry} (h : Books.Posts b b' t ps)
    (he : e.txn ∈ b.txnIds) : seen b' e = seen b e := by
  have hne : e.txn ≠ t.id := fun heq => h.fresh (heq ▸ he)
  simp only [seen, txnDateOf, amountOf]
  rw [h.header, if_neg hne, h.postingsOf_of_ne hne]

theorem entriesOf_enter (sh : Shared) (db : Db) (p : Period) (txn schedule : Uuid) :
    (sh.enter db p txn).entriesOf schedule = sh.entriesOf schedule ++
      if p.schedule.id = schedule then [⟨p.schedule.id, p.number, txn⟩] else [] := by
  by_cases h : p.schedule.id = schedule <;> simp [Shared.enter, Shared.entriesOf, h]

theorem moveOn_id (p : Period) (s : AmortizationSchedule) : (moveOn p s).id = s.id := by
  unfold moveOn
  split <;> rfl

theorem moveOn_of_ne {s : AmortizationSchedule} (h : s.id ≠ p.schedule.id) : moveOn p s = s :=
  if_neg h

theorem map_moveOn_ids (p : Period) (rows : List AmortizationSchedule) :
    (rows.map (moveOn p)).map AmortizationSchedule.id = rows.map AmortizationSchedule.id := by
  rw [List.map_map]
  exact List.map_congr_left fun s _ => moveOn_id p s

theorem booked_enter {b' : Books} (hposts : Books.Posts sh.db.books b' t ps)
    (hbooked : ∀ e ∈ sh.posted, e.txn ∈ sh.db.books.txnIds) (db : Db) (p : Period) :
    ∀ e ∈ (sh.enter db p t.id).posted, e.txn ∈ b'.txnIds := by
  intro e he
  rw [hposts.txnIds]
  rcases List.mem_append.mp he with he | he
  · exact List.mem_append_left _ (hbooked e he)
  · rw [List.mem_singleton.mp he]
    exact List.mem_append_right _ (List.mem_singleton_self _)

theorem Progress.seen_posts (h : Progress d s₀ sh k) {b' : Books}
    (hposts : Books.Posts sh.db.books b' t ps) :
    (sh.entriesOf s₀.id).map (seen b') = (List.range k).map (expected d s₀) := by
  rw [← h.entries]
  exact List.map_congr_left fun e he =>
    seen_of_booked hposts (h.booked e (List.mem_of_mem_filter he))

/-! ## A period of another schedule -/

/-- A period of another schedule leaves the progress of this one. -/
theorem Progress.other (h : Progress d s₀ sh k) {db₁ : Db} (hentered : Entered sh.db db₁ p t)
    (hne : p.schedule.id ≠ s₀.id) {db₂ : Db} (hafter : db₂ = db₁ ∨ recordPeriod db₁ p = .ok db₂) :
    Progress d s₀ (sh.enter db₂ p t.id) k := by
  obtain ⟨-, b', ps, hposts, -, rfl⟩ := hentered
  have hbooks : db₂.books = b' := by
    rcases hafter with rfl | hrecord
    · rfl
    · obtain ⟨-, rows, rfl⟩ := recordPeriod_eq_ok hrecord
      rfl
  refine ⟨?_, ?_, fun n => ?_, ?_, ?_⟩
  · rcases hafter with rfl | hrecord
    · exact h.ids
    · obtain ⟨-, rows, rfl⟩ := recordPeriod_eq_ok hrecord
      show ((sh.db.amortizationSchedules.map (moveOn p)).map AmortizationSchedule.id).Nodup
      rw [map_moveOn_ids]
      exact h.ids
  · rcases hafter with rfl | hrecord
    · exact h.row
    · obtain ⟨-, rows, rfl⟩ := recordPeriod_eq_ok hrecord
      exact List.mem_map.mpr ⟨_, h.row, moveOn_of_ne (Ne.symm hne)⟩
  · rcases hafter with rfl | hrecord
    · exact h.recorded n
    · refine ((recordPeriod_eq_ok hrecord).1 _).trans ((or_iff_left fun heq => ?_).trans
        (h.recorded n))
      exact hne (congrArg PostedPeriod.scheduleId heq).symm
  · rw [entriesOf_enter, if_neg hne, List.append_nil]
    show (sh.entriesOf s₀.id).map (seen db₂.books) = _
    rw [hbooks]
    exact h.seen_posts hposts
  · show ∀ e ∈ (sh.enter db₂ p t.id).posted, e.txn ∈ db₂.books.txnIds
    rw [hbooks]
    exact booked_enter hposts h.booked db₂ p

/-! ## A period of the schedule itself -/

theorem Progress.find (h : Progress d s₀ sh k) {row : AmortizationSchedule}
    (hrow : sh.db.amortizationSchedules.find? (fun r => r.id = s₀.id) = some row) :
    row = rowAfter s₀ k := by
  have hid : row.id = s₀.id := by simpa using List.find?_some hrow
  exact List.inj_on_of_nodup_map h.ids (List.mem_of_find?_eq_some hrow) h.row hid

theorem Progress.read (h : Progress d s₀ sh k)
    (hread : readPeriod d sh.db (rowAfter s₀ k) = .ok (some p)) :
    p.schedule = rowAfter s₀ k ∧ p.number = k + 1 ∧ p.txnDate = dateAfter s₀.startDate k ∧
      p.amount = periodAmount d s₀.totalAmount s₀.periods (k + 1) := by
  obtain ⟨-, row, hrow, rfl⟩ := readPeriod_eq_some hread
  rw [h.find hrow]
  exact ⟨rfl, rfl, rfl, rfl⟩

/-- A period of the schedule, entered and recorded, is one step of its progress. -/
theorem Progress.own (h : Progress d s₀ sh k) {db₁ : Db}
    (hread : readPeriod d sh.db (rowAfter s₀ k) = .ok (some p)) (hentered : Entered sh.db db₁ p t)
    {db₂ : Db} (hrecord : recordPeriod db₁ p = .ok db₂) :
    Progress d s₀ (sh.enter db₂ p t.id) (k + 1) := by
  obtain ⟨hschedule, hnumber, hdate, hamount⟩ := h.read hread
  obtain ⟨htxn, b', ps, hposts, hdebit, rfl⟩ := hentered
  obtain ⟨hperiods, rows, rfl⟩ := recordPeriod_eq_ok hrecord
  have hid : p.schedule.id = s₀.id := by rw [hschedule]; rfl
  refine ⟨?_, ?_, fun n => ?_, ?_, ?_⟩
  · show ((sh.db.amortizationSchedules.map (moveOn p)).map AmortizationSchedule.id).Nodup
    rw [map_moveOn_ids]
    exact h.ids
  · refine List.mem_map.mpr ⟨_, h.row, ?_⟩
    rw [moveOn, if_pos (show (rowAfter s₀ k).id = p.schedule.id from hid.symm), hnumber, hdate]
    simp only [rowAfter, computePeriodUnit, dateAfter, Nat.cast_add, Nat.cast_one]
  · refine (hperiods _).trans ?_
    rw [PostedPeriod.mk.injEq, hid, hnumber, eq_self, true_and]
    refine (or_congr_left (h.recorded n)).trans ?_
    omega
  · rw [entriesOf_enter, if_pos hid, List.map_append, List.range_succ, List.map_append]
    show (sh.entriesOf s₀.id).map (seen b') ++ _ = _
    congr 1
    · exact h.seen_posts hposts
    · show [seen b' ⟨p.schedule.id, p.number, t.id⟩] = [expected d s₀ k]
      simp only [seen, expected, txnDateOf, amountOf]
      rw [hposts.header, if_pos rfl, hposts.postingsOf_self, hdebit, hamount, hnumber, ← hdate,
        ← htxn]
      rfl
  · exact booked_enter hposts h.booked _ p

theorem Progress.exists_record (h : Progress d s₀ sh k) {db₁ : Db}
    (hread : readPeriod d sh.db (rowAfter s₀ k) = .ok (some p)) (hentered : Entered sh.db db₁ p t) :
    ∃ db₂, recordPeriod db₁ p = .ok db₂ := by
  obtain ⟨hschedule, hnumber, -, -⟩ := h.read hread
  obtain ⟨-, b', ps, -, -, rfl⟩ := hentered
  refine exists_recordPeriod (by omega) ⟨_, h.row, ?_⟩
  rw [hschedule]

theorem Progress.postOne (h : Progress d s₀ sh k) (req : Request) (actor : Uuid) :
    ∃ k' ≥ k, Progress d s₀ (postOne d sh req actor (rowAfter s₀ k)).2 k' := by
  rcases postOne_cases d sh req actor (rowAfter s₀ k) with
    hsame | ⟨p, t, db₁, hread, hentered, ⟨db₂, hrecord, hafter⟩ | ⟨⟨e, herror⟩, -⟩⟩
  · rw [hsame]
    exact ⟨k, le_rfl, h⟩
  · rw [hafter]
    exact ⟨k + 1, Nat.le_succ k, h.own hread hentered hrecord⟩
  · obtain ⟨db₂, hrecord⟩ := h.exists_record hread hentered
    rw [hrecord] at herror
    cases herror

theorem Progress.postOne_other (h : Progress d s₀ sh k) (req : Request) (actor : Uuid)
    {s : AmortizationSchedule} (hne : s.id ≠ s₀.id) :
    Progress d s₀ (Amortization.postOne d sh req actor s).2 k := by
  rcases postOne_cases d sh req actor s with
    hsame | ⟨p, t, db₁, hread, hentered, ⟨db₂, hrecord, hafter⟩ | ⟨-, hafter⟩⟩
  · rw [hsame]
    exact h
  · rw [hafter]
    obtain ⟨-, row, -, rfl⟩ := readPeriod_eq_some hread
    exact h.other hentered hne (Or.inr hrecord)
  · rw [hafter]
    obtain ⟨-, row, -, rfl⟩ := readPeriod_eq_some hread
    exact h.other hentered hne (Or.inl rfl)

/-! ## Sweeps -/

theorem Progress.postAll_other {sweep : Sweep} :
    ∀ {rows : List AmortizationSchedule} {sh : Shared}, Progress d s₀ sh k →
      (∀ s ∈ rows, s.id ≠ s₀.id) → Progress d s₀ (postAll d sweep sh rows).2 k
  | [], sh, h, _ => h
  | s :: rows, sh, h, hne => by
    have hnext := h.postOne_other (sweep.draw s.id) sweep.actor (hne s List.mem_cons_self)
    exact hnext.postAll_other fun r hr => hne r (List.mem_cons_of_mem s hr)

theorem Progress.postAll {sweep : Sweep} :
    ∀ {rows : List AmortizationSchedule} {sh : Shared}, Progress d s₀ sh k →
      (rows.map AmortizationSchedule.id).Nodup → (∀ s ∈ rows, s.id = s₀.id → s = rowAfter s₀ k) →
      ∃ k' ≥ k, Progress d s₀ (postAll d sweep sh rows).2 k'
  | [], sh, h, _, _ => ⟨k, le_rfl, h⟩
  | s :: rows, sh, h, hids, hrow => by
    obtain ⟨hs, hids⟩ := List.nodup_cons.mp hids
    by_cases hown : s.id = s₀.id
    · obtain rfl := hrow s List.mem_cons_self hown
      obtain ⟨k', hk, h'⟩ := h.postOne (sweep.draw s₀.id) sweep.actor
      refine ⟨k', hk, h'.postAll_other fun r hr heq => hs ?_⟩
      exact List.mem_map.mpr ⟨r, hr, heq.trans hown.symm⟩
    · have hnext := h.postOne_other (sweep.draw s.id) sweep.actor hown
      exact hnext.postAll hids fun r hr => hrow r (List.mem_cons_of_mem s hr)

theorem Progress.runSweep (h : Progress d s₀ sh k) (sweep : Sweep) :
    ∃ k' ≥ k, Progress d s₀ (runSweep d sh sweep).2 k' := by
  have hperm := Relational.orderBy_perm AmortizationSchedule.nextPostDate
    (sh.db.amortizationSchedules.filter fun s => s.isActive && s.nextPostDate ≤ sweep.today &&
      s.postedPeriods + s.skippedPeriods < s.periods)
  refine h.postAll ?_ fun s hs hid => ?_
  · refine ((hperm.map AmortizationSchedule.id).nodup_iff.mpr ?_).sublist
      ((List.take_sublist _ _).map _)
    exact h.ids.sublist (List.filter_sublist.map _)
  · have hmem := List.mem_of_mem_filter (hperm.mem_iff.mp (List.mem_of_mem_take hs))
    exact List.inj_on_of_nodup_map h.ids hmem h.row hid

def runSweeps (d : Decimal.Arith) : Shared → List Sweep → Shared :=
  Runs.exec fun sh sweep => (runSweep d sh sweep).2

theorem Progress.runSweeps :
    ∀ (sweeps : List Sweep) {sh : Shared} {k : ℕ}, Progress d s₀ sh k →
      ∃ k' ≥ k, Progress d s₀ (runSweeps d sh sweeps) k'
  | [], sh, k, h => ⟨k, le_rfl, h⟩
  | sweep :: sweeps, sh, k, h => by
    obtain ⟨k₁, hk₁, h₁⟩ := h.runSweep sweep
    obtain ⟨k₂, hk₂, h₂⟩ := Progress.runSweeps sweeps h₁
    exact ⟨k₂, hk₁.trans hk₂, h₂⟩

/-! ## A schedule that was created -/

/-- The constraints of the two tables. -/
structure Keyed (db : Db) : Prop where
  ids : (db.amortizationSchedules.map AmortizationSchedule.id).Nodup
  periods : ∀ q ∈ db.amortizationPostedPeriods,
    ∃ s ∈ db.amortizationSchedules, s.id = q.scheduleId

theorem Accepted.id_eq {db db' : Db} {id : Uuid} (h : Accepted db db' id form s₀) : s₀.id = id := by
  obtain ⟨ledger, hrow⟩ := h.row
  rw [hrow]
  rfl

theorem Accepted.periods_eq {db db' : Db} {id : Uuid} (h : Accepted db db' id form s₀) :
    s₀.periods = form.periods := by
  obtain ⟨ledger, hrow⟩ := h.row
  rw [hrow]
  rfl

theorem Accepted.progress {db db' : Db} {id : Uuid} (h : Accepted db db' id form s₀)
    (hdb : Keyed db) : Progress d s₀ { db := db' } 0 := by
  have hid := h.id_eq
  obtain ⟨-, -, -, -, ⟨ledger, hrow⟩, hfresh, rfl⟩ := h
  refine ⟨?_, ?_, fun n => ?_, rfl, List.forall_mem_nil _⟩
  · show ((db.amortizationSchedules ++ [s₀]).map AmortizationSchedule.id).Nodup
    exact Relational.nodup_map_concat.mpr
      ⟨hdb.ids, fun r hr heq => hfresh r hr (heq.trans hid)⟩
  · refine List.mem_append_right _ (List.mem_singleton.mpr ?_)
    rw [rowAfter, hrow]
    rfl
  · constructor
    · intro hmem
      obtain ⟨r, hr, hrid⟩ := hdb.periods _ hmem
      exact absurd (hrid.trans hid) (hfresh r hr)
    · rintro ⟨h₁, h₂⟩
      omega

def Completed (sh : Shared) (schedule : Uuid) : Prop :=
  ∃ s ∈ sh.db.amortizationSchedules, s.id = schedule ∧ s.postedPeriods = s.periods

/-- A schedule that has been created and then swept until all its periods are posted stands after
the last of them. -/
theorem progress_of_completed {db db' : Db} {id : Uuid} {sweeps : List Sweep}
    (h : Accepted db db' id form s₀) (hdb : Keyed db)
    (hdone : Completed (runSweeps d { db := db' } sweeps) id) :
    ∃ n : ℕ, ((n + 1 : ℕ) : ℤ) = form.periods ∧
      Progress d s₀ (runSweeps d { db := db' } sweeps) (n + 1) := by
  have hstart : Progress d s₀ { db := db' } 0 := h.progress hdb
  obtain ⟨n, -, hprogress⟩ := hstart.runSweeps sweeps
  obtain ⟨s, hs, hsid, hsdone⟩ := hdone
  have hsrow : s = rowAfter s₀ n :=
    List.inj_on_of_nodup_map hprogress.ids hs hprogress.row (hsid.trans h.id_eq.symm)
  rw [hsrow] at hsdone
  have hn : (n : ℤ) = form.periods := hsdone.trans h.periods_eq
  obtain ⟨j, rfl⟩ : ∃ j, n = j + 1 := Nat.exists_eq_succ_of_ne_zero (by
    have := h.periods
    omega)
  exact ⟨j, hn, hprogress⟩

end OpenAccounting.Amortization
