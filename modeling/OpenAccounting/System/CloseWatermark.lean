import OpenAccounting.Handlers.Closing
import OpenAccounting.System.JournalOps

/-!
# The progress of the watermark

`close_period` moves the watermark of a ledger ahead, and `reopen_period` takes it back.  A closed
period is a row with a date, but the key of the table is still the year.  So a ledger can be closed
once a year, and `closePeriod_advances_iff` says that it cannot be closed further within a year that
has a close already.
-/

namespace OpenAccounting

open Calendar Commit

namespace Closing

/-! ## The rows -/

/-- Every row of the ledger has a date, in its year. -/
def Dated (db : Db) (ledger : Uuid) : Prop :=
  ∀ c ∈ db.closedPeriods, c.ledgerId = ledger → ∃ w, c.closedThrough = some w ∧ w.year = c.periodYear

variable {db : Db} {ledger : Uuid} {d w : NaiveDate}

theorem mem_closedPeriodsOf {c : ClosedPeriod} :
    c ∈ db.closedPeriodsOf ledger ↔ c ∈ db.closedPeriods ∧ c.ledgerId = ledger := by
  rw [Db.closedPeriodsOf, List.mem_filter, decide_eq_true_iff]

theorem Dated.closedThrough_eq_some (h : Dated db ledger) (hw : db.closedThrough ledger = some w) :
    (∃ c ∈ db.closedPeriods, c.ledgerId = ledger ∧ c.closedThrough = some w) ∧
      ∀ c ∈ db.closedPeriods, c.ledgerId = ledger → ∀ v ∈ c.closedThrough, v ≤ w := by
  rw [Db.closedThrough] at hw
  split at hw
  · next v hmax =>
      obtain rfl := Option.some.inj hw
      obtain ⟨hmem, hle⟩ := List.max?_eq_some_iff.mp hmax
      obtain ⟨c, hc, hdate⟩ := List.mem_filterMap.mp hmem
      obtain ⟨hc, hledger⟩ := mem_closedPeriodsOf.mp hc
      refine ⟨⟨c, hc, hledger, hdate⟩, fun c hc hledger v hv => hle v ?_⟩
      exact List.mem_filterMap.mpr ⟨c, mem_closedPeriodsOf.mpr ⟨hc, hledger⟩, hv⟩
  · next hnone =>
      -- Without a date there is no row at all.
      have hrows : db.closedPeriodsOf ledger = [] := by
        rw [List.eq_nil_iff_forall_not_mem]
        intro c hc
        obtain ⟨v, hv, -⟩ := h c (mem_closedPeriodsOf.mp hc).1 (mem_closedPeriodsOf.mp hc).2
        have hmem := List.mem_filterMap.mpr ⟨c, hc, hv⟩
        rw [List.max?_eq_none_iff.mp hnone] at hmem
        cases hmem
      rw [hrows] at hw
      cases hw

theorem year_le_of_le {a b : NaiveDate} (h : a ≤ b) : a.year ≤ b.year := by
  by_contra hlt
  exact absurd h (not_le_of_gt (NaiveDate.lt_iff.mpr (Or.inl (lt_of_not_ge hlt))))

/-- Under the watermark a year has a row exactly if it is the watermark's. -/
theorem Dated.year_free_iff (h : Dated db ledger) (hopen : ¬ db.Closed ledger d) :
    (∀ c ∈ db.closedPeriods, ¬ (c.ledgerId = ledger ∧ c.periodYear = d.year)) ↔
      ∀ w ∈ db.closedThrough ledger, w.year ≠ d.year := by
  constructor
  · intro hfree w hw hyear
    obtain ⟨⟨c, hc, hledger, hdate⟩, -⟩ := h.closedThrough_eq_some hw
    obtain ⟨v, hv, hperiod⟩ := h c hc hledger
    obtain rfl := Option.some.inj (hdate.symm.trans hv)
    exact hfree c hc ⟨hledger, hperiod.symm.trans hyear⟩
  · rintro hother c hc ⟨hledger, hperiod⟩
    obtain ⟨v, hv, hyear⟩ := h c hc hledger
    cases hw : db.closedThrough ledger with
    | none =>
      rw [Db.closedThrough] at hw
      split at hw
      · cases hw
      · next hnone =>
          have hmem := List.mem_filterMap.mpr ⟨c, mem_closedPeriodsOf.mpr ⟨hc, hledger⟩, hv⟩
          rw [List.max?_eq_none_iff.mp hnone] at hmem
          cases hmem
    | some w =>
      have hle := (h.closedThrough_eq_some hw).2 c hc hledger v hv
      have hlt : w < d := lt_of_not_ge fun hle => hopen ((Db.closed_iff hw).mpr hle)
      refine hother w hw ?_
      have hfrom := year_le_of_le hle
      have hto := year_le_of_le hlt.le
      omega

/-! ## One close, one reopening -/

/-- A close beyond the watermark succeeds if and only if the year has no row. -/
theorem closePeriod_ok_iff {user : Uuid} {l : Ledger}
    (haccess : db.ensureOwnerOrAdmin user ledger = .ok l) (hopen : ¬ db.Closed ledger d) :
    (closePeriod db (some user) ledger (some d)).1 = .ok () ↔
      ∀ c ∈ db.closedPeriods, ¬ (c.ledgerId = ledger ∧ c.periodYear = d.year) := by
  have hrun : (closePeriod db (some user) ledger (some d)).1 = .ok () ↔
      ∃ db', closePeriod db (some user) ledger (some d) = (.ok (), db') :=
    ⟨fun h => ⟨_, Prod.ext h rfl⟩, fun ⟨_, h⟩ => by rw [h]⟩
  rw [hrun]
  simp only [closePeriod, commit_eq_ok, bind_eq_ok, okOr_eq_ok, ensure_eq_ok, mapError_eq_ok,
    insertClosedPeriod, Option.some.injEq]
  constructor
  · rintro ⟨_, _, _, _, -, _, rfl, _, -, _, ⟨_, hfree, -⟩, -⟩
    exact hfree
  · intro hfree
    exact ⟨_, _, rfl, l, haccess, d, rfl, (), hopen, _, ⟨(), hfree, rfl⟩, rfl⟩

theorem closePeriod_closedPeriods {auth : Option Uuid} {through : Option NaiveDate} :
    (closePeriod db auth ledger through).2.closedPeriods = db.closedPeriods ∨
      ∃ d, through = some d ∧ ¬ db.Closed ledger d ∧
        (closePeriod db auth ledger through).2.closedPeriods = db.closedPeriods ++
          [{ ledgerId := ledger, periodYear := d.year, closedThrough := some d }] := by
  rcases commit_cases db _ with h | ⟨a, db', hbody, h⟩
  · exact Or.inl (congrArg Db.closedPeriods h)
  · simp only [bind_eq_ok, okOr_eq_ok, ensure_eq_ok, mapError_eq_ok, insertClosedPeriod] at hbody
    obtain ⟨_, -, _, -, d, hthrough, _, hopen, db₁, ⟨_, -, hdb₁⟩, hbody⟩ := hbody
    cases hdb₁
    cases hbody
    exact Or.inr ⟨d, hthrough, hopen, congrArg Db.closedPeriods h⟩

theorem closedThrough_concat {db' : Db} {year : ℤ} (hopen : ¬ db.Closed ledger d)
    (hrows : db'.closedPeriods = db.closedPeriods ++
      [{ ledgerId := ledger, periodYear := year, closedThrough := some d }]) :
    db'.closedThrough ledger = some d := by
  have hdates : (db'.closedPeriodsOf ledger).filterMap ClosedPeriod.closedThrough =
      (db.closedPeriodsOf ledger).filterMap ClosedPeriod.closedThrough ++ [d] := by
    rw [Db.closedPeriodsOf, hrows, List.filter_append, List.filterMap_append]
    simp [Db.closedPeriodsOf]
  have hmax : ((db'.closedPeriodsOf ledger).filterMap ClosedPeriod.closedThrough).max? = some d := by
    rw [hdates, List.max?_eq_some_iff]
    refine ⟨List.mem_append_right _ List.mem_cons_self, fun v hv => ?_⟩
    rcases List.mem_append.mp hv with hv | hv
    · by_contra hlt
      obtain ⟨w, hw⟩ := Option.ne_none_iff_exists'.mp
        (mt List.max?_eq_none_iff.mp (List.ne_nil_of_mem hv))
      have hwatermark : db.closedThrough ledger = some w := by rw [Db.closedThrough, hw]
      have hle : v ≤ w := (List.max?_eq_some_iff.mp hw).2 v hv
      exact hopen ((Db.closed_iff hwatermark).mpr ((le_of_not_ge hlt).trans hle))
    · rw [List.mem_singleton.mp hv]
  rw [Db.closedThrough, hmax]

/-- A close within the ledger's rights succeeds, and the ledger is closed through its date. -/
def Advances (db : Db) (user ledger : Uuid) (d : NaiveDate) : Prop :=
  (closePeriod db (some user) ledger (some d)).1 = .ok () ∧
    (closePeriod db (some user) ledger (some d)).2.closedThrough ledger = some d

theorem advances_iff {user : Uuid} {l : Ledger}
    (haccess : db.ensureOwnerOrAdmin user ledger = .ok l) (hopen : ¬ db.Closed ledger d) :
    Advances db user ledger d ↔
      ∀ c ∈ db.closedPeriods, ¬ (c.ledgerId = ledger ∧ c.periodYear = d.year) := by
  rw [← closePeriod_ok_iff haccess hopen]
  refine ⟨And.left, fun hok => ⟨hok, ?_⟩⟩
  obtain ⟨db', hrun⟩ : ∃ db', closePeriod db (some user) ledger (some d) = (.ok (), db') :=
    ⟨_, Prod.ext hok rfl⟩
  rw [hrun]
  have hbody := commit_eq_ok.mp hrun
  simp only [bind_eq_ok, okOr_eq_ok, ensure_eq_ok, mapError_eq_ok, insertClosedPeriod,
    Option.some.injEq] at hbody
  obtain ⟨_, -, _, -, _, rfl, _, -, db₁, ⟨_, -, hdb₁⟩, hbody⟩ := hbody
  cases hdb₁
  cases hbody
  exact closedThrough_concat hopen rfl

theorem mem_of_reopenPeriod {auth : Option Uuid} {form : ReopenForm} {c : ClosedPeriod}
    (hc : c ∈ (reopenPeriod db auth ledger form).2.closedPeriods) : c ∈ db.closedPeriods := by
  rcases commit_cases db _ with h | ⟨a, db', hbody, h⟩
  · rwa [reopenPeriod, h] at hc
  · rw [reopenPeriod, h] at hc
    simp only [bind_eq_ok] at hbody
    obtain ⟨_, -, _, -, _, -, _, -, hbody⟩ := hbody
    cases hbody
    cases hdate : form.closedThrough.join with
    | none =>
      rw [hdate] at hc
      exact List.mem_of_mem_filter hc
    | some d =>
      rw [hdate] at hc
      exact List.mem_of_mem_filter (List.mem_of_mem_filter hc)

/-- After a reopening from a date on the watermark lies before that date. -/
theorem reopenPeriod_lt {auth : Option Uuid} {form : ReopenForm}
    (hok : (reopenPeriod db auth ledger form).1 = .ok ())
    (hdate : form.closedThrough = some (some d)) :
    ∀ w ∈ (reopenPeriod db auth ledger form).2.closedThrough ledger, w < d := by
  obtain ⟨db', hrun⟩ : ∃ db', reopenPeriod db auth ledger form = (.ok (), db') :=
    ⟨_, Prod.ext hok rfl⟩
  have hbody := commit_eq_ok.mp hrun
  simp only [bind_eq_ok, hdate, Option.join_some] at hbody
  obtain ⟨_, -, _, -, _, -, _, -, hbody⟩ := hbody
  have hperiods : db'.closedPeriods =
      (deleteLegacyYears (deleteWatermarks db ledger d) ledger d.year).closedPeriods := by
    cases hbody
    rfl
  have hrows : ∀ c ∈ db'.closedPeriodsOf ledger, (∀ v ∈ c.closedThrough, v < d) ∧
      (c.closedThrough = none → c.periodYear < d.year) := by
    intro c hc
    obtain ⟨hc, hledger⟩ := mem_closedPeriodsOf.mp hc
    rw [hperiods] at hc
    obtain ⟨hc, hlegacy⟩ := List.mem_filter.mp hc
    have hwatermark := (List.mem_filter.mp hc).2
    simp only [hledger, true_and, not_and, not_exists, not_le, decide_eq_true_eq] at hlegacy hwatermark
    refine ⟨hwatermark, fun hnone => ?_⟩
    by_contra hle
    exact hlegacy (le_of_not_gt hle) hnone
  intro w hw
  rw [hrun] at hw
  replace hw : db'.closedThrough ledger = some w := hw
  rw [Db.closedThrough] at hw
  split at hw
  · next v hmax =>
      obtain rfl := Option.some.inj hw
      obtain ⟨c, hc, hv⟩ := List.mem_filterMap.mp (List.max?_mem hmax)
      exact (hrows c hc).1 v hv
  · next hnone =>
      split at hw
      · next y hmax =>
          obtain ⟨c, hc, rfl⟩ := List.mem_map.mp (List.max?_mem hmax)
          have hdateless : c.closedThrough = none := by
            refine Option.eq_none_iff_forall_ne_some.mpr fun v hv => ?_
            have hmem := List.mem_filterMap.mpr ⟨c, hc, hv⟩
            rw [List.max?_eq_none_iff.mp hnone] at hmem
            cases hmem
          refine NaiveDate.lt_iff.mpr (Or.inl ?_)
          rw [(NaiveDate.fromYmdOpt_eq_some.mp hw).1]
          exact (hrows c hc).2 hdateless
      · cases hw

/-! ## Runs -/

/-- What may happen to a ledger. -/
inductive CloseOp where
  | closeYear (req : Request) (auth : Option Uuid) (ledger : Uuid) (year : ℤ)
  | closePeriod (auth : Option Uuid) (ledger : Uuid) (through : Option NaiveDate)
  | reopenPeriod (auth : Option Uuid) (ledger : Uuid) (form : ReopenForm)
  /-- Bookkeeping, which leaves the books in any state. -/
  | keep (books : Books)

/-- The database after the operation. -/
def CloseOp.run (db : Db) : CloseOp → Db
  | closeYear req auth ledger year => (Closing.closeYear db req auth ledger year).2
  | closePeriod auth ledger through => (Closing.closePeriod db auth ledger through).2
  | reopenPeriod auth ledger form => (Closing.reopenPeriod db auth ledger form).2
  | keep books => { db with books }

theorem Dated.concat {db' : Db} (h : Dated db ledger) {c : ClosedPeriod}
    (hc : ∃ w, c.closedThrough = some w ∧ w.year = c.periodYear)
    (hrows : db'.closedPeriods = db.closedPeriods ++ [c]) : Dated db' ledger := by
  intro c' hc' hledger
  rw [hrows] at hc'
  rcases List.mem_append.mp hc' with hc' | hc'
  · exact h c' hc' hledger
  · rw [List.mem_singleton.mp hc']
    exact hc

theorem Dated.of_subset {db' : Db} (h : Dated db ledger)
    (hrows : ∀ c ∈ db'.closedPeriods, c ∈ db.closedPeriods) : Dated db' ledger :=
  fun c hc => h c (hrows c hc)

theorem Dated.run (h : Dated db ledger) (op : CloseOp) : Dated (op.run db) ledger := by
  cases op with
  | closeYear req auth l year =>
    rcases commit_cases db _ with hsame | ⟨_, _, hbody, -⟩
    · exact h.of_subset fun c hc => by rwa [CloseOp.run, closeYear, hsame] at hc
    · have hok : (Closing.closeYear db req auth l year).1 = .ok () :=
        congrArg Prod.fst (commit_eq_ok.mpr hbody)
      obtain ⟨_, last, _, _, _, hclose⟩ := closeYear_spec hok
      refine h.concat ?_ hclose.closedPeriods
      exact ⟨last, rfl, (NaiveDate.fromYmdOpt_eq_some.mp hclose.last_eq).1⟩
  | closePeriod auth l through =>
    rcases closePeriod_closedPeriods with hsame | ⟨d, -, -, hrows⟩
    · exact h.of_subset fun c hc => hsame ▸ hc
    · exact h.concat ⟨d, rfl, rfl⟩ hrows
  | reopenPeriod auth l form => exact h.of_subset fun c hc => mem_of_reopenPeriod hc
  | keep books => exact h

/-- In every state of every run, a close beyond the watermark moves it ahead exactly if its date lies
in another year, and a reopening takes it back. -/
theorem closePeriod_advances_iff (h : Dated db ledger) (ops : List CloseOp) :
    ∀ s ∈ Runs.visited CloseOp.run db ops,
      (∀ user l d, s.ensureOwnerOrAdmin user ledger = .ok l → ¬ s.Closed ledger d →
        (Advances s user ledger d ↔ ∀ w ∈ s.closedThrough ledger, w.year ≠ d.year)) ∧
      ∀ auth form d, (reopenPeriod s auth ledger form).1 = .ok () →
        form.closedThrough = some (some d) →
        ∀ w ∈ (reopenPeriod s auth ledger form).2.closedThrough ledger, w < d := by
  intro s hs
  have hdated : Dated s ledger :=
    Runs.invariant (P := fun s => Dated s ledger) (fun _ op hs => hs.run op) ops h s hs
  refine ⟨fun user l d haccess hopen => ?_, fun auth form d hok hdate => reopenPeriod_lt hok hdate⟩
  rw [advances_iff haccess hopen, hdated.year_free_iff hopen]

/-- Closed through the end of February, March cannot be closed. -/
theorem not_advances :
    ∃ s ∈ Runs.visited CloseOp.run Sample.db
      [.closePeriod (some Sample.owner) Sample.ledgerId (NaiveDate.fromYmdOpt 2026 2 28)],
      ¬ s.Closed Sample.ledgerId (Sample.march 31) ∧
        ¬ Advances s Sample.owner Sample.ledgerId (Sample.march 31) := by
  refine ⟨_, Runs.exec_mem_visited _ _, ?_⟩
  simp only [Advances]
  decide

/-- Closed through the end of a year, and then through March of the next. -/
theorem closePeriod_advances_iff_yearly :
    Advances (Runs.exec CloseOp.run Sample.db
      [.closePeriod (some Sample.owner) Sample.ledgerId (NaiveDate.fromYmdOpt 2025 12 31)])
      Sample.owner Sample.ledgerId (Sample.march 31) := by
  have hdated : Dated Sample.db Sample.ledgerId := fun _ hc => absurd hc List.not_mem_nil
  refine ((closePeriod_advances_iff hdated _ _ (Runs.exec_mem_visited _ _)).1 _
    { id := Sample.ledgerId, ownerId := Sample.owner } _ ?_ ?_).mpr ?_
  · decide
  · decide
  · decide

end Closing

end OpenAccounting
