import OpenAccounting.Jobs.RecurringInvoices
import OpenAccounting.System.JournalOps

/-!
# The schedule of recurring invoices

Scans of `recurring_invoices::scan_and_run` on days that do not go back.  The first scan that
finds a template due issues its occurrences up to the day of that scan.  Every later one meets the
first occurrence again and stops there.  So the invoices of a template are complete exactly when
nothing fell due after the first of these scans (`OneScanEnough`).
-/

namespace OpenAccounting.RecurringInvoices

open Calendar TemplateRun

/-- Scans that all complete, one after the other. -/
def runScans : Db → List Scan → Except JobError Db
  | db, [] => .ok db
  | db, scan :: rest =>
    match scanAndRun db scan with
    | (.ok (), db) => runScans db rest
    | (.error e, _) => .error e

/-- The total of an invoice is the sum of its lines. -/
def TotalsAgree (db : Db) (template : Uuid) : Prop :=
  ∀ i ∈ db.invoices, i.recurringTemplateId = some template →
    i.total = ((invoiceLinesOf db i.id).map InvoiceLine.amount).sum

/-- One invoice for each occurrence up to the day, no other, and every total is right. -/
structure Complete (t : RecurringInvoiceTemplate) (d : NaiveDate) (db : Db) : Prop where
  once : (issuedOn db t.id).Nodup
  dates : ∀ x, x ∈ issuedOn db t.id ↔ (∃ i, occurrence t.frequency t.nextDate i = some x) ∧ x ≤ d
  totals : TotalsAgree db t.id

/-- At most `120` occurrences of the template are due on the day. -/
def AtMost120Due (t : RecurringInvoiceTemplate) (d : NaiveDate) : Prop :=
  ∀ x, occurrence t.frequency t.nextDate 120 = some x → d < x

/-- Whatever is due on the last day was due on every day on which a scan found the template due. -/
def OneScanEnough (t : RecurringInvoiceTemplate) (days : List NaiveDate) (last : NaiveDate) : Prop :=
  ∀ d ∈ days, t.nextDate ≤ d →
    ∀ i x, occurrence t.frequency t.nextDate i = some x → x ≤ last → x ≤ d

/-! ## Lines and totals -/

/-- Every line belongs to an invoice, and the totals of the template's invoices agree. -/
structure Sound (db : Db) (template : Uuid) : Prop where
  lines : ∀ l ∈ db.invoiceLines, ∃ i ∈ db.invoices, i.id = l.invoiceId
  totals : TotalsAgree db template

variable {cursor d : NaiveDate} {db db' : Db} {i : Invoice} {lines : List InvoiceLine}
  {template : Uuid} {scan : Scan} {days : List NaiveDate}

theorem Issued.issuedOn (h : Issued db db' template d i lines) (other : Uuid) :
    issuedOn db' other =
      RecurringInvoices.issuedOn db other ++ if other = template then [d] else [] := by
  rw [h.writes]
  unfold RecurringInvoices.issuedOn
  rw [List.filter_append, List.map_append]
  by_cases hother : other = template
  · subst hother
    simp [h.marked]
  · have hne : ¬ i.recurringTemplateId = some other := by
      rw [h.marked.1]
      exact fun heq => hother (Option.some.inj heq).symm
    simp [hne, hother]

theorem Sound.issued {other : Uuid} (hs : Sound db other) (h : Issued db db' template d i lines) :
    Sound db' other := by
  obtain ⟨-, hfresh, htotal, hown, rfl⟩ := h
  constructor
  · intro l hl
    rcases List.mem_append.mp hl with hl | hl
    · obtain ⟨j, hj, hid⟩ := hs.lines l hl
      exact ⟨j, List.mem_append_left _ hj, hid⟩
    · exact ⟨i, List.mem_append_right _ (List.mem_singleton_self i), (hown l hl).symm⟩
  · intro j hj hmark
    simp only [invoiceLinesOf, List.filter_append, List.map_append, List.sum_append]
    rcases List.mem_append.mp hj with hj | hj
    · -- No new line belongs to an old invoice.
      have hnone : lines.filter (fun l => l.invoiceId = j.id) = [] :=
        List.filter_eq_nil_iff.mpr fun l hl heq =>
          hfresh j hj ((of_decide_eq_true heq).symm.trans (hown l hl))
      rw [hnone, List.map_nil, List.sum_nil, add_zero]
      exact hs.totals j hj hmark
    · cases List.mem_singleton.mp hj
      have hnone : db.invoiceLines.filter (fun l => l.invoiceId = i.id) = [] :=
        List.filter_eq_nil_iff.mpr fun l hl heq => by
          obtain ⟨j, hj, hid⟩ := hs.lines l hl
          exact hfresh j hj (hid.trans (of_decide_eq_true heq))
      have hall : lines.filter (fun l => l.invoiceId = i.id) = lines :=
        List.filter_eq_self.mpr fun l hl => decide_eq_true (hown l hl)
      rw [hnone, hall, List.map_nil, List.sum_nil, zero_add]
      exact htotal

/-! ## What every scan keeps -/

/-- What a scan does besides the dates of the templates it issues. -/
structure Kept (template : Uuid) (db db' : Db) : Prop where
  templates : db'.recurringInvoiceTemplates = db.recurringInvoiceTemplates
  sound : Sound db template → Sound db' template

theorem Kept.refl (template : Uuid) (db : Db) : Kept template db db := ⟨rfl, id⟩

theorem Kept.trans {db'' : Db} (h : Kept template db db') (h' : Kept template db' db'') :
    Kept template db db'' :=
  ⟨h'.templates.trans h.templates, h'.sound ∘ h.sound⟩

theorem Issued.kept {other : Uuid} (h : Issued db db' template d i lines) : Kept other db db' :=
  ⟨by rw [h.writes], fun hs => hs.issued h⟩

theorem catchUp_kept {t : RecurringInvoiceTemplate} (template : Uuid) :
    ∀ {turns : ℕ} {db db' : Db} {cursor : NaiveDate} {r : Except JobError Unit},
      catchUp scan t turns db cursor = (r, db') →
        Kept template db db' ∧ (template ≠ t.id → issuedOn db' template = issuedOn db template)
  | 0, db, db', cursor, r, h => by
    cases h
    exact ⟨Kept.refl _ _, fun _ => rfl⟩
  | turns + 1, db, db', cursor, r, h => by
    rw [catchUp] at h
    split at h
    · cases h
      exact ⟨Kept.refl _ _, fun _ => rfl⟩
    · obtain ⟨answer, db₁, hissue⟩ :
          ∃ a db₁, issueOccurrence db (scan.draw t.id cursor) t cursor = (a, db₁) := ⟨_, _, rfl⟩
      rw [hissue] at h
      rcases issueOccurrence_spec hissue with
        ⟨rfl, -, i, lines, hissued⟩ | ⟨rfl, -, rfl⟩ | ⟨⟨e, rfl⟩, rfl⟩
      · have hdates : template ≠ t.id → issuedOn db₁ template = issuedOn db template := by
          intro hne
          rw [hissued.issuedOn, if_neg hne, List.append_nil]
        dsimp only at h
        split at h
        · obtain ⟨hkept, hrest⟩ := catchUp_kept template h
          exact ⟨hissued.kept.trans hkept, fun hne => (hrest hne).trans (hdates hne)⟩
        · cases h
          exact ⟨hissued.kept, hdates⟩
      · cases h
        exact ⟨Kept.refl _ _, fun _ => rfl⟩
      · cases h
        exact ⟨Kept.refl _ _, fun _ => rfl⟩

theorem issueAll_kept (template : Uuid) :
    ∀ {ts : List RecurringInvoiceTemplate} {db db' : Db} {r : Except JobError Unit},
      issueAll scan db ts = (r, db') →
        Kept template db db' ∧
          ((∀ t ∈ ts, t.id ≠ template) → issuedOn db' template = issuedOn db template)
  | [], db, db', r, h => by
    cases h
    exact ⟨Kept.refl _ _, fun _ => rfl⟩
  | t :: ts, db, db', r, h => by
    obtain ⟨answer, db₁, hcatch⟩ :
        ∃ a db₁, catchUp scan t 120 db t.nextDate = (a, db₁) := ⟨_, _, rfl⟩
    obtain ⟨hkept, hdates⟩ := catchUp_kept template hcatch
    rw [issueAll, hcatch] at h
    cases answer with
    | error e =>
      cases h
      exact ⟨hkept, fun hne => hdates (hne t List.mem_cons_self).symm⟩
    | ok _ =>
      obtain ⟨hkept', hrest⟩ := issueAll_kept template h
      refine ⟨hkept.trans hkept', fun hne => ?_⟩
      rw [hrest fun u hu => hne u (List.mem_cons_of_mem t hu),
        hdates (hne t List.mem_cons_self).symm]

/-! ## The first scan that finds a template due -/

variable {t : RecurringInvoiceTemplate}

/-- The invoices of the template are those of its occurrences up to the day. -/
structure IssuedUpTo (t : RecurringInvoiceTemplate) (d : NaiveDate) (db : Db) : Prop where
  once : (issuedOn db t.id).Nodup
  dates : ∀ x, x ∈ issuedOn db t.id ↔ (∃ i, occurrence t.frequency t.nextDate i = some x) ∧ x ≤ d

/-- Before a turn of the loop: the first `k` occurrences are issued and all are due. -/
structure Reached (t : RecurringInvoiceTemplate) (d : NaiveDate) (db : Db) (k : ℕ)
    (cursor : NaiveDate) : Prop where
  cursor : occurrence t.frequency t.nextDate k = some cursor
  once : (issuedOn db t.id).Nodup
  dates : ∀ x, x ∈ issuedOn db t.id ↔ ∃ i < k, occurrence t.frequency t.nextDate i = some x
  due : ∀ x ∈ issuedOn db t.id, x ≤ d

theorem Reached.stop {k : ℕ} (h : Reached t d db k cursor) (hlate : d < cursor) :
    IssuedUpTo t d db := by
  refine ⟨h.once, fun x => ⟨fun hx => ⟨?_, h.due x hx⟩, ?_⟩⟩
  · obtain ⟨i, -, hi⟩ := (h.dates x).mp hx
    exact ⟨i, hi⟩
  · rintro ⟨⟨i, hi⟩, hxd⟩
    rcases lt_or_ge i k with hlt | hge
    · exact (h.dates x).mpr ⟨i, hlt, hi⟩
    · exact absurd ((occurrence_le hge h.cursor hi).trans hxd) (not_le.mpr hlate)

theorem Reached.issued {next : NaiveDate} {k : ℕ} (h : Reached t d db k cursor)
    (hdue : cursor ≤ d) (hnew : cursor ∉ issuedOn db t.id)
    (hissued : Issued db db' t.id cursor i lines)
    (hnext : advanceFrequency cursor t.frequency = some next) : Reached t d db' (k + 1) next := by
  have hdates := hissued.issuedOn t.id
  rw [if_pos rfl] at hdates
  refine ⟨?_, ?_, fun x => ?_, fun x hx => ?_⟩
  · rw [occurrence, h.cursor]
    exact hnext
  · rw [hdates, ← List.concat_eq_append]
    exact h.once.concat hnew
  · rw [hdates, List.mem_append, List.mem_singleton, h.dates x]
    constructor
    · rintro (⟨j, hj, hx⟩ | rfl)
      · exact ⟨j, Nat.lt_succ_of_lt hj, hx⟩
      · exact ⟨k, Nat.lt_succ_self k, h.cursor⟩
    · rintro ⟨j, hj, hx⟩
      rcases Nat.lt_succ_iff_lt_or_eq.mp hj with hlt | rfl
      · exact Or.inl ⟨j, hlt, hx⟩
      · rw [h.cursor] at hx
        exact Or.inr (Option.some.inj hx).symm
  · rw [hdates, List.mem_append, List.mem_singleton] at hx
    rcases hx with hx | rfl
    · exact h.due x hx
    · exact hdue

/-- The cursor of the loop is not issued before, or no later occurrence would pass the day. -/
theorem Reached.not_mem {k : ℕ} (h : Reached t d db k cursor) (hdue : cursor ≤ d)
    (hfew : AtMost120Due t d) : cursor ∉ issuedOn db t.id := by
  intro hmem
  obtain ⟨i, hik, hi⟩ := (h.dates cursor).mp hmem
  obtain ⟨n, hn⟩ := occurrence_of_repeated hik hi h.cursor 120
  exact absurd (hn.2.trans hdue) (not_le.mpr (hfew n hn.1))

/-- The loop over a template issues an invoice for each due date. -/
theorem catchUp_issuedUpTo (hfew : AtMost120Due t scan.today) :
    ∀ {turns k : ℕ} {db db' : Db} {cursor : NaiveDate}, k + turns = 120 →
      Reached t scan.today db k cursor → catchUp scan t turns db cursor = (.ok (), db') →
        IssuedUpTo t scan.today db'
  | 0, k, db, db', cursor, hk, hreached, h => by
    cases h
    obtain rfl : k = 120 := hk
    exact hreached.stop (hfew cursor hreached.cursor)
  | turns + 1, k, db, db', cursor, hk, hreached, h => by
    rw [catchUp] at h
    split at h
    · rename_i hlate
      cases h
      exact hreached.stop hlate
    · rename_i hdue
      obtain ⟨answer, db₁, hissue⟩ :
          ∃ a db₁, issueOccurrence db (scan.draw t.id cursor) t cursor = (a, db₁) := ⟨_, _, rfl⟩
      rw [hissue] at h
      rcases issueOccurrence_spec hissue with
        ⟨rfl, hnew, i, lines, hissued⟩ | ⟨rfl, hmem, rfl⟩ | ⟨⟨e, rfl⟩, rfl⟩
      · dsimp only at h
        split at h
        · rename_i next hnext
          exact catchUp_issuedUpTo hfew (by omega)
            (hreached.issued (not_lt.mp hdue) hnew hissued hnext) h
        · cases h
      · exact absurd hmem (hreached.not_mem (not_lt.mp hdue) hfew)
      · cases h

/-! ## One scan -/

/-- The scan comes to the template once, and its other templates leave its invoices alone. -/
theorem issueAll_catchUp :
    ∀ {ts : List RecurringInvoiceTemplate} {db db' : Db},
      (ts.map RecurringInvoiceTemplate.id).Nodup → t ∈ ts → issueAll scan db ts = (.ok (), db') →
        ∃ db₁ db₂, issuedOn db₁ t.id = issuedOn db t.id ∧
          catchUp scan t 120 db₁ t.nextDate = (.ok (), db₂) ∧
          issuedOn db' t.id = issuedOn db₂ t.id
  | u :: ts, db, db', hids, ht, h => by
    obtain ⟨hu, hids⟩ := List.nodup_cons.mp hids
    obtain ⟨answer, db₁, hcatch⟩ :
        ∃ a db₁, catchUp scan u 120 db u.nextDate = (a, db₁) := ⟨_, _, rfl⟩
    rw [issueAll, hcatch] at h
    cases answer with
    | error e => cases h
    | ok _ =>
      rcases List.mem_cons.mp ht with rfl | ht
      · refine ⟨db, db₁, rfl, hcatch, (issueAll_kept t.id h).2 fun v hv heq => ?_⟩
        exact hu (List.mem_map.mpr ⟨v, hv, heq⟩)
      · have hne : t.id ≠ u.id := fun heq => hu (List.mem_map.mpr ⟨t, ht, heq⟩)
        obtain ⟨db₂, db₃, hbefore, hown, hafter⟩ := issueAll_catchUp hids ht h
        exact ⟨db₂, db₃, hbefore.trans ((catchUp_kept t.id hcatch).2 hne), hown, hafter⟩

theorem IssuedUpTo.of_eq (h : IssuedUpTo t d db) (heq : issuedOn db' t.id = issuedOn db t.id) :
    IssuedUpTo t d db' :=
  ⟨heq ▸ h.once, fun x => heq ▸ h.dates x⟩

theorem catchUp_of_mem (hdue : t.nextDate ≤ scan.today) (hmem : t.nextDate ∈ issuedOn db t.id)
    (h : catchUp scan t 120 db t.nextDate = (.ok (), db')) : db' = db := by
  rw [catchUp, if_neg (not_lt.mpr hdue)] at h
  obtain ⟨answer, db₁, hissue⟩ :
      ∃ a db₁, issueOccurrence db (scan.draw t.id t.nextDate) t t.nextDate = (a, db₁) := ⟨_, _, rfl⟩
  rw [hissue] at h
  rcases issueOccurrence_spec hissue with ⟨-, hnew, -⟩ | ⟨rfl, -, rfl⟩ | ⟨⟨e, rfl⟩, rfl⟩
  · exact absurd hmem hnew
  · cases h
    rfl
  · cases h

/-- How a template stands after scans on these days. -/
def Standing (t : RecurringInvoiceTemplate) (days : List NaiveDate) (db : Db) : Prop :=
  match days.find? fun d => t.nextDate ≤ d with
  | none => issuedOn db t.id = []
  | some d => IssuedUpTo t d db

theorem Standing.of_eq (h : Standing t days db) (heq : issuedOn db' t.id = issuedOn db t.id) :
    Standing t days db' := by
  unfold Standing at h ⊢
  split at h
  · exact heq.trans h
  · exact IssuedUpTo.of_eq h heq

/-- A template of the table, as every scan finds it. -/
structure Active (t : RecurringInvoiceTemplate) (db : Db) : Prop where
  ids : (db.recurringInvoiceTemplates.map RecurringInvoiceTemplate.id).Nodup
  mem : t ∈ db.recurringInvoiceTemplates
  active : t.isActive = true

/-- A scan that succeeds leaves the template as it stands one scan later. -/
theorem scanAndRun_standing (ht : Active t db) (hfew : AtMost120Due t scan.today)
    (hstanding : Standing t days db) (h : scanAndRun db scan = (.ok (), db')) :
    Standing t (days ++ [scan.today]) db' := by
  by_cases hdue : t.nextDate ≤ scan.today
  · obtain ⟨db₁, db₂, hbefore, hcatch, hafter⟩ :=
      issueAll_catchUp (ht.ids.sublist (List.filter_sublist.map _))
        (List.mem_filter.mpr ⟨ht.mem, by simp [ht.active, hdue]⟩) h
    unfold Standing at hstanding ⊢
    rw [List.find?_append]
    cases hfirst : days.find? fun d => t.nextDate ≤ d with
    | none =>
      -- This is the first scan that finds the template due.
      rw [hfirst] at hstanding
      have hnil : issuedOn db₁ t.id = [] := hbefore.trans hstanding
      have hreached : Reached t scan.today db₁ 0 t.nextDate :=
        ⟨rfl, by rw [hnil]; exact List.nodup_nil, by simp [hnil], by simp [hnil]⟩
      simpa [hdue] using
        (catchUp_issuedUpTo hfew (Nat.zero_add 120) hreached hcatch).of_eq hafter
    | some d =>
      rw [hfirst] at hstanding
      have hdone : t.nextDate ≤ d := by simpa using List.find?_some hfirst
      have hmem : t.nextDate ∈ issuedOn db₁ t.id := by
        rw [hbefore]
        exact (hstanding.dates _).mpr ⟨⟨0, rfl⟩, hdone⟩
      have hsame := catchUp_of_mem hdue hmem hcatch
      subst hsame
      simpa using IssuedUpTo.of_eq hstanding (hafter.trans hbefore)
  · have hnot : ∀ u ∈ db.recurringInvoiceTemplates.filter
        (fun u => u.isActive && u.nextDate ≤ scan.today), u.id ≠ t.id := by
      intro u hu heq
      obtain ⟨humem, hudue⟩ := List.mem_filter.mp hu
      have hut : u = t := List.inj_on_of_nodup_map ht.ids humem ht.mem heq
      subst hut
      simp [hdue] at hudue
    have hsame := hstanding.of_eq ((issueAll_kept t.id h).2 hnot)
    unfold Standing at hsame ⊢
    rw [List.find?_append]
    simpa [hdue] using hsame

/-! ## A sequence of scans -/

theorem runScans_standing :
    ∀ {scans : List Scan} {days : List NaiveDate} {db : Db}, Active t db →
      (∀ s ∈ scans, AtMost120Due t s.today) → Standing t days db → Sound db t.id →
      runScans db scans = .ok db' →
        Standing t (days ++ scans.map Scan.today) db' ∧ Sound db' t.id
  | [], days, db, _, _, hstanding, hsound, h => by
    cases h
    exact ⟨by simpa using hstanding, hsound⟩
  | scan :: scans, days, db, ht, hfew, hstanding, hsound, h => by
    obtain ⟨answer, db₁, hscan⟩ : ∃ a db₁, scanAndRun db scan = (a, db₁) := ⟨_, _, rfl⟩
    rw [runScans, hscan] at h
    cases answer with
    | error e => cases h
    | ok _ =>
      obtain ⟨hkept, -⟩ := issueAll_kept t.id hscan
      have ht₁ : Active t db₁ :=
        ⟨hkept.templates ▸ ht.ids, hkept.templates ▸ ht.mem, ht.active⟩
      have hnext := scanAndRun_standing ht (hfew scan List.mem_cons_self) hstanding hscan
      have hrest := runScans_standing ht₁ (fun s hs => hfew s (List.mem_cons_of_mem scan hs))
        hnext (hkept.sound hsound) h
      rw [List.append_assoc] at hrest
      exact hrest

/-- The invoices up to the first due day are complete for the last day exactly when nothing fell
due in between. -/
theorem complete_iff_of_standing {last : NaiveDate} (hdays : (days ++ [last]).Pairwise (· ≤ ·))
    (hstanding : Standing t (days ++ [last]) db) (htotals : TotalsAgree db t.id) :
    Complete t last db ↔ OneScanEnough t days last := by
  obtain ⟨hsorted, -, hle⟩ := List.pairwise_append.mp hdays
  unfold Standing at hstanding
  split at hstanding
  · -- No scan found the template due, and it is not due on the last day.
    rename_i hnone
    have hnot : ∀ d ∈ days ++ [last], ¬ t.nextDate ≤ d := fun d hd hdue =>
      List.find?_eq_none.mp hnone d hd (decide_eq_true hdue)
    constructor
    · intro _ d hd hdue
      exact absurd hdue (hnot d (List.mem_append_left _ hd))
    · refine fun _ => ⟨by rw [hstanding]; exact List.nodup_nil, fun x => ?_, htotals⟩
      rw [hstanding]
      refine ⟨fun hx => absurd hx List.not_mem_nil, fun ⟨⟨i, hi⟩, hx⟩ => ?_⟩
      exact absurd ((occurrence_le (Nat.zero_le i) rfl hi).trans hx)
        (hnot last (List.mem_append_right _ (List.mem_singleton_self last)))
  · rename_i first hfirst
    have hdue : t.nextDate ≤ first := by simpa using List.find?_some hfirst
    have hmem := List.mem_of_find?_eq_some hfirst
    have hfirst_le : first ≤ last := by
      rcases List.mem_append.mp hmem with hmem | hmem
      · exact hle first hmem last (List.mem_singleton_self last)
      · exact (List.mem_singleton.mp hmem).le
    constructor
    · intro hcomplete d hd hd_due i x hx hxlast
      obtain ⟨-, hxfirst⟩ := (hstanding.dates x).mp ((hcomplete.dates x).mpr ⟨⟨i, hx⟩, hxlast⟩)
      exact hxfirst.trans
        (Relational.find?_le_of_pairwise hdays hfirst d (List.mem_append_left _ hd)
          (decide_eq_true hd_due))
    · intro henough
      refine ⟨hstanding.once, fun x => (hstanding.dates x).trans (and_congr_right ?_), htotals⟩
      rintro ⟨i, hx⟩
      refine ⟨fun h => h.trans hfirst_le, fun hxlast => ?_⟩
      rcases List.mem_append.mp hmem with hmem | hmem
      · exact henough first hmem hdue i x hx hxlast
      · exact (List.mem_singleton.mp hmem) ▸ hxlast

/-- After scans on days that do not go back, the invoices of an active template are complete for
the last of them exactly when nothing fell due after the first scan that found the template due. -/
theorem complete_iff_oneScanEnough {db db' : Db} {scans : List Scan} {last : Scan}
    (ht : Active t db) (hnone : issuedOn db t.id = [])
    (hlines : ∀ l ∈ db.invoiceLines, ∃ i ∈ db.invoices, i.id = l.invoiceId)
    (hdays : ((scans ++ [last]).map Scan.today).Pairwise (· ≤ ·))
    (hfew : ∀ s ∈ scans ++ [last], AtMost120Due t s.today)
    (hrun : runScans db (scans ++ [last]) = .ok db') :
    Complete t last.today db' ↔ OneScanEnough t (scans.map Scan.today) last.today := by
  have hsound : Sound db t.id := by
    refine ⟨hlines, fun i hi hmark => ?_⟩
    have hmem : i.invoiceDate ∈ issuedOn db t.id := alreadyIssued_iff.mp ⟨i, hi, hmark, rfl⟩
    rw [hnone] at hmem
    cases hmem
  obtain ⟨hstanding, hsound'⟩ := runScans_standing ht hfew
    (show Standing t [] db from hnone) hsound hrun
  rw [List.nil_append, List.map_append] at hstanding
  rw [List.map_append] at hdays
  exact complete_iff_of_standing hdays hstanding hsound'.totals

namespace Sample

open OpenAccounting.Sample

/-- A subscription, invoiced on the fifteenth of each month. -/
def subscription : RecurringInvoiceTemplate where
  id := 50
  ledgerId := ledgerId
  contactId := 60
  kind := .receivable
  frequency := "monthly"
  nextDate := march 15

/-- The sample ledger with the subscription of one line. -/
def subscribed : Db :=
  { OpenAccounting.Sample.db with
    contacts := [{ id := 60, ledgerId := ledgerId }]
    recurringInvoiceTemplates := [subscription]
    recurringInvoiceLines :=
      [{ templateId := subscription.id, description := "Hosting", quantity := 3, unitPrice := 10 }] }

def april : NaiveDate := (NaiveDate.fromYmdOpt 2026 4 15).getD default

def scanOn (d : NaiveDate) (seed : ℕ) : Scan where
  today := d
  draw _ _ := request seed

theorem subscription_active : Active subscription subscribed :=
  ⟨List.nodup_singleton _, List.mem_singleton_self _, rfl⟩

theorem subscription_occurrence :
    occurrence subscription.frequency subscription.nextDate 120 =
      NaiveDate.fromYmdOpt 2036 3 15 := by
  decide +kernel

theorem subscription_few {d : NaiveDate} (h : d ≤ april) : AtMost120Due subscription d := by
  intro x hx
  have hlate : ∀ x ∈ NaiveDate.fromYmdOpt 2036 3 15, april < x := by decide
  rw [subscription_occurrence] at hx
  exact h.trans_lt (hlate x hx)

def bothScans : List Scan := [scanOn (march 15) 1, scanOn april 2]

theorem bothScans_complete : ∃ db', runScans subscribed bothScans = .ok db' :=
  Commit.exists_ok_of_isOk (by decide +kernel)

theorem bothScans_missing :
    ∀ db' ∈ (runScans subscribed bothScans).toOption, april ∉ issuedOn db' subscription.id := by
  decide +kernel

example : (runScans subscribed bothScans).toOption.map (fun db' => issuedOn db' subscription.id) =
    some [march 15] := by
  decide +kernel

end Sample

/-- Scans on 15 March and 15 April issue no invoice of 15 April. -/
theorem twoMonths_not_complete :
    Active Sample.subscription Sample.subscribed ∧
      issuedOn Sample.subscribed Sample.subscription.id = [] ∧
      (∀ l ∈ Sample.subscribed.invoiceLines,
        ∃ i ∈ Sample.subscribed.invoices, i.id = l.invoiceId) ∧
      OpenAccounting.Sample.march 15 ≤ Sample.april ∧
      AtMost120Due Sample.subscription (OpenAccounting.Sample.march 15) ∧
      AtMost120Due Sample.subscription Sample.april ∧
      ∃ db', runScans Sample.subscribed Sample.bothScans = .ok db' ∧
        ¬ Complete Sample.subscription Sample.april db' := by
  have hlater : OpenAccounting.Sample.march 15 ≤ Sample.april := by decide
  refine ⟨Sample.subscription_active, rfl, List.forall_mem_nil _, hlater,
    Sample.subscription_few hlater, Sample.subscription_few le_rfl, ?_⟩
  obtain ⟨db', hrun⟩ := Sample.bothScans_complete
  refine ⟨db', hrun, fun hcomplete => ?_⟩
  have hmissing := Sample.bothScans_missing db' (by rw [hrun]; rfl)
  refine hmissing ((hcomplete.dates _).mpr ⟨⟨1, ?_⟩, le_rfl⟩)
  decide

/-- A scan on 15 March alone is enough for 15 March. -/
theorem complete_iff_oneScanEnough_firstDay :
    ∃ db', runScans Sample.subscribed [Sample.scanOn (OpenAccounting.Sample.march 15) 1] = .ok db' ∧
      Complete Sample.subscription (OpenAccounting.Sample.march 15) db' := by
  obtain ⟨db', hrun⟩ : ∃ db', runScans Sample.subscribed
      ([] ++ [Sample.scanOn (OpenAccounting.Sample.march 15) 1]) = .ok db' :=
    Commit.exists_ok_of_isOk (by decide +kernel)
  refine ⟨db', hrun, (complete_iff_oneScanEnough Sample.subscription_active rfl
    (List.forall_mem_nil _) (List.pairwise_singleton _ _) ?_ hrun).mpr (List.forall_mem_nil _)⟩
  intro s hs
  cases List.mem_singleton.mp hs
  exact Sample.subscription_few (by decide)

end OpenAccounting.RecurringInvoices
