import OpenAccounting.Lib.Threads
import OpenAccounting.System.JournalOps

/-!
# Recurring entries

Scans of `template_run::scan_and_run` and the routes `run` and `process_due` run interleaved
while the days go by.  A scan reads the due templates at once and posts one occurrence at a time.

`OnSchedule` is what a template keeps to while no occurrence is met twice (`Undisturbed`): its
entries are the first so many occurrences, in order, and its next date is the one after them.  A
scan that is through with the template has then posted exactly the occurrences that are due
(`ExactlyOnce`).
-/

namespace OpenAccounting.Recurring

open Calendar TemplateRun

/-- An entry that was generated from a template. -/
structure Generated where
  template : Uuid
  date : NaiveDate
  txn : Uuid
deriving DecidableEq

/-- The database, the calendar, and what has been generated so far. -/
structure Shared where
  db : Db
  today : NaiveDate
  generated : List Generated := []

/-- Where a scan or a route is. -/
inductive Place where
  | idle
  /-- A scan that was started on the day and has these templates left. -/
  | scanning (today : NaiveDate) (queue : List CatchUp)
  /-- A route with these ledgers and templates left. -/
  | posting (user : Uuid) (queue : List (Uuid × TransactionTemplate))
  | failed
deriving DecidableEq

inductive Action where
  | scanStart
  | occur (req : Request)
  | run (auth : Option Uuid) (ledger template : Uuid)
  | processDue (auth : Option Uuid)
  | post (req : Request)
  | newDay (day : NaiveDate)

/-- A turn of the scan's loop. -/
def occur (sh : Shared) (today : NaiveDate) (c : CatchUp) (rest : List CatchUp) (req : Request) :
    Shared × Place :=
  match runOccurrence sh.db req c.current with
  | (.ok true, db) =>
    ({ sh with
        db := db
        generated := sh.generated ++ [⟨c.template.id, c.cursor, req.txnId 0⟩] },
      match advanceFrequency c.cursor c.template.frequency with
      | some next => .scanning today (c.proceed today next rest)
      | none => .failed)
  -- A duplicate ends the catch-up of its template.
  | (.ok false, db) => ({ sh with db := db }, .scanning today rest)
  | (.error _, db) => ({ sh with db := db }, .failed)

/-- A route posts the template it has come to.  `process_due` goes on after an error, and `run`
has nothing left. -/
def post (sh : Shared) (user ledger : Uuid) (t : TransactionTemplate)
    (rest : List (Uuid × TransactionTemplate)) (req : Request) : Shared × Place :=
  match Templates.runTemplate sh.db req ledger t (templatePostingsOf sh.db t.id) t.nextDate user with
  | (.ok txn, db) =>
    ({ sh with db := db, generated := sh.generated ++ [⟨t.id, t.nextDate, txn⟩] },
      .posting user rest)
  | (.error _, db) => ({ sh with db := db }, .posting user rest)

/-- The scans and the routes, one action at a time. -/
def act (_ : ℕ) (sh : Shared) : Place → Action → Shared × Place
  | place, .newDay day => (if sh.today ≤ day then { sh with today := day } else sh, place)
  | .idle, .scanStart =>
    (sh, .scanning sh.today ((dueTemplates sh.db sh.today).map CatchUp.start))
  | .scanning today (c :: rest), .occur req => occur sh today c rest req
  | .idle, .run auth ledger template =>
    (sh, match Templates.readForRun sh.db auth ledger template with
      | .ok (user, t) => .posting user [(ledger, t)]
      | .error _ => .failed)
  | .idle, .processDue auth =>
    (sh, match Templates.readForProcessDue sh.db auth sh.today with
      | .ok (user, queue) => .posting user queue
      | .error _ => .failed)
  | .posting user ((ledger, t) :: rest), .post req => post sh user ledger t rest req
  | place, _ => (sh, place)

/-- Everything that is under way. -/
abbrev State := Threads.State ℕ Shared Place

/-- Anything takes its next action. -/
def step : State → ℕ × Action → State := Threads.step act

/-! ## What is claimed of a template -/

/-- The dates of the entries generated from a template. -/
def Shared.datesOf (sh : Shared) (template : Uuid) : List NaiveDate :=
  (sh.generated.filter fun g => g.template = template).map Generated.date

/-- One entry for each occurrence up to the day, and no other. -/
def ExactlyOnce (t : TransactionTemplate) (d : NaiveDate) (sh : Shared) : Prop :=
  (sh.datesOf t.id).Nodup ∧
    ∀ x, x ∈ sh.datesOf t.id ↔ (∃ i, occurrence t.frequency t.nextDate i = some x) ∧ x ≤ d

def Absent (template : Uuid) (queue : List CatchUp) : Prop :=
  ∀ c ∈ queue, c.template.id ≠ template

/-- With this action a scan of the day `d` is through with the template: the template is not due
when the scan starts, or it has left the queue. -/
def Through (template : Uuid) (d : NaiveDate) (s : State) (m : ℕ × Action) : Prop :=
  ∃ rest, (step s m).place m.1 = .scanning d rest ∧ Absent template rest ∧
    (s.place m.1 = .idle ∧ m.2 = .scanStart ∨
      ∃ queue, s.place m.1 = .scanning d queue ∧ ¬ Absent template queue)

/-- A scan that starts finds at most `120` occurrences of the template due. -/
def AtMost120Due (template : Uuid) (s : State) : ℕ × Action → Prop
  | (n, .scanStart) =>
    s.place n = .idle → ∀ t ∈ dueTemplates s.shared.db s.shared.today, t.id = template →
      ∀ x, occurrence t.frequency t.nextDate 120 = some x → s.shared.today < x
  | _ => True

/-- No turn of a scan finds its occurrence of the template posted. -/
def Place.fresh (template : Uuid) (sh : Shared) : Place → Bool
  | .scanning _ (c :: _) => c.template.id ≠ template || !decide (AlreadyPosted sh.db.books c.current)
  | _ => true

/-- The routes do not post the template, nor a transaction with its id. -/
def Place.spares (template txn : Uuid) : Place → Bool
  | .posting _ ((_, t) :: _) => t.id ≠ template && txn ≠ template
  | _ => true

/-- No occurrence of the template is met twice. -/
def Undisturbed (template : Uuid) (s : State) : ℕ × Action → Prop
  | (n, .occur _) => (s.place n).fresh template s.shared = true
  | (n, .post req) => (s.place n).spares template (req.txnId 0) = true
  | _ => True

/-! ## What a template keeps to -/

/-- The journal has the occurrence of the template on the day. -/
def Booked (b : Books) (template : Uuid) (d : NaiveDate) : Prop :=
  ∃ t ∈ b.transactions, t.templateId = some template ∧ t.txnDate = d

/-- The template, which started as `t₀`, has generated its first occurrences in order and stands
at the next one. -/
structure OnSchedule (t₀ : TransactionTemplate) (sh : Shared) : Prop where
  ids : (sh.db.templates.map TransactionTemplate.id).Nodup
  row : ∃ t ∈ sh.db.templates, t.id = t₀.id ∧ t.frequency = t₀.frequency ∧ t.isActive = t₀.isActive ∧
    occurrence t₀.frequency t₀.nextDate (sh.datesOf t₀.id).length = some t.nextDate
  dates : (sh.datesOf t₀.id).map some =
    (List.range (sh.datesOf t₀.id).length).map (occurrence t₀.frequency t₀.nextDate)
  nodup : (sh.datesOf t₀.id).Nodup
  booked : ∀ d, Booked sh.db.books t₀.id d ↔ d ∈ sh.datesOf t₀.id
  past : ∀ d ∈ sh.datesOf t₀.id, d ≤ sh.today

/-- A catch-up of the template in the queue of a scan. -/
structure Waiting (t₀ : TransactionTemplate) (sh : Shared) (today : NaiveDate) (c : CatchUp) :
    Prop where
  frequency : c.template.frequency = t₀.frequency
  reached : ∃ j ≤ (sh.datesOf t₀.id).length,
    occurrence t₀.frequency t₀.nextDate j = some c.cursor
  due : c.cursor ≤ today
  turns : occurrence t₀.frequency c.template.nextDate c.guard = some c.cursor
  few : c.guard < 120
  bound : ∀ x, occurrence t₀.frequency c.template.nextDate 120 = some x → today < x
  past : today ≤ sh.today

/-- The assertion of a place. -/
def Asserts (t₀ : TransactionTemplate) : Place → Shared → Prop
  | .scanning today queue, sh => ∀ c ∈ queue, c.template.id = t₀.id → Waiting t₀ sh today c
  | _, _ => True

/-- An action that leaves the template alone. -/
structure Frame (template : Uuid) (sh sh' : Shared) : Prop where
  ids : sh'.db.templates.map TransactionTemplate.id = sh.db.templates.map TransactionTemplate.id
  rows : ∀ t ∈ sh.db.templates, t.id = template → t ∈ sh'.db.templates
  booked : ∀ d, Booked sh'.db.books template d ↔ Booked sh.db.books template d
  dates : sh'.datesOf template = sh.datesOf template
  today : sh.today ≤ sh'.today

theorem Frame.refl (template : Uuid) (sh : Shared) : Frame template sh sh :=
  ⟨rfl, fun _ ht _ => ht, fun _ => Iff.rfl, rfl, le_rfl⟩

variable {t₀ : TransactionTemplate}
variable {sh : Shared} {c : CatchUp} {d today : NaiveDate} {template : Uuid} {req : Request}
  {rest : List CatchUp}

theorem OnSchedule.of_frame {sh' : Shared} (h : OnSchedule t₀ sh) (hf : Frame t₀.id sh sh') :
    OnSchedule t₀ sh' where
  ids := by rw [hf.ids]; exact h.ids
  row := by
    obtain ⟨t, ht, hid, hrest⟩ := h.row
    rw [hf.dates]
    exact ⟨t, hf.rows t ht hid, hid, hrest⟩
  dates := by rw [hf.dates]; exact h.dates
  nodup := by rw [hf.dates]; exact h.nodup
  booked d := by rw [hf.dates, hf.booked]; exact h.booked d
  past d hd := by
    rw [hf.dates] at hd
    exact (h.past d hd).trans hf.today

theorem Waiting.mono {sh' : Shared} (h : Waiting t₀ sh today c)
    (hlen : (sh.datesOf t₀.id).length ≤ (sh'.datesOf t₀.id).length)
    (htoday : sh.today ≤ sh'.today) : Waiting t₀ sh' today c :=
  { h with
    reached := by
      obtain ⟨j, hj, hcursor⟩ := h.reached
      exact ⟨j, hj.trans hlen, hcursor⟩
    past := h.past.trans htoday }

theorem Asserts.mono {sh' : Shared} {place : Place} (h : Asserts t₀ place sh)
    (hlen : (sh.datesOf t₀.id).length ≤ (sh'.datesOf t₀.id).length)
    (htoday : sh.today ≤ sh'.today) : Asserts t₀ place sh' := by
  cases place with
  | scanning today queue => exact fun c hc hid => (h c hc hid).mono hlen htoday
  | idle | posting | failed => trivial

theorem OnSchedule.getElem (h : OnSchedule t₀ sh) {j : ℕ} {x : NaiveDate}
    (hj : j < (sh.datesOf t₀.id).length) (hx : occurrence t₀.frequency t₀.nextDate j = some x) :
    x ∈ sh.datesOf t₀.id := by
  have hget := congrArg (fun l => l[j]?) h.dates
  simp only [List.getElem?_map, List.getElem?_range hj, Option.map_some, hx,
    List.getElem?_eq_getElem hj] at hget
  cases hget
  exact List.getElem_mem hj

theorem Waiting.next (h : OnSchedule t₀ sh) (hw : Waiting t₀ sh today c)
    (hnew : ¬ Booked sh.db.books t₀.id c.cursor) :
    occurrence t₀.frequency t₀.nextDate (sh.datesOf t₀.id).length = some c.cursor := by
  obtain ⟨j, hj, hcursor⟩ := hw.reached
  rcases hj.lt_or_eq with hlt | rfl
  · exact absurd ((h.booked _).mpr (h.getElem hlt hcursor)) hnew
  · exact hcursor

/-! ## The journal and the templates after a write -/

theorem booked_of_posts {b b' : Books} {t : Transaction} {ps : List Posting}
    (h : Books.Posts b b' t ps) :
    Booked b' template d ↔
      Booked b template d ∨ t.templateId = some template ∧ t.txnDate = d := by
  unfold Booked
  rw [h.transactions]
  simp only [List.mem_append, List.mem_singleton]
  constructor
  · rintro ⟨u, hu | rfl, hmark⟩
    · exact Or.inl ⟨u, hu, hmark⟩
    · exact Or.inr hmark
  · rintro (⟨u, hu, hmark⟩ | hmark)
    · exact ⟨u, Or.inl hu, hmark⟩
    · exact ⟨t, Or.inr rfl, hmark⟩

theorem setNextDate_ids (db : Db) (template : Uuid) (next : NaiveDate) :
    (setNextDate db template next).templates.map TransactionTemplate.id =
      db.templates.map TransactionTemplate.id := by
  simp only [setNextDate, List.map_map]
  refine List.map_congr_left fun t _ => ?_
  simp only [Function.comp_apply]
  split <;> rfl

theorem mem_setNextDate_of_ne (db : Db) {next : NaiveDate} {t : TransactionTemplate}
    (ht : t ∈ db.templates) (hne : t.id ≠ template) :
    t ∈ (setNextDate db template next).templates :=
  List.mem_map.mpr ⟨t, ht, by simp [hne]⟩

theorem datesOf_append (sh : Shared) (db : Db) (g : Generated) (template : Uuid) :
    Shared.datesOf { sh with db := db, generated := sh.generated ++ [g] } template =
      sh.datesOf template ++ if g.template = template then [g.date] else [] := by
  by_cases h : g.template = template <;> simp [Shared.datesOf, h]

/-! ## Actions that leave the template alone -/

theorem frame_of_advanced {db : Db} {o : Occurrence} {t : Transaction} {tpl : TransactionTemplate}
    {next : NaiveDate} {g : Generated} (h : Advanced sh.db db o t tpl next)
    (hne : o.templateId ≠ template) (hg : g.template ≠ template) :
    Frame template sh { sh with db := db, generated := sh.generated ++ [g] } := by
  obtain ⟨b', ps, hposts, rfl⟩ := h.writes
  refine ⟨setNextDate_ids _ _ _, fun t ht hid => ?_, fun d => ?_, ?_, le_rfl⟩
  · exact mem_setNextDate_of_ne { sh.db with books := b' } ht fun heq =>
      hne (heq.symm.trans hid)
  · refine (booked_of_posts hposts).trans (or_iff_left fun hmark => hne ?_)
    rw [h.marked.1] at hmark
    exact Option.some_injective _ hmark.1
  · rw [datesOf_append, if_neg hg, List.append_nil]

theorem frame_occur (hne : c.template.id ≠ template) :
    Frame template sh (occur sh today c rest req).1 := by
  unfold occur
  obtain ⟨r, db', hrun⟩ : ∃ r db', runOccurrence sh.db req c.current = (r, db') := ⟨_, _, rfl⟩
  rw [hrun]
  rcases runOccurrence_spec hrun with
    ⟨rfl, -, t, tpl, next, hadv⟩ | ⟨rfl, -, rfl⟩ | ⟨⟨e, rfl⟩, rfl⟩
  · exact frame_of_advanced hadv hne hne
  · exact Frame.refl _ _
  · exact Frame.refl _ _

theorem frame_post {user ledger : Uuid} {t : TransactionTemplate}
    {rest : List (Uuid × TransactionTemplate)} (hne : t.id ≠ template)
    (htxn : req.txnId 0 ≠ template) :
    Frame template sh (post sh user ledger t rest req).1 := by
  unfold post
  obtain ⟨r, db', hrun⟩ : ∃ r db', Templates.runTemplate sh.db req ledger t
    (templatePostingsOf sh.db t.id) t.nextDate user = (r, db') := ⟨_, _, rfl⟩
  rw [hrun]
  rcases Templates.runTemplate_spec hrun with
    ⟨⟨e, rfl⟩, rfl⟩ | ⟨u, b', ps, next, rfl, hid, hmark, -, hposts, rfl⟩
  · exact Frame.refl _ _
  · refine ⟨setNextDate_ids _ _ _, fun v hv hvid => ?_, fun d => ?_, ?_, le_rfl⟩
    · exact mem_setNextDate_of_ne { sh.db with books := b' } hv fun heq =>
        htxn (heq.symm.trans hvid)
    · refine (booked_of_posts hposts).trans (or_iff_left fun hm => ?_)
      rw [hmark] at hm
      cases hm.1
    · rw [datesOf_append, if_neg hne, List.append_nil]

/-- A turn fails, or leaves a queue with the rest of the templates and at most its own. -/
theorem occur_queue (sh : Shared) (today : NaiveDate) (c : CatchUp) (rest : List CatchUp)
    (req : Request) :
    (occur sh today c rest req).2 = .failed ∨
      ∃ queue, (occur sh today c rest req).2 = .scanning today queue ∧
        (∀ e ∈ queue, e ∈ rest ∨ e.template.id = c.template.id) ∧ rest ⊆ queue := by
  have hproceed : ∀ next, (∀ e ∈ c.proceed today next rest,
      e ∈ rest ∨ e.template.id = c.template.id) ∧ rest ⊆ c.proceed today next rest := by
    intro next
    unfold CatchUp.proceed
    split
    · refine ⟨fun e he => ?_, List.subset_cons_self _ _⟩
      rcases List.mem_cons.mp he with rfl | he
      · exact Or.inr rfl
      · exact Or.inl he
    · exact ⟨fun e he => Or.inl he, List.Subset.refl _⟩
  unfold occur
  split
  · dsimp only
    split
    · exact Or.inr ⟨_, rfl, hproceed _⟩
    · exact Or.inl rfl
  · exact Or.inr ⟨rest, rfl, fun e he => Or.inl he, List.Subset.refl _⟩
  · exact Or.inl rfl

/-! ## A turn of the template's own catch-up -/

theorem not_booked {b : Books} (hid : c.template.id = t₀.id) (hnew : ¬ AlreadyPosted b c.current) :
    ¬ Booked b t₀.id c.cursor := by
  rw [← hid]
  exact hnew

/-- A turn that finds its occurrence unposted fails, or posts the next occurrence. -/
theorem occur_own (rest : List CatchUp) (req : Request) (h : OnSchedule t₀ sh)
    (hid : c.template.id = t₀.id) (hw : Waiting t₀ sh today c)
    (hnew : ¬ AlreadyPosted sh.db.books c.current) :
    occur sh today c rest req = (sh, .failed) ∨
      ∃ next, OnSchedule t₀ (occur sh today c rest req).1 ∧
        (occur sh today c rest req).1.datesOf t₀.id = sh.datesOf t₀.id ++ [c.cursor] ∧
        (occur sh today c rest req).1.today = sh.today ∧
        occurrence t₀.frequency t₀.nextDate ((sh.datesOf t₀.id).length + 1) = some next ∧
        advanceFrequency c.cursor t₀.frequency = some next ∧
        (occur sh today c rest req).2 = .scanning today (c.proceed today next rest) := by
  have hbooked := not_booked hid hnew
  have hcursor := hw.next h hbooked
  unfold occur
  obtain ⟨r, db', hrun⟩ : ∃ r db', runOccurrence sh.db req c.current = (r, db') := ⟨_, _, rfl⟩
  rw [hrun]
  rcases runOccurrence_spec hrun with
    ⟨rfl, -, t, tpl, next, hadv⟩ | ⟨-, hposted, -⟩ | ⟨⟨e, rfl⟩, rfl⟩
  · right
    -- The row that `frequency_of` reads is the row of the template.
    obtain ⟨row, hrow, hrowid, hrowfreq, hrowactive, hrownext⟩ := h.row
    have htpl : tpl = row := by
      have hfound := hadv.found
      have htplid : tpl.id = row.id := by
        have hmatches := List.find?_some hfound
        rw [hrowid, ← hid]
        exact of_decide_eq_true hmatches
      exact List.inj_on_of_nodup_map h.ids (List.mem_of_find?_eq_some hfound) hrow htplid
    subst htpl
    have hnext : advanceFrequency c.cursor t₀.frequency = some next := by
      rw [← hrowfreq]
      exact hadv.advanced
    have hlater : occurrence t₀.frequency t₀.nextDate ((sh.datesOf t₀.id).length + 1) =
        some next := by
      rw [occurrence, hcursor]
      exact hnext
    have hdates := datesOf_append sh db' ⟨c.template.id, c.cursor, req.txnId 0⟩ t₀.id
    rw [if_pos hid] at hdates
    obtain ⟨b', ps, hposts, rfl⟩ := hadv.writes
    refine ⟨next, ⟨?_, ?_, ?_, ?_, ?_, ?_⟩, hdates, rfl, hlater, hnext, ?_⟩
    · rw [setNextDate_ids]
      exact h.ids
    · refine ⟨{ tpl with nextDate := next }, List.mem_map.mpr ⟨tpl, hrow, ?_⟩, hrowid, hrowfreq,
        hrowactive, ?_⟩
      · exact if_pos (hrowid.trans hid.symm)
      · rw [hdates, List.length_append]
        exact hlater
    · rw [hdates, List.length_append, List.length_singleton, List.range_succ, List.map_append,
        List.map_append, h.dates, List.map_singleton, List.map_singleton, hcursor]
    · rw [hdates, ← List.concat_eq_append]
      exact h.nodup.concat fun hd => hbooked ((h.booked _).mpr hd)
    · intro d
      rw [hdates, List.mem_append, List.mem_singleton, ← h.booked d]
      refine (booked_of_posts hposts).trans (or_congr_right ?_)
      rw [hadv.marked.1, hadv.marked.2]
      constructor
      · exact fun hm => hm.2.symm
      · rintro rfl
        exact ⟨congrArg some hid, rfl⟩
    · intro d hd
      rw [hdates, List.mem_append, List.mem_singleton] at hd
      rcases hd with hd | rfl
      · exact h.past d hd
      · exact hw.due.trans hw.past
    · rw [hw.frequency, hnext]
  · exact absurd hposted hnew
  · exact Or.inl rfl

/-! ## Along a run -/

/-- What an action is: a move of the clock at most, a scan, an occurrence or a manual post. -/
theorem act_cases (n : ℕ) (sh : Shared) (place : Place) (a : Action) :
    (∃ day, sh.today ≤ day ∧ (act n sh place a).1 = { sh with today := day } ∧
        ((act n sh place a).2 = place ∨
          ∀ today queue, (act n sh place a).2 ≠ .scanning today queue)) ∨
      (place = .idle ∧ a = .scanStart) ∨
      (∃ today c rest req, place = .scanning today (c :: rest) ∧ a = .occur req) ∨
      ∃ user ledger t rest req, place = .posting user ((ledger, t) :: rest) ∧ a = .post req := by
  have hstay : ∃ day, sh.today ≤ day ∧ sh = { sh with today := day } ∧
      (place = place ∨ ∀ today queue, place ≠ .scanning today queue) :=
    ⟨sh.today, le_rfl, rfl, Or.inl rfl⟩
  cases a with
  | newDay day =>
    left
    by_cases hday : sh.today ≤ day
    · exact ⟨day, hday, by simp [act, hday], Or.inl (by simp [act])⟩
    · exact ⟨sh.today, le_rfl, by simp [act, hday], Or.inl (by simp [act])⟩
  | scanStart =>
    cases place with
    | idle => exact Or.inr (Or.inl ⟨rfl, rfl⟩)
    | scanning | posting | failed => exact Or.inl hstay
  | occur req =>
    match place with
    | .scanning today (c :: rest) => exact Or.inr (Or.inr (Or.inl ⟨today, c, rest, req, rfl, rfl⟩))
    | .scanning today [] | .idle | .posting _ _ | .failed => exact Or.inl hstay
  | run auth ledger template =>
    cases place with
    | idle =>
      refine Or.inl ⟨sh.today, le_rfl, rfl, Or.inr fun today queue => ?_⟩
      simp only [act]
      split <;> exact Place.noConfusion
    | scanning | posting | failed => exact Or.inl hstay
  | processDue auth =>
    cases place with
    | idle =>
      refine Or.inl ⟨sh.today, le_rfl, rfl, Or.inr fun today queue => ?_⟩
      simp only [act]
      split <;> exact Place.noConfusion
    | scanning | posting | failed => exact Or.inl hstay
  | post req =>
    match place with
    | .posting user ((ledger, t) :: rest) =>
      exact Or.inr (Or.inr (Or.inr ⟨user, ledger, t, rest, req, rfl, rfl⟩))
    | .posting _ [] | .idle | .scanning _ _ | .failed => exact Or.inl hstay

/-- What one action keeps, for its own thread and for the others. -/
structure Kept (t₀ : TransactionTemplate) (sh : Shared) (r : Shared × Place) : Prop where
  onSchedule : OnSchedule t₀ r.1
  asserts : Asserts t₀ r.2 r.1
  length : (sh.datesOf t₀.id).length ≤ (r.1.datesOf t₀.id).length
  today : sh.today ≤ r.1.today

theorem Kept.of_frame {r : Shared × Place} (h : OnSchedule t₀ sh) (hf : Frame t₀.id sh r.1)
    (hasserts : Asserts t₀ r.2 r.1) : Kept t₀ sh r :=
  ⟨h.of_frame hf, hasserts, hf.dates ▸ le_rfl, hf.today⟩

theorem kept_scanStart (h : OnSchedule t₀ sh)
    (hfew : ∀ t ∈ dueTemplates sh.db sh.today, t.id = t₀.id →
      ∀ x, occurrence t.frequency t.nextDate 120 = some x → sh.today < x) :
    Kept t₀ sh (sh, .scanning sh.today ((dueTemplates sh.db sh.today).map CatchUp.start)) := by
  refine Kept.of_frame h (Frame.refl _ _) fun c hc hid => ?_
  obtain ⟨t, ht, rfl⟩ := List.mem_map.mp hc
  obtain ⟨hmem, hdue⟩ := List.mem_filter.mp ht
  obtain ⟨row, hrow, hrowid, hrowfreq, -, hrownext⟩ := h.row
  have hrow_eq : t = row :=
    List.inj_on_of_nodup_map h.ids hmem hrow (hid.trans hrowid.symm)
  subst hrow_eq
  simp only [Bool.and_eq_true, decide_eq_true_eq] at hdue
  refine ⟨hrowfreq, ⟨_, le_rfl, hrownext⟩, hdue.2, rfl, Nat.zero_lt_succ 119, fun x hx => ?_,
    le_rfl⟩
  rw [← hrowfreq] at hx
  exact hfew t ht hid x hx

/-- An occurrence keeps the template on schedule unless its entry is out of date. -/
theorem kept_occur (h : OnSchedule t₀ sh) (hplace : Asserts t₀ (.scanning today (c :: rest)) sh)
    (hfresh : (Place.scanning today (c :: rest)).fresh t₀.id sh = true) :
    Kept t₀ sh (occur sh today c rest req) := by
  have hrest : Asserts t₀ (.scanning today rest) sh := fun e he =>
    hplace e (List.mem_cons_of_mem _ he)
  by_cases hid : c.template.id = t₀.id
  · have hw := hplace c List.mem_cons_self hid
    have hnew : ¬ AlreadyPosted sh.db.books c.current := by
      simpa [Place.fresh, hid] using hfresh
    rcases occur_own rest req h hid hw hnew with
      hfailed | ⟨next, hon, hdates, htoday, hnext, hadv, hqueue⟩
    · rw [hfailed]
      exact Kept.of_frame h (Frame.refl _ _) trivial
    · have hlen : ((occur sh today c rest req).1.datesOf t₀.id).length =
          (sh.datesOf t₀.id).length + 1 := by
        rw [hdates, List.length_append, List.length_singleton]
      refine ⟨hon, ?_, by omega, htoday.ge⟩
      have hothers : Asserts t₀ (.scanning today rest) (occur sh today c rest req).1 :=
        hrest.mono (by omega) htoday.ge
      rw [hqueue]
      unfold CatchUp.proceed
      split
      · rename_i hproceed
        intro e he heid
        rcases List.mem_cons.mp he with rfl | he
        · refine ⟨hw.frequency, ⟨_, hlen.ge, hnext⟩, hproceed.1, ?_, hproceed.2, hw.bound,
            htoday ▸ hw.past⟩
          show occurrence t₀.frequency c.template.nextDate (c.guard + 1) = some next
          rw [occurrence, hw.turns]
          exact hadv
        · exact hothers e he heid
      · exact hothers
  · have hframe : Frame t₀.id sh (occur sh today c rest req).1 := frame_occur hid
    have hothers : Asserts t₀ (.scanning today rest) (occur sh today c rest req).1 :=
      hrest.mono (hframe.dates ▸ le_rfl) hframe.today
    refine Kept.of_frame h hframe ?_
    rcases occur_queue sh today c rest req with hfailed | ⟨queue, hqueue, hsub, -⟩
    · rw [hfailed]
      trivial
    · rw [hqueue]
      intro e he heid
      rcases hsub e he with he | he
      · exact hothers e he heid
      · exact absurd (he ▸ heid) hid

/-- What the actions of a run have to meet. -/
def Calm (template : Uuid) (s : State) (m : ℕ × Action) : Prop :=
  AtMost120Due template s m ∧ Undisturbed template s m

/-- The invariant, for one calm action. -/
theorem kept_act {s : State} {n : ℕ} {a : Action} (h : OnSchedule t₀ s.shared)
    (hplace : Asserts t₀ (s.place n) s.shared) (hcalm : Calm t₀.id s (n, a)) :
    Kept t₀ s.shared (act n s.shared (s.place n) a) := by
  rcases act_cases n s.shared (s.place n) a with
    ⟨day, hday, hsh, hother⟩ | ⟨hidle, rfl⟩ | ⟨today, c, rest, req, hscan, rfl⟩ |
    ⟨user, ledger, t, rest, req, hpost, rfl⟩
  · have hframe : Frame t₀.id s.shared (act n s.shared (s.place n) a).1 := by
      rw [hsh]
      exact ⟨rfl, fun _ ht _ => ht, fun _ => Iff.rfl, rfl, hday⟩
    refine Kept.of_frame h hframe ?_
    rcases hother with hsame | hnone
    · rw [hsame]
      exact hplace.mono (hframe.dates ▸ le_rfl) hframe.today
    · cases hnext : (act n s.shared (s.place n) a).2 with
      | scanning today queue => exact absurd hnext (hnone today queue)
      | idle | posting | failed => trivial
  · rw [hidle]
    exact kept_scanStart h (hcalm.1 hidle)
  · have hfresh := hcalm.2
    simp only [Undisturbed] at hfresh
    rw [hscan] at hplace hfresh ⊢
    exact kept_occur h hplace hfresh
  · have hspares := hcalm.2
    simp only [Undisturbed, hpost, Place.spares, Bool.and_eq_true, decide_eq_true_eq] at hspares
    rw [hpost]
    refine Kept.of_frame h (frame_post hspares.1 hspares.2) ?_
    simp only [act, post]
    split <;> trivial

theorem outline : Threads.Outline act (Calm t₀.id) (OnSchedule t₀)
    fun _ place sh => Asserts t₀ place sh where
  sequential {_ n _} hs hC :=
    have hkept := kept_act hs.inv (hs.places n) hC
    ⟨hkept.onSchedule, hkept.asserts⟩
  stable {_ n j _} hs hC _ :=
    have hkept := kept_act hs.inv (hs.places n) hC
    (hs.places j).mono hkept.length hkept.today

/-! ## When a scan is through -/

theorem OnSchedule.exactlyOnce {next : NaiveDate} (h : OnSchedule t₀ sh)
    (hnext : occurrence t₀.frequency t₀.nextDate (sh.datesOf t₀.id).length = some next)
    (hlater : d < next) (hpast : ∀ x ∈ sh.datesOf t₀.id, x ≤ d) : ExactlyOnce t₀ d sh := by
  refine ⟨h.nodup, fun x => ⟨fun hx => ⟨?_, hpast x hx⟩, ?_⟩⟩
  · have hsome : some x ∈ (sh.datesOf t₀.id).map some := List.mem_map_of_mem hx
    rw [h.dates] at hsome
    obtain ⟨i, -, hi⟩ := List.mem_map.mp hsome
    exact ⟨i, hi⟩
  · rintro ⟨⟨i, hi⟩, hxd⟩
    rcases lt_or_ge i (sh.datesOf t₀.id).length with hlt | hge
    · exact h.getElem hlt hi
    · exact absurd ((occurrence_le hge hnext hi).trans hxd) (not_le.mpr hlater)

theorem exactlyOnce_scanStart (h : OnSchedule t₀ sh) (hactive : t₀.isActive = true)
    (habsent : Absent t₀.id ((dueTemplates sh.db sh.today).map CatchUp.start)) :
    ExactlyOnce t₀ sh.today sh := by
  obtain ⟨row, hrow, hrowid, -, hrowactive, hrownext⟩ := h.row
  refine h.exactlyOnce hrownext (not_le.mp fun hdue => ?_) h.past
  refine habsent (CatchUp.start row) (List.mem_map_of_mem ?_) hrowid
  exact List.mem_filter.mpr ⟨hrow, by simp [hrowactive, hactive, hdue]⟩

theorem exactlyOnce_occur {queue : List CatchUp} (h : OnSchedule t₀ sh)
    (hplace : Asserts t₀ (.scanning d (c :: rest)) sh)
    (hfresh : (Place.scanning d (c :: rest)).fresh t₀.id sh = true)
    (hthere : ¬ Absent t₀.id (c :: rest)) (hgone : Absent t₀.id queue)
    (hqueue : (occur sh d c rest req).2 = .scanning d queue) :
    ExactlyOnce t₀ d (occur sh d c rest req).1 := by
  have hid : c.template.id = t₀.id := by
    by_contra hid
    refine hthere fun e he => ?_
    rcases List.mem_cons.mp he with rfl | he
    · exact hid
    · rcases occur_queue sh d c rest req with hfailed | ⟨queue', hqueue', -, hsub⟩
      · rw [hfailed] at hqueue
        cases hqueue
      · rw [hqueue'] at hqueue
        cases hqueue
        exact hgone e (hsub he)
  have hw := hplace c List.mem_cons_self hid
  have hnew : ¬ AlreadyPosted sh.db.books c.current := by
    simpa [Place.fresh, hid] using hfresh
  rcases occur_own rest req h hid hw hnew with
    hfailed | ⟨next, hon, hdates, -, hnext, hadv, hproceed⟩
  · rw [hfailed] at hqueue
    cases hqueue
  · have hlen : ((occur sh d c rest req).1.datesOf t₀.id).length =
        (sh.datesOf t₀.id).length + 1 := by
      rw [hdates, List.length_append, List.length_singleton]
    refine hon.exactlyOnce (hlen ▸ hnext) (not_le.mp fun hdue => ?_) fun x hx => ?_
    · -- The loop stops for the guard only, and that allows every due occurrence.
      rw [hqueue] at hproceed
      cases hproceed
      have hfew := hw.few
      have hstop : ¬ c.guard + 1 < 120 := fun hguard =>
        hgone { c with cursor := next, guard := c.guard + 1 }
          (by rw [CatchUp.proceed, if_pos ⟨hdue, hguard⟩]; exact List.mem_cons_self) hid
      have hlast : occurrence t₀.frequency c.template.nextDate 120 = some next := by
        rw [show 120 = c.guard + 1 by omega, occurrence, hw.turns]
        exact hadv
      exact absurd hdue (not_le.mpr (hw.bound next hlast))
    · have hsome : some x ∈ ((occur sh d c rest req).1.datesOf t₀.id).map some :=
        List.mem_map_of_mem hx
      rw [hon.dates] at hsome
      obtain ⟨i, hi, hix⟩ := List.mem_map.mp hsome
      have hle : i ≤ (sh.datesOf t₀.id).length := by
        have := List.mem_range.mp hi
        omega
      exact (occurrence_le hle hix (hw.next h (not_booked hid hnew))).trans hw.due

/-- A template that a scan gets through has exactly one entry for the date. -/
theorem exactlyOnce_of_through {s : State} {m : ℕ × Action}
    (hs : Threads.Holds (OnSchedule t₀) (fun _ place sh => Asserts t₀ place sh) s)
    (hactive : t₀.isActive = true) (hcalm : Calm t₀.id s m) (hthrough : Through t₀.id d s m) :
    ExactlyOnce t₀ d (step s m).shared := by
  obtain ⟨n, a⟩ := m
  obtain ⟨rest, hafter, hgone, ⟨hidle, hstart⟩ | ⟨queue, hscan, hthere⟩⟩ := hthrough
  · cases hstart
    simp only [step, Threads.step, Function.update_self, hidle, act] at hafter ⊢
    cases hafter
    exact exactlyOnce_scanStart hs.inv hactive hgone
  · simp only [step, Threads.step, Function.update_self] at hafter hscan ⊢
    have hplace := hs.places n
    rcases act_cases n s.shared (s.place n) a with
      ⟨day, -, -, hother⟩ | ⟨hidle, -⟩ | ⟨today, c, rest', req, hscan', rfl⟩ |
      ⟨user, ledger, t, rest', req, hpost, -⟩
    · rcases hother with hsame | hnone
      · rw [hsame, hscan] at hafter
        cases hafter
        exact absurd hgone hthere
      · exact absurd hafter (hnone d rest)
    · rw [hidle] at hscan
      cases hscan
    · rw [hscan'] at hscan
      cases hscan
      have hfresh := hcalm.2
      simp only [Undisturbed] at hfresh
      rw [hscan'] at hplace hfresh hafter ⊢
      exact exactlyOnce_occur hs.inv hplace hfresh hthere hgone hafter
    · rw [hpost] at hscan
      cases hscan

/-- A template as it stands before anything has run. -/
structure Untouched (t₀ : TransactionTemplate) (s : State) : Prop where
  ids : (s.shared.db.templates.map TransactionTemplate.id).Nodup
  mem : t₀ ∈ s.shared.db.templates
  unmarked : ∀ t ∈ s.shared.db.books.transactions, t.templateId ≠ some t₀.id
  generated : s.shared.generated = []
  idle : ∀ n, s.place n = .idle

theorem Untouched.holds {s : State} (h : Untouched t₀ s) :
    Threads.Holds (OnSchedule t₀) (fun _ place sh => Asserts t₀ place sh) s := by
  have hdates : s.shared.datesOf t₀.id = [] := by simp [Shared.datesOf, h.generated]
  refine ⟨⟨h.ids, ⟨t₀, h.mem, rfl, rfl, rfl, by rw [hdates]; rfl⟩, by rw [hdates]; rfl,
    by rw [hdates]; exact List.nodup_nil, fun d => ?_, by rw [hdates]; exact fun d hd => nomatch hd⟩,
    fun n => ?_⟩
  · rw [hdates]
    refine ⟨fun ⟨t, ht, hmark, _⟩ => absurd hmark (h.unmarked t ht), fun hd => nomatch hd⟩
  · rw [h.idle]
    trivial

/-- Whenever a scan is through with the template, it has one entry for each occurrence up to the
day of the scan. -/
def PostsExactlyOnce (t₀ : TransactionTemplate) (s : State) (actions : List (ℕ × Action)) : Prop :=
  ∀ d front m back, actions = front ++ m :: back → Through t₀.id d (Runs.exec step s front) m →
    ExactlyOnce t₀ d (step (Runs.exec step s front) m).shared

/-- Every interleaving does so in which no route posts the template and no scan finds an occurrence
of it posted. -/
theorem postsExactlyOnce_of_undisturbed {s : State} {actions : List (ℕ × Action)}
    (hs : Untouched t₀ s) (hactive : t₀.isActive = true)
    (hfew : Runs.Meets step (AtMost120Due t₀.id) s actions)
    (hcalm : Runs.Meets step (Undisturbed t₀.id) s actions) : PostsExactlyOnce t₀ s actions := by
  rintro d front m back rfl hthrough
  have hmeets : Runs.Meets step (Calm t₀.id) s (front ++ m :: back) := hfew.and hcalm
  have hholds := outline.holds hs.holds hmeets.left _ (Runs.exec_mem_visited s front)
  exact exactlyOnce_of_through hholds hactive (hmeets.of_split front) hthrough

namespace Sample

open OpenAccounting.Sample

/-- Rent on the fifteenth of each month. -/
def rent : TransactionTemplate where
  id := 40
  ledgerId := ledgerId
  description := "Rent"
  frequency := "monthly"
  nextDate := march 15

theorem rent_scale : Rounding.HasScale 4 500 := by decide +kernel

/-- The sample ledger on 15 March, with the rent due. -/
def start : State where
  shared :=
    { db :=
        { OpenAccounting.Sample.db with
          templates := [rent]
          templatePostings :=
            [{ templateId := rent.id, accountId := sales, direction := .debit, amount := 500,
               amount_scale := rent_scale },
             { templateId := rent.id, accountId := cash, direction := .credit, amount := 500,
               amount_scale := rent_scale }] }
      today := march 15 }
  place _ := .idle

theorem start_untouched : Untouched rent start where
  ids := List.nodup_singleton _
  mem := List.mem_singleton_self _
  unmarked _ ht := nomatch ht
  generated := rfl
  idle _ := rfl

def scan (n seed : ℕ) : List (ℕ × Action) := [(n, .scanStart), (n, .occur (request seed))]

/-- The owner runs the template, and then comes a scan. -/
def byHand : List (ℕ × Action) :=
  [(0, .run (some owner) ledgerId rent.id), (0, .post (request 1))] ++ scan 1 2

theorem rent_occurrence :
    occurrence rent.frequency rent.nextDate 120 = NaiveDate.fromYmdOpt 2036 3 15 := by
  decide +kernel

theorem atMost120Due_of_templates {s : State} {n : ℕ} (htemplates : s.shared.db.templates = [rent])
    (htoday : s.shared.today = march 15) : AtMost120Due rent.id s (n, .scanStart) := by
  intro _ t ht _ x hx
  have hmem := (List.mem_filter.mp ht).1
  rw [htemplates, List.mem_singleton] at hmem
  rw [hmem, rent_occurrence] at hx
  rw [htoday]
  have hlate : ∀ x ∈ NaiveDate.fromYmdOpt 2036 3 15, march 15 < x := by decide
  exact hlate x hx

end Sample

/-- The rent of 15 March is posted by the owner and once more by the scan. -/
theorem byHand_not_postsExactlyOnce :
    Untouched Sample.rent Sample.start ∧ Sample.rent.isActive = true ∧
      Runs.Meets step (AtMost120Due Sample.rent.id) Sample.start Sample.byHand ∧
      ¬ PostsExactlyOnce Sample.rent Sample.start Sample.byHand := by
  refine ⟨Sample.start_untouched, rfl, ⟨trivial, trivial, ?_, trivial, trivial⟩, fun h => ?_⟩
  · exact Sample.atMost120Due_of_templates (by decide +kernel) (by decide +kernel)
  · have htwice := h (OpenAccounting.Sample.march 15) (Sample.byHand.take 3)
      (1, .occur (OpenAccounting.Sample.request 2)) [] rfl
      ⟨[], ?_, List.forall_mem_nil _, Or.inr ?_⟩
    · exact absurd htwice.1 (by decide +kernel)
    · decide +kernel
    · refine ⟨[CatchUp.start Sample.rent], by decide +kernel, fun hgone => ?_⟩
      exact hgone _ (List.mem_singleton_self _) rfl

/-- A scan alone posts the rent of 15 March. -/
theorem postsExactlyOnce_of_undisturbed_scan :
    ExactlyOnce Sample.rent (OpenAccounting.Sample.march 15)
      (Runs.exec step Sample.start (Sample.scan 0 1)).shared := by
  have hposts : PostsExactlyOnce Sample.rent Sample.start (Sample.scan 0 1) := by
    refine postsExactlyOnce_of_undisturbed Sample.start_untouched rfl ⟨?_, trivial, trivial⟩
      ⟨trivial, ?_, trivial⟩
    · exact Sample.atMost120Due_of_templates rfl rfl
    · show Place.fresh _ _ _ = true
      decide
  refine hposts _ [(0, .scanStart)] (0, .occur (OpenAccounting.Sample.request 1)) [] rfl
    ⟨[], by decide +kernel, List.forall_mem_nil _, Or.inr ⟨[CatchUp.start Sample.rent], ?_, ?_⟩⟩
  · decide
  · exact fun hgone => hgone _ (List.mem_singleton_self _) rfl

end OpenAccounting.Recurring
