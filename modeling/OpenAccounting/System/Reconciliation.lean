import OpenAccounting.Handlers.RecSessions
import OpenAccounting.Lib.Threads
import OpenAccounting.System.JournalOps

/-!
# Closed reconciliations

Requests of `clear`, `unclear`, `finish` and `unreconcile` run interleaved, any number of them on any
session.  Each reads the session, `finish` then reads the cleared sum, and in the end each writes,
without a database transaction around it.  What else a request reads no request writes.

A closed session balances as long as each write finds what its request has read: `clear` and
`unclear` an open session, or a line that makes no difference, and `finish` the cleared sum
(`Undisturbed`).  This is not only enough but what it takes (`balanced_iff_undisturbed`).
-/

namespace OpenAccounting.RecSessions

open Commit Relational

/-- Where a request is. -/
inductive Place where
  | idle
  | clearing (session line : Uuid)
  | unclearing (session line : Uuid)
  /-- `finish` before it reads the cleared sum. -/
  | summing (session : RecSession)
  /-- `finish` with the sum that passed its gate. -/
  | closing (session : Uuid) (cleared : ℚ)
  | reopening (session : Uuid)

/-- One action: a request arrives and reads its session, or goes on. -/
inductive Action where
  | clear (auth : Option Uuid) (path : Path) (form : ClearForm)
  | unclear (auth : Option Uuid) (path : Path) (form : UnclearForm)
  | finish (auth : Option Uuid) (path : Path)
  | unreconcile (auth : Option Uuid) (path : Path) (form : UnreconcileForm)
  | sum
  | write

/-- The next place, unless the request is refused. -/
def Place.unless {α : Type} (read : Except AppError α) (next : α → Place) : Place :=
  match read with
  | .ok a => next a
  | .error _ => .idle

/-- The write of a request. -/
def write (db : Db) : Place → Db
  | .clearing session line =>
    match setCleared db session line with
    | .ok db' => db'
    | .error _ => db
  | .unclearing session line => setUncleared db session line
  | .closing session _ => close db session
  | .reopening session => reopen db session
  | _ => db

/-- The steps of the four handlers. -/
def act (_ : ℕ) (db : Db) : Place → Action → Db × Place
  | .idle, .clear auth path form =>
    (db, .unless (readClear db auth path form) fun _ => .clearing path.session form.bankLineId)
  | .idle, .unclear auth path form =>
    (db, .unless (readUnclear db auth path) fun _ => .unclearing path.session form.bankLineId)
  | .idle, .finish auth path => (db, .unless (readFinish db auth path) .summing)
  | .idle, .unreconcile auth path form =>
    (db, .unless (readUnreconcile db auth path form) fun _ => .reopening path.session)
  | .summing session, .sum =>
    let cleared := clearedSum db session.id
    (db, .unless (checkFinish session cleared) fun _ => .closing session.id cleared)
  | .summing session, .write => (db, .summing session)
  | place, .write => (write db place, .idle)
  | place, _ => (db, place)

/-- Everything that is under way. -/
abbrev State := Threads.State ℕ Db Place

/-- A request takes its next action. -/
def step : State → ℕ × Action → State := Threads.step act

/-- Every closed session balances. -/
def Balanced (db : Db) : Prop :=
  ∀ s ∈ db.recSessions, s.status = .closed →
    s.openingBalance + clearedSum db s.id = s.stmtCloseBalance

/-! ## The condition -/

def Locked (db : Db) (session : Uuid) : Prop :=
  ∃ s ∈ db.recSessions, s.id = session ∧ s.status = .closed

instance (db : Db) (session : Uuid) : Decidable (Locked db session) := by
  unfold Locked
  infer_instance

def Cleared (db : Db) (session line : Uuid) : Prop :=
  ∃ r ∈ db.recLines, IsLine session line r ∧ r.cleared = true

instance (db : Db) (session line : Uuid) : Decidable (Cleared db session line) := by
  unfold Cleared
  infer_instance

def amountOf (db : Db) (line : Uuid) : ℚ :=
  ((db.bankStatementLines.filter fun b => b.id = line).map BankStatementLine.amount).sum

/-- The write finds what was read: its session open, or a line that makes no difference, and for
`finish` the sum. -/
def Place.Finds (db : Db) : Place → Prop
  | .clearing session line => Locked db session → Cleared db session line ∨ amountOf db line = 0
  | .unclearing session line => Locked db session → ¬ Cleared db session line ∨ amountOf db line = 0
  | .closing session cleared => clearedSum db session = cleared
  | .idle | .summing _ | .reopening _ => True

instance (db : Db) : (place : Place) → Decidable (place.Finds db)
  | .clearing session line =>
    inferInstanceAs (Decidable
      (Locked db session → Cleared db session line ∨ amountOf db line = 0))
  | .unclearing session line =>
    inferInstanceAs (Decidable
      (Locked db session → ¬ Cleared db session line ∨ amountOf db line = 0))
  | .closing session cleared => inferInstanceAs (Decidable (clearedSum db session = cleared))
  | .idle | .summing _ | .reopening _ => inferInstanceAs (Decidable True)

/-- Each write finds what its request has read. -/
def Undisturbed (s : State) : ℕ × Action → Prop
  | (n, .write) => (s.place n).Finds s.shared
  | _ => True

/-! ## The cleared sum -/

/-- What a row adds to the sum of a session. -/
def share (db : Db) (session : Uuid) (r : RecLine) : ℚ :=
  if r.sessionId = session ∧ r.cleared = true then amountOf db r.bankLineId else 0

theorem clearedSum_eq (db : Db) (session : Uuid) :
    clearedSum db session = (db.recLines.map (share db session)).sum := by
  rw [clearedSum, sum_map_filter, sum_innerJoin]
  refine congrArg List.sum (List.map_congr_left fun r _ => ?_)
  unfold share amountOf
  split
  · rfl
  · simp

/-- A row is named by its session and its line. -/
def lineKey (r : RecLine) : Uuid × Uuid := (r.sessionId, r.bankLineId)

/-- What is unique in the tables. -/
structure Keyed (db : Db) : Prop where
  sessions : (db.recSessions.map RecSession.id).Nodup
  lines : (db.recLines.map lineKey).Nodup

variable {db db' : Db} {session line : Uuid}

theorem isLine_iff {r row : RecLine} (hrow : IsLine session line row) :
    IsLine session line r ↔ lineKey r = lineKey row := by
  obtain ⟨rfl, rfl⟩ := hrow
  exact Prod.mk_inj.symm

theorem cleared_iff (hkeyed : Keyed db) {row : RecLine} (hmem : row ∈ db.recLines)
    (hrow : IsLine session line row) : Cleared db session line ↔ row.cleared = true := by
  constructor
  · rintro ⟨r, hr, hline, hcleared⟩
    rwa [List.inj_on_of_nodup_map hkeyed.lines hmem hr ((isLine_iff hrow).mp hline).symm]
  · exact fun hcleared => ⟨row, hmem, hrow, hcleared⟩

theorem share_of_isLine {r : RecLine} (hr : IsLine session line r) (db : Db) (other : Uuid) :
    share db other r = if session = other ∧ r.cleared = true then amountOf db line else 0 := by
  obtain ⟨rfl, rfl⟩ := hr
  rfl

/-- A write of lines. -/
structure OnlyLines (db db' : Db) : Prop where
  sessions : db'.recSessions = db.recSessions
  keys : (db'.recLines.map lineKey).Nodup

theorem mark_onlyLines (hkeyed : Keyed db) (cleared : Bool) :
    OnlyLines db (mark db session line cleared) where
  sessions := rfl
  keys := by
    have hkeys : (mark db session line cleared).recLines.map lineKey = db.recLines.map lineKey :=
      map_key_updateWhere (f := fun r : RecLine => { r with cleared }) fun _ => rfl
    rw [hkeys]
    exact hkeyed.lines

theorem clearedSum_mark (hkeyed : Keyed db) {row : RecLine} (hmem : row ∈ db.recLines)
    (hrow : IsLine session line row) (cleared : Bool) (other : Uuid) :
    clearedSum (mark db session line cleared) other +
        (if session = other ∧ Cleared db session line then amountOf db line else 0) =
      clearedSum db other + if session = other ∧ cleared = true then amountOf db line else 0 := by
  have hsum := sum_map_updateWhere hkeyed.lines hmem (fun _ => isLine_iff hrow)
    (fun r => { r with cleared }) (share db other)
  rw [share_of_isLine hrow, share_of_isLine (r := { row with cleared }) hrow] at hsum
  rw [clearedSum_eq, clearedSum_eq]
  simp only [cleared_iff hkeyed hmem hrow]
  exact hsum

theorem mark_of_absent (h : ¬ ∃ r ∈ db.recLines, IsLine session line r) (cleared : Bool) :
    mark db session line cleared = db := by
  have hrows : updateWhere (IsLine session line) (fun r => { r with cleared }) db.recLines =
      db.recLines :=
    (List.map_congr_left fun r hr => if_neg fun hline => h ⟨r, hr, hline⟩).trans (List.map_id' _)
  rw [mark, hrows]

theorem not_cleared_of_absent (h : ¬ ∃ r ∈ db.recLines, IsLine session line r) :
    ¬ Cleared db session line := fun ⟨r, hr, hline, _⟩ => h ⟨r, hr, hline⟩

/-- A line that was not cleared adds its amount to the session. -/
theorem setCleared_spec (hkeyed : Keyed db) (h : setCleared db session line = .ok db') :
    OnlyLines db db' ∧ ∀ other, clearedSum db' other = clearedSum db other +
      if session = other ∧ ¬ Cleared db session line then amountOf db line else 0 := by
  unfold setCleared at h
  split at h
  · next hrow =>
      obtain ⟨row, hmem, hrow⟩ := hrow
      obtain rfl := Except.ok.inj h
      refine ⟨mark_onlyLines hkeyed true, fun other => ?_⟩
      have hsum := clearedSum_mark hkeyed hmem hrow true other
      by_cases hcleared : Cleared db session line
      · simpa [hcleared] using hsum
      · simpa [hcleared] using hsum
  · next hrow =>
      simp only [bind_eq_ok, ensure_eq_ok] at h
      obtain ⟨-, -, -, -, h⟩ := h
      obtain rfl := Except.ok.inj h
      refine ⟨⟨rfl, nodup_map_concat.mpr ⟨hkeyed.lines, fun r hr heq => ?_⟩⟩, fun other => ?_⟩
      · exact hrow ⟨r, hr, Prod.mk.inj heq⟩
      · rw [clearedSum_eq, clearedSum_eq, List.map_append, List.sum_append, List.map_singleton,
          List.sum_singleton]
        refine congrArg (_ + ·) ?_
        simp [share, not_cleared_of_absent hrow]
        rfl

theorem setUncleared_spec (hkeyed : Keyed db) (session line : Uuid) :
    OnlyLines db (setUncleared db session line) ∧
      ∀ other, clearedSum (setUncleared db session line) other = clearedSum db other -
        if session = other ∧ Cleared db session line then amountOf db line else 0 := by
  refine ⟨mark_onlyLines hkeyed false, fun other => ?_⟩
  by_cases hrow : ∃ r ∈ db.recLines, IsLine session line r
  · obtain ⟨row, hmem, hrow⟩ := hrow
    have hsum := clearedSum_mark hkeyed hmem hrow false other
    simp only [Bool.false_eq_true, and_false, if_false, add_zero] at hsum
    exact eq_sub_of_add_eq hsum
  · rw [setUncleared, mark_of_absent hrow]
    simp [not_cleared_of_absent hrow]

/-! ## One action -/

/-- `finish` has a session with the balances that it has read. -/
def Place.Backed (db : Db) : Place → Prop
  | .summing session => ∃ s ∈ db.recSessions, s.id = session.id ∧
      s.openingBalance = session.openingBalance ∧ s.stmtCloseBalance = session.stmtCloseBalance
  | .closing session cleared => ∃ s ∈ db.recSessions, s.id = session ∧
      s.openingBalance + cleared = s.stmtCloseBalance
  | _ => True

/-- What holds whatever the requests do. -/
structure Sane (s : State) : Prop where
  keyed : Keyed s.shared
  places : ∀ n, (s.place n).Backed s.shared

/-- The balances of a session are never written. -/
structure KeepsBalances (db db' : Db) : Prop where
  keyed : Keyed db'
  sessions : ∀ s ∈ db.recSessions, ∃ s' ∈ db'.recSessions, s'.id = s.id ∧
    s'.openingBalance = s.openingBalance ∧ s'.stmtCloseBalance = s.stmtCloseBalance

theorem KeepsBalances.backed (h : KeepsBalances db db') {place : Place} (hplace : place.Backed db) :
    place.Backed db' := by
  cases place with
  | summing session =>
    obtain ⟨s, hs, hid, hopening, hclose⟩ := hplace
    obtain ⟨s', hs', hid', hopening', hclose'⟩ := h.sessions s hs
    exact ⟨s', hs', hid'.trans hid, hopening'.trans hopening, hclose'.trans hclose⟩
  | closing session cleared =>
    obtain ⟨s, hs, hid, hbalance⟩ := hplace
    obtain ⟨s', hs', hid', hopening', hclose'⟩ := h.sessions s hs
    exact ⟨s', hs', hid'.trans hid, by rw [hopening', hclose', hbalance]⟩
  | idle | clearing | unclearing | reopening => trivial

theorem OnlyLines.keepsBalances (hkeyed : Keyed db) (h : OnlyLines db db') :
    KeepsBalances db db' where
  keyed := ⟨h.sessions ▸ hkeyed.sessions, h.keys⟩
  sessions s hs := ⟨s, h.sessions ▸ hs, rfl, rfl, rfl⟩

theorem keepsBalances_of_status (hkeyed : Keyed db) (session : Uuid) (status : RecStatus)
    (hsessions : db'.recSessions = updateWhere (fun s => s.id = session)
      (fun s => { s with status }) db.recSessions)
    (hlines : db'.recLines.map lineKey = db.recLines.map lineKey) : KeepsBalances db db' where
  keyed := by
    have hids : db'.recSessions.map RecSession.id = db.recSessions.map RecSession.id := by
      rw [hsessions]
      exact map_key_updateWhere (f := fun s : RecSession => { s with status }) fun _ => rfl
    exact ⟨hids ▸ hkeyed.sessions, hlines ▸ hkeyed.lines⟩
  sessions s hs := by
    refine ⟨if s.id = session then { s with status } else s, ?_, ?_⟩
    · rw [hsessions]
      exact List.mem_map_of_mem hs
    · split <;> exact ⟨rfl, rfl, rfl⟩

theorem write_keepsBalances (hkeyed : Keyed db) (place : Place) :
    KeepsBalances db (write db place) := by
  have hsame : KeepsBalances db db := ⟨hkeyed, fun s hs => ⟨s, hs, rfl, rfl, rfl⟩⟩
  cases place with
  | idle | summing => exact hsame
  | clearing session line =>
    simp only [write]
    split
    · next db' h => exact (setCleared_spec hkeyed h).1.keepsBalances hkeyed
    · exact hsame
  | unclearing session line => exact (setUncleared_spec hkeyed session line).1.keepsBalances hkeyed
  | closing session cleared => exact keepsBalances_of_status hkeyed session .closed rfl rfl
  | reopening session =>
    refine keepsBalances_of_status hkeyed session .opened rfl ?_
    exact map_key_updateWhere (f := fun r : RecLine => { r with cleared := false }) fun _ => rfl

theorem ownSession_mem {auth : Option Uuid} {path : Path} {s : RecSession}
    (h : ownSession db auth path = .ok s) : s ∈ db.recSessions := by
  simp only [ownSession, bind_eq_ok, okOr_eq_ok] at h
  obtain ⟨-, -, -, -, h⟩ := h
  exact List.mem_of_find?_eq_some (okOr_eq_ok.mp h)

theorem readFinish_mem {auth : Option Uuid} {path : Path} {s : RecSession}
    (h : readFinish db auth path = .ok s) : s ∈ db.recSessions := by
  simp only [readFinish, bind_eq_ok] at h
  obtain ⟨s', hs', -, -, h⟩ := h
  exact Except.ok.inj h ▸ ownSession_mem hs'

theorem checkFinish_eq_ok {s : RecSession} {cleared : ℚ} (h : checkFinish s cleared = .ok ()) :
    s.openingBalance + cleared = s.stmtCloseBalance := by
  have hzero := ensure_eq_ok.mp (mapError_eq_ok.mp h)
  exact (sub_eq_zero.mp hzero).symm

theorem unless_backed {α : Type} {read : Except AppError α} {next : α → Place}
    (h : ∀ a, read = .ok a → (next a).Backed db) : (Place.unless read next).Backed db := by
  unfold Place.unless
  split
  · next a => exact h a rfl
  · trivial

/-- An action reads and goes on, or writes what it has read. -/
theorem act_cases (n : ℕ) {place : Place} (hplace : place.Backed db) (a : Action) :
    (∃ next, act n db place a = (db, next) ∧ next.Backed db ∧
      (a = .write → ∃ session, place = .summing session)) ∨
    a = .write ∧ act n db place a = (write db place, .idle) := by
  match place, a with
  | .idle, .clear auth path form | .idle, .unclear auth path form
  | .idle, .unreconcile auth path form =>
    exact Or.inl ⟨_, rfl, unless_backed fun _ _ => trivial, fun h => by cases h⟩
  | .idle, .finish auth path =>
    refine Or.inl ⟨_, rfl, unless_backed fun s hs => ?_, fun h => by cases h⟩
    exact ⟨s, readFinish_mem hs, rfl, rfl, rfl⟩
  | .summing session, .sum =>
    refine Or.inl ⟨_, rfl, unless_backed fun _ hcheck => ?_, fun h => by cases h⟩
    obtain ⟨s, hs, hid, hopening, hclose⟩ := hplace
    exact ⟨s, hs, hid, by rw [hopening, hclose, checkFinish_eq_ok hcheck]⟩
  | .summing session, .write => exact Or.inl ⟨_, rfl, hplace, fun _ => ⟨session, rfl⟩⟩
  | .idle, .write | .clearing _ _, .write | .unclearing _ _, .write | .closing _ _, .write
  | .reopening _, .write => exact Or.inr ⟨rfl, rfl⟩
  | .idle, .sum => exact Or.inl ⟨_, rfl, trivial, fun h => by cases h⟩
  | .summing _, .clear _ _ _ | .summing _, .unclear _ _ _ | .summing _, .finish _ _
  | .summing _, .unreconcile _ _ _ => exact Or.inl ⟨_, rfl, hplace, fun h => by cases h⟩
  | .clearing _ _, .clear _ _ _ | .clearing _ _, .unclear _ _ _ | .clearing _ _, .finish _ _
  | .clearing _ _, .unreconcile _ _ _ | .clearing _ _, .sum =>
    exact Or.inl ⟨_, rfl, hplace, fun h => by cases h⟩
  | .unclearing _ _, .clear _ _ _ | .unclearing _ _, .unclear _ _ _ | .unclearing _ _, .finish _ _
  | .unclearing _ _, .unreconcile _ _ _ | .unclearing _ _, .sum =>
    exact Or.inl ⟨_, rfl, hplace, fun h => by cases h⟩
  | .closing _ _, .clear _ _ _ | .closing _ _, .unclear _ _ _ | .closing _ _, .finish _ _
  | .closing _ _, .unreconcile _ _ _ | .closing _ _, .sum =>
    exact Or.inl ⟨_, rfl, hplace, fun h => by cases h⟩
  | .reopening _, .clear _ _ _ | .reopening _, .unclear _ _ _ | .reopening _, .finish _ _
  | .reopening _, .unreconcile _ _ _ | .reopening _, .sum =>
    exact Or.inl ⟨_, rfl, hplace, fun h => by cases h⟩

theorem step_sane {s : State} (hs : Sane s) (m : ℕ × Action) : Sane (step s m) := by
  obtain ⟨n, a⟩ := m
  show Sane ⟨(act n s.shared (s.place n) a).1,
    Function.update s.place n (act n s.shared (s.place n) a).2⟩
  rcases act_cases n (hs.places n) a with ⟨next, hact, hnext, -⟩ | ⟨-, hact⟩
  · rw [hact]
    exact ⟨hs.keyed, (Function.forall_update_iff s.place fun _ place => place.Backed s.shared).mpr
      ⟨hnext, fun m _ => hs.places m⟩⟩
  · rw [hact]
    have hkeeps := write_keepsBalances hs.keyed (s.place n)
    exact ⟨hkeeps.keyed, (Function.forall_update_iff s.place fun _ place => place.Backed _).mpr
      ⟨trivial, fun m _ => hkeeps.backed (hs.places m)⟩⟩

/-! ## What a write does to the balance -/

/-- A change in one session keeps the balance only if that is open or its sum stays. -/
theorem balanced_iff_of_sums {change : Prop} [Decidable change] {x : ℚ} (hbalanced : Balanced db)
    (hsessions : db'.recSessions = db.recSessions)
    (hsums : ∀ other, clearedSum db' other =
      clearedSum db other + if session = other ∧ change then x else 0) :
    Balanced db' ↔ (Locked db session → ¬ change ∨ x = 0) := by
  constructor
  · rintro h ⟨s, hs, rfl, hclosed⟩
    by_cases hchange : change
    · right
      have hafter := h s (hsessions ▸ hs) hclosed
      rw [hsums, if_pos ⟨rfl, hchange⟩] at hafter
      have hbefore := hbalanced s hs hclosed
      linarith
    · exact Or.inl hchange
  · intro h s hs hclosed
    rw [hsessions] at hs
    have hbefore := hbalanced s hs hclosed
    rw [hsums]
    split
    · next hcase =>
        obtain ⟨rfl, hchange⟩ := hcase
        rcases h ⟨s, hs, rfl, hclosed⟩ with hnot | hzero
        · exact absurd hchange hnot
        · rw [hzero, add_zero, hbefore]
    · rw [add_zero, hbefore]

theorem amountOf_of_setCleared_error {e : SqlError} (h : setCleared db session line = .error e)
    (hlocked : Locked db session) : amountOf db line = 0 := by
  obtain ⟨s, hs, hid, -⟩ := hlocked
  unfold setCleared at h
  split at h
  · cases h
  · by_cases hbank : ∃ b ∈ db.bankStatementLines, b.id = line
    · rw [ensure, ensure, if_pos ⟨s, hs, hid⟩, if_pos hbank] at h
      cases h
    · have hnone : db.bankStatementLines.filter (fun b => b.id = line) = [] :=
        List.filter_eq_nil_iff.mpr fun b hb heq => hbank ⟨b, hb, of_decide_eq_true heq⟩
      rw [amountOf, hnone]
      rfl

theorem balanced_setCleared_iff (hkeyed : Keyed db) (hbalanced : Balanced db)
    (session line : Uuid) : Balanced (write db (.clearing session line)) ↔
      (Locked db session → Cleared db session line ∨ amountOf db line = 0) := by
  simp only [write]
  split
  · next db' h =>
      obtain ⟨hlines, hsums⟩ := setCleared_spec hkeyed h
      rw [balanced_iff_of_sums hbalanced hlines.sessions hsums, not_not]
  · next e h =>
      exact ⟨fun _ hlocked => Or.inr (amountOf_of_setCleared_error h hlocked), fun _ => hbalanced⟩

theorem balanced_setUncleared_iff (hkeyed : Keyed db) (hbalanced : Balanced db)
    (session line : Uuid) : Balanced (write db (.unclearing session line)) ↔
      (Locked db session → ¬ Cleared db session line ∨ amountOf db line = 0) := by
  obtain ⟨hlines, hsums⟩ := setUncleared_spec hkeyed session line
  have hadds : ∀ other, clearedSum (setUncleared db session line) other = clearedSum db other +
      if session = other ∧ Cleared db session line then -amountOf db line else 0 := by
    intro other
    rw [hsums]
    split
    · exact sub_eq_add_neg _ _
    · rw [sub_zero, add_zero]
  show Balanced (setUncleared db session line) ↔ _
  rw [balanced_iff_of_sums hbalanced hlines.sessions hadds, neg_eq_zero]

/-- A close is balanced if and only if the sum is still the one that was checked. -/
theorem balanced_close_iff (hkeyed : Keyed db) (hbalanced : Balanced db) {cleared : ℚ}
    (hbacked : (Place.closing session cleared).Backed db) :
    Balanced (close db session) ↔ clearedSum db session = cleared := by
  obtain ⟨s, hs, rfl, hbalance⟩ := hbacked
  constructor
  · intro h
    have hclosed := h { s with status := .closed } (List.mem_map.mpr ⟨s, hs, if_pos rfl⟩) rfl
    have hsum : s.openingBalance + clearedSum db s.id = s.stmtCloseBalance := hclosed
    linarith
  · intro hsum s' hs' hclosed
    obtain ⟨r, hr, rfl⟩ := List.mem_map.mp hs'
    by_cases hid : r.id = s.id
    · obtain rfl := List.inj_on_of_nodup_map hkeyed.sessions hr hs hid
      rw [if_pos rfl]
      show r.openingBalance + clearedSum db r.id = r.stmtCloseBalance
      rw [hsum, hbalance]
    · rw [if_neg hid] at hclosed ⊢
      exact hbalanced r hr hclosed

theorem balanced_reopen (hbalanced : Balanced db) (session : Uuid) :
    Balanced (reopen db session) := by
  intro s' hs' hclosed
  obtain ⟨s, hs, rfl⟩ := List.mem_map.mp hs'
  by_cases hid : s.id = session
  · rw [if_pos hid] at hclosed
    cases hclosed
  · rw [if_neg hid] at hclosed ⊢
    have hsum : clearedSum (reopen db session) s.id = clearedSum db s.id := by
      rw [clearedSum_eq, clearedSum_eq]
      show ((db.recLines.map _).map (share db s.id)).sum = _
      rw [List.map_map]
      refine congrArg List.sum (List.map_congr_left fun r _ => ?_)
      show share db s.id (if r.sessionId = session then { r with cleared := false } else r) = _
      split
      · next hr =>
          have hother : r.sessionId ≠ s.id := fun heq => hid (heq.symm.trans hr)
          unfold share
          rw [if_neg fun h => hother h.1, if_neg fun h => hother h.1]
      · rfl
    rw [hsum]
    exact hbalanced s hs hclosed

/-- A write keeps the closed sessions balanced exactly when it finds what was read. -/
theorem step_balanced_iff {s : State} {m : ℕ × Action} (hs : Sane s)
    (hbalanced : Balanced s.shared) : Balanced (step s m).shared ↔ Undisturbed s m := by
  obtain ⟨n, a⟩ := m
  show Balanced (act n s.shared (s.place n) a).1 ↔ Undisturbed s (n, a)
  have hbacked := hs.places n
  rcases act_cases n hbacked a with ⟨next, hact, -, hwrite⟩ | ⟨rfl, hact⟩
  · rw [hact]
    refine ⟨fun _ => ?_, fun _ => hbalanced⟩
    cases a with
    | write =>
      obtain ⟨session, hplace⟩ := hwrite rfl
      rw [Undisturbed, hplace]
      trivial
    | clear | unclear | finish | unreconcile | sum => trivial
  · rw [hact, Undisturbed]
    cases hplace : s.place n with
    | idle | summing => exact ⟨fun _ => trivial, fun _ => hbalanced⟩
    | clearing session line => exact balanced_setCleared_iff hs.keyed hbalanced session line
    | unclearing session line => exact balanced_setUncleared_iff hs.keyed hbalanced session line
    | closing session cleared => exact balanced_close_iff hs.keyed hbalanced (hplace ▸ hbacked)
    | reopening session => exact ⟨fun _ => trivial, fun _ => balanced_reopen hbalanced session⟩

/-- No request is under way, and the closed sessions balance. -/
structure Fresh (s : State) : Prop where
  keyed : Keyed s.shared
  idle : ∀ n, s.place n = .idle
  balanced : Balanced s.shared

/-- In an interleaving every closed session balances at any time exactly when each write finds what
its request has read. -/
theorem balanced_iff_undisturbed {s : State} {actions : List (ℕ × Action)} (h : Fresh s) :
    (∀ s' ∈ Runs.visited step s actions, Balanced s'.shared) ↔
      Runs.Meets step Undisturbed s actions := by
  have hsane : Sane s := ⟨h.keyed, fun n => by rw [h.idle]; trivial⟩
  exact Runs.forall_visited_iff_meets (P := fun s : State => Balanced s.shared)
    (fun _ m hs => step_sane hs m) (fun _ _ hs hbalanced => step_balanced_iff hs hbalanced) hsane
    h.balanced

namespace Sample

open OpenAccounting.Sample

def statement : RecSession where
  id := 50
  ledgerId := ledgerId
  accountId := cash
  stmtCloseDate := march 31
  stmtCloseBalance := 100

/-- The session with its one line cleared. -/
def start : State where
  shared :=
    { OpenAccounting.Sample.db with
      bankStatementLines :=
        [{ id := 61, ledgerId := ledgerId, accountId := cash, statementDate := march 10,
           amount := 100 }]
      recSessions := [statement]
      recLines := [{ sessionId := statement.id, bankLineId := 61, cleared := true }] }
  place _ := .idle

def path : Path := ⟨ledgerId, cash, statement.id⟩

theorem start_fresh : Fresh start where
  keyed := ⟨List.nodup_singleton _, List.nodup_singleton _⟩
  idle _ := rfl
  balanced := by
    unfold Balanced
    decide

/-- The line is uncleared by a request that has read the session before it was closed. -/
def overtaken : List (ℕ × Action) :=
  [(0, .finish (some owner) path), (0, .sum), (1, .unclear (some owner) path ⟨61⟩), (0, .write),
    (1, .write)]

/-- The line is not uncleared by a request that comes afterwards. -/
def inTurn : List (ℕ × Action) :=
  [(0, .finish (some owner) path), (0, .sum), (0, .write), (1, .unclear (some owner) path ⟨61⟩),
    (1, .write)]

end Sample

/-- The closed session lacks its line. -/
theorem overtaken_not_balanced :
    Fresh Sample.start ∧ ¬ Balanced (Runs.exec step Sample.start Sample.overtaken).shared := by
  refine ⟨Sample.start_fresh, ?_⟩
  unfold Balanced
  decide +kernel

theorem balanced_iff_undisturbed_inTurn :
    Balanced (Runs.exec step Sample.start Sample.inTurn).shared := by
  have hcalm : Runs.Meets step Undisturbed Sample.start Sample.inTurn := by
    refine ⟨trivial, trivial, ?_, trivial, ?_, trivial⟩
    · show Place.Finds _ _
      decide +kernel
    · show Place.Finds _ _
      decide +kernel
  exact (balanced_iff_undisturbed Sample.start_fresh).mpr hcalm _ (Runs.exec_mem_visited _ _)

end OpenAccounting.RecSessions
