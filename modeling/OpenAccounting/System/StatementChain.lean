import OpenAccounting.System.Reconciliation

/-!
# Statements in a row

The sessions of one account, with each operation taken as a whole.  Closed sessions should divide
the statement lines among them, and each should begin with the balance that the one before ends
with.

Both are at stake when a session is closed and the second one also when a session is opened again.
`finish` closes a session whose opening balance is the one of the time it was created, and with
lines that another session may have cleared too.  `Joins` says when a session may be closed and
`Leaves` when one may be taken out, and the two conditions are exact (`partitioned_iff_fitting`).
-/

namespace OpenAccounting.StatementChain

open Commit Relational RecSessions

/-! ## The operations -/

/-- A request on the sessions of the account. -/
inductive Op where
  | createSession (req : Request) (auth : Option Uuid) (form : CreateSessionForm)
  | clear (auth : Option Uuid) (session : Uuid) (form : ClearForm)
  | unclear (auth : Option Uuid) (session : Uuid) (form : UnclearForm)
  | finish (auth : Option Uuid) (session : Uuid)
  | unreconcile (auth : Option Uuid) (session : Uuid) (form : UnreconcileForm)

/-- The database after a request. -/
def step (ledger account : Uuid) (db : Db) : Op → Db
  | .createSession req auth form => (createSession db req auth ledger account form).2
  | .clear auth session form => (clear db auth ⟨ledger, account, session⟩ form).2
  | .unclear auth session form => (unclear db auth ⟨ledger, account, session⟩ form).2
  | .finish auth session => (finish db auth ⟨ledger, account, session⟩).2
  | .unreconcile auth session form => (unreconcile db auth ⟨ledger, account, session⟩ form).2

/-! ## The property -/

/-- The closed sessions of the account by statement date. -/
def closedSessions (db : Db) (account : Uuid) : List RecSession :=
  orderBy RecSession.stmtCloseDate
    (db.recSessions.filter fun s => s.accountId = account ∧ s.status = .closed)

def clearedLines (db : Db) (session : Uuid) : List Uuid :=
  (db.recLines.filter fun r => r.sessionId = session ∧ r.cleared = true).map RecLine.bankLineId

/-- Some line is cleared in both sessions. -/
def Shares (db : Db) (s t : Uuid) : Prop := ∃ line ∈ clearedLines db s, line ∈ clearedLines db t

/-- No line is cleared in two closed sessions. -/
def Apart (db : Db) (account : Uuid) : Prop :=
  ∀ s ∈ closedSessions db account, ∀ t ∈ closedSessions db account, s.id ≠ t.id →
    ¬ Shares db s.id t.id

/-- Each session opens with what the one before ends with, and the first with `opening`. -/
def Carried : ℚ → List RecSession → Prop
  | _, [] => True
  | opening, s :: rest => s.openingBalance = opening ∧ Carried s.stmtCloseBalance rest

/-- The closed sessions partition the statement. -/
structure Partitioned (account : Uuid) (db : Db) : Prop where
  apart : Apart db account
  carried : Carried 0 (closedSessions db account)

/-! ## The condition -/

def closedBefore (db : Db) (account : Uuid) (s : RecSession) : List RecSession :=
  (closedSessions db account).filter fun t => t.stmtCloseDate < s.stmtCloseDate

def closedAfter (db : Db) (account : Uuid) (s : RecSession) : List RecSession :=
  (closedSessions db account).filter fun t => s.stmtCloseDate < t.stmtCloseDate

/-- The balance the last of the sessions ends with. -/
def lastClose (rows : List RecSession) : ℚ :=
  carryOpening (rows.getLast?.map RecSession.stmtCloseBalance)

/-- The session takes over from the closed one before it and hands over to the one after it, and
none of its lines is cleared in a closed session. -/
def Joins (db : Db) (account : Uuid) (s : RecSession) : Prop :=
  s.openingBalance = lastClose (closedBefore db account s) ∧
    (∀ t ∈ (closedAfter db account s).head?, t.openingBalance = s.stmtCloseBalance) ∧
    ∀ t ∈ closedSessions db account, ¬ Shares db s.id t.id

/-- The closed session after this one could also take over from the one before it. -/
def Leaves (db : Db) (account : Uuid) (s : RecSession) : Prop :=
  ∀ t ∈ (closedAfter db account s).head?, t.openingBalance = lastClose (closedBefore db account s)

/-- A session that is closed joins the closed ones, and one that is opened again leaves them. -/
def Fitting (ledger account : Uuid) (db : Db) : Op → Prop
  | .finish auth session =>
    match readFinish db auth ⟨ledger, account, session⟩ with
    | .ok s => (checkFinish s (clearedSum db s.id)).isOk → Joins db account s
    | .error _ => True
  | .unreconcile auth session form =>
    match ownSession db auth ⟨ledger, account, session⟩ with
    | .ok s => (readUnreconcile db auth ⟨ledger, account, session⟩ form).isOk →
        Leaves db account s
    | .error _ => True
  | .createSession .. | .clear .. | .unclear .. => True

/-! ## Chains -/

variable {back front : List RecSession} {s : RecSession} {session : Uuid}

theorem carried_append {opening : ℚ} :
    Carried opening (front ++ back) ↔ Carried opening front ∧
      Carried ((front.getLast?.map RecSession.stmtCloseBalance).getD opening) back := by
  induction front generalizing opening with
  | nil => simp [Carried]
  | cons s front ih =>
    rw [List.cons_append, Carried, Carried, ih, and_assoc, List.getLast?_cons]
    cases front.getLast? <;> rfl

theorem carried_iff_head {b c : ℚ} {rows : List RecSession} (h : Carried b rows) :
    Carried c rows ↔ ∀ t ∈ rows.head?, t.openingBalance = c := by
  cases rows with
  | nil => simp [Carried]
  | cons s rows => simp [Carried, h.2]

/-- A session fits between two halves of a chain exactly when it takes over and hands over. -/
theorem carried_insert_iff (h : Carried 0 (front ++ back)) (s : RecSession) :
    Carried 0 (front ++ s :: back) ↔
      s.openingBalance = lastClose front ∧
        ∀ t ∈ back.head?, t.openingBalance = s.stmtCloseBalance := by
  obtain ⟨hfront, hback⟩ := carried_append.mp h
  rw [carried_append, Carried, carried_iff_head hback]
  exact and_iff_right hfront

/-- A session can go from a chain exactly when the next one takes over from the one before. -/
theorem carried_remove_iff (h : Carried 0 (front ++ s :: back)) :
    Carried 0 (front ++ back) ↔ ∀ t ∈ back.head?, t.openingBalance = lastClose front := by
  obtain ⟨hfront, -, hback⟩ := carried_append.mp h
  rw [carried_append, carried_iff_head hback]
  exact and_iff_right hfront

/-! ## The tables -/

/-- What is unique in the tables. -/
structure Tables (db : Db) : Prop extends Keyed db where
  dates : (db.recSessions.map fun s => (s.accountId, s.stmtCloseDate)).Nodup

variable {ledger account : Uuid} {db db' : Db}

theorem mem_closedSessions :
    s ∈ closedSessions db account ↔
      s ∈ db.recSessions ∧ s.accountId = account ∧ s.status = .closed := by
  rw [closedSessions, mem_orderBy, List.mem_filter]
  simp

theorem nodup_dates {rows : List RecSession}
    (h : (rows.map fun s => (s.accountId, s.stmtCloseDate)).Nodup)
    (haccount : ∀ s ∈ rows, s.accountId = account) : (rows.map RecSession.stmtCloseDate).Nodup := by
  have hpairs : (rows.map fun s => (s.accountId, s.stmtCloseDate)) =
      (rows.map RecSession.stmtCloseDate).map fun d => (account, d) := by
    rw [List.map_map]
    exact List.map_congr_left fun s hs => Prod.ext (haccount s hs) rfl
  exact List.Nodup.of_map _ (hpairs ▸ h)

/-- Whether the sessions partition the statement depends on the closed ones and their lines. -/
theorem partitioned_iff_of_same (hclosed : closedSessions db' account = closedSessions db account)
    (hlines : ∀ t ∈ closedSessions db account, clearedLines db' t.id = clearedLines db t.id) :
    Partitioned account db' ↔ Partitioned account db := by
  have hapart : Apart db' account ↔ Apart db account := by
    rw [Apart, Apart, hclosed]
    refine forall₂_congr fun s hs => forall₂_congr fun t ht => ?_
    rw [Shares, Shares, hlines s hs, hlines t ht]
  constructor
  · exact fun h => ⟨hapart.mp h.apart, hclosed ▸ h.carried⟩
  · exact fun h => ⟨hapart.mpr h.apart, hclosed ▸ h.carried⟩

/-- Two databases that differ in one session, which is closed in the second one only. -/
structure Differ (account : Uuid) (db db' : Db) (s : RecSession) : Prop where
  keys : (db'.recSessions.map fun s => (s.accountId, s.stmtCloseDate)).Nodup
  mine : s.accountId = account
  closed : s.status = .closed
  rows : ∃ front back other, other.status ≠ .closed ∧ db.recSessions = front ++ other :: back ∧
    db'.recSessions = front ++ s :: back

theorem Differ.split (h : Differ account db db' s) :
    closedSessions db account = closedBefore db account s ++ closedAfter db account s ∧
      closedSessions db' account =
        closedBefore db account s ++ s :: closedAfter db account s ∧
      closedBefore db' account s = closedBefore db account s ∧
      closedAfter db' account s = closedAfter db account s := by
  obtain ⟨front, back, other, hopen, hrows, hrows'⟩ := h.rows
  have hperm : (db'.recSessions.filter fun t => t.accountId = account ∧ t.status = .closed).Perm
      (s :: db.recSessions.filter fun t => t.accountId = account ∧ t.status = .closed) := by
    rw [hrows, hrows', List.filter_append, List.filter_append,
      List.filter_cons_of_pos (by simp [h.mine, h.closed]),
      List.filter_cons_of_neg (by simp [hopen])]
    exact List.perm_middle
  have hkeys : ((s :: db.recSessions.filter fun t =>
      t.accountId = account ∧ t.status = .closed).map RecSession.stmtCloseDate).Nodup := by
    refine ((hperm.map RecSession.stmtCloseDate).nodup_iff).mp (@nodup_dates account _ ?_ ?_)
    · exact h.keys.sublist (List.filter_sublist.map _)
    · intro t ht
      have := (List.mem_filter.mp ht).2
      simp at this
      exact this.1
  obtain ⟨hbefore, hafter⟩ := filter_orderBy_insert hperm hkeys
  exact ⟨orderBy_eq_append hkeys, orderBy_insert hperm hkeys, hbefore, hafter⟩

theorem close_differ (ht : Tables db) (hs : s ∈ db.recSessions) (hmine : s.accountId = account)
    (hopen : s.status ≠ .closed) :
    Differ account db (close db s.id) { s with status := .closed } := by
  obtain ⟨front, back, hrows⟩ := List.append_of_mem hs
  have hrows' : (close db s.id).recSessions = front ++ { s with status := .closed } :: back := by
    have hids := ht.sessions
    rw [hrows] at hids
    rw [close, hrows]
    exact updateWhere_split (f := fun t : RecSession => { t with status := .closed }) hids
      fun _ => Iff.rfl
  refine ⟨?_, hmine, rfl, front, back, s, hopen, hrows, hrows'⟩
  have hdates := ht.dates
  rw [hrows] at hdates
  rw [hrows']
  simpa using hdates

theorem reopen_differ (ht : Tables db) (hs : s ∈ db.recSessions) (hmine : s.accountId = account)
    (hclosed : s.status = .closed) :
    Differ account (reopen db s.id) db s := by
  obtain ⟨front, back, hrows⟩ := List.append_of_mem hs
  refine ⟨ht.dates, hmine, hclosed, front, back, { s with status := .opened }, by simp, ?_, hrows⟩
  have hids := ht.sessions
  rw [hrows] at hids
  rw [reopen, hrows]
  exact updateWhere_split (f := fun t : RecSession => { t with status := .opened }) hids
    fun _ => Iff.rfl

theorem shares_comm {s t : Uuid} : Shares db s t ↔ Shares db t s := by
  unfold Shares
  constructor
  · rintro ⟨line, hs, ht⟩
    exact ⟨line, ht, hs⟩
  · rintro ⟨line, hs, ht⟩
    exact ⟨line, ht, hs⟩

/-! ## Steps -/

/-- A close keeps the chain partitioned exactly if the session joins it. -/
theorem close_partitioned_iff (ht : Tables db) (h : Partitioned account db)
    (hs : s ∈ db.recSessions) (hmine : s.accountId = account) (hopen : s.status ≠ .closed) :
    Partitioned account (close db s.id) ↔ Joins db account s := by
  obtain ⟨hold, hnew, -, -⟩ := (close_differ ht hs hmine hopen).split
  have hcarried := h.carried
  rw [hold] at hcarried
  have hother : ∀ t ∈ closedSessions db account, t.id ≠ s.id := by
    intro t hmem hid
    obtain ⟨htmem, -, hclosed⟩ := mem_closedSessions.mp hmem
    exact hopen (List.inj_on_of_nodup_map ht.sessions htmem hs hid ▸ hclosed)
  have hmem : ∀ t, t ∈ closedSessions (close db s.id) account ↔
      t = { s with status := .closed } ∨ t ∈ closedSessions db account := by
    intro t
    rw [hnew, hold, List.mem_append, List.mem_cons, List.mem_append]
    tauto
  constructor
  · intro hafter
    have hchain := hafter.carried
    rw [hnew] at hchain
    obtain ⟨htakes, hhands⟩ := (carried_insert_iff hcarried _).mp hchain
    refine ⟨htakes, hhands, fun t htmem => ?_⟩
    exact hafter.apart _ ((hmem _).mpr (Or.inl rfl)) t ((hmem t).mpr (Or.inr htmem))
      (Ne.symm (hother t htmem))
  · rintro ⟨htakes, hhands, hapart⟩
    refine ⟨?_, by rw [hnew]; exact (carried_insert_iff hcarried _).mpr ⟨htakes, hhands⟩⟩
    intro t htmem u hu hne
    rcases (hmem t).mp htmem with rfl | htmem
    · rcases (hmem u).mp hu with rfl | hu
      · exact absurd rfl hne
      · exact hapart u hu
    · rcases (hmem u).mp hu with rfl | hu
      · exact fun hshares => hapart t htmem (shares_comm.mp hshares)
      · exact h.apart t htmem u hu hne

theorem clearedLines_reopen {s t : Uuid} (hne : t ≠ s) :
    clearedLines (reopen db s) t = clearedLines db t := by
  refine congrArg (List.map RecLine.bankLineId) ?_
  exact filter_updateWhere_of_not (p := fun r : RecLine => r.sessionId = s)
    (q := fun r : RecLine => r.sessionId = t ∧ r.cleared = true)
    (f := fun r : RecLine => { r with cleared := false })
    fun r _ hr => ⟨fun h => hne (h.1.symm.trans hr), fun h => hne (h.1.symm.trans hr)⟩

/-- A session may be opened again exactly when it leaves the closed ones. -/
theorem reopen_partitioned_iff (ht : Tables db) (h : Partitioned account db)
    (hs : s ∈ db.recSessions) (hmine : s.accountId = account) (hclosed : s.status = .closed) :
    Partitioned account (reopen db s.id) ↔ Leaves db account s := by
  obtain ⟨hnew, hold, hbefore, hafter⟩ := (reopen_differ ht hs hmine hclosed).split
  have hcarried := h.carried
  rw [hold] at hcarried
  have hremove := carried_remove_iff hcarried
  rw [← hnew, ← hbefore, ← hafter] at hremove
  have hmem : ∀ t ∈ closedSessions (reopen db s.id) account,
      t ∈ closedSessions db account ∧ t.id ≠ s.id := by
    intro t htmem
    refine ⟨?_, fun hid => ?_⟩
    · rw [hold]
      rw [hnew] at htmem
      rcases List.mem_append.mp htmem with htmem | htmem
      · exact List.mem_append_left _ htmem
      · exact List.mem_append_right _ (List.mem_cons_of_mem s htmem)
    · -- The row of the session is open now.
      obtain ⟨hrow, -, hstill⟩ := mem_closedSessions.mp htmem
      obtain ⟨u, -, rfl⟩ := List.mem_map.mp hrow
      split at hstill
      · cases hstill
      · next hu => exact hu (by rwa [if_neg hu] at hid)
  constructor
  · exact fun hpart => hremove.mp hpart.carried
  · intro hleaves
    refine ⟨fun t htmem u hu hne => ?_, hremove.mpr hleaves⟩
    obtain ⟨htold, htid⟩ := hmem t htmem
    obtain ⟨huold, huid⟩ := hmem u hu
    rw [Shares, clearedLines_reopen htid, clearedLines_reopen huid]
    exact h.apart t htold u huold hne

theorem createSession_cases (db : Db) (req : Request) (auth : Option Uuid) (ledger account : Uuid)
    (form : CreateSessionForm) :
    (createSession db req auth ledger account form).2 = db ∨
      ∃ s : RecSession, s.status ≠ .closed ∧ (∀ r ∈ db.recSessions, r.id ≠ s.id) ∧
        (∀ r ∈ db.recSessions, ¬ (r.accountId = s.accountId ∧ r.stmtCloseDate = s.stmtCloseDate)) ∧
        (createSession db req auth ledger account form).2 =
          { db with recSessions := db.recSessions ++ [s] } := by
  rcases commit_cases db _ with h | ⟨_, db', hbody, h⟩
  · exact Or.inl h
  · right
    simp only [insertSession, bind_eq_ok, okOr_eq_ok, ensure_eq_ok, mapError_eq_ok] at hbody
    obtain ⟨_, -, _, -, _, ⟨balance, -, opening, -, _, hid, _, hdate, _, -, hinsert⟩, hbody⟩ :=
      hbody
    cases hinsert
    cases hbody
    exact ⟨_, by simp, fun r hr heq => hid ⟨r, hr, heq⟩, fun r hr heq => hdate ⟨r, hr, heq⟩, h⟩

theorem ownSession_spec {auth : Option Uuid} {path : RecSessions.Path}
    (h : ownSession db auth path = .ok s) :
    s ∈ db.recSessions ∧ s.id = path.session ∧ s.accountId = path.account := by
  simp only [ownSession, bind_eq_ok, okOr_eq_ok] at h
  obtain ⟨-, -, -, -, h⟩ := h
  have hfound := okOr_eq_ok.mp h
  have hkey := List.find?_some hfound
  simp at hkey
  exact ⟨List.mem_of_find?_eq_some hfound, hkey.1, hkey.2.2⟩

theorem finish_cases (db : Db) (auth : Option Uuid) (path : RecSessions.Path) :
    (finish db auth path).2 = db ∧ (∀ s, readFinish db auth path = .ok s →
        ¬ (checkFinish s (clearedSum db s.id)).isOk) ∨
      ∃ s, readFinish db auth path = .ok s ∧ (checkFinish s (clearedSum db s.id)).isOk ∧
        s ∈ db.recSessions ∧ s.accountId = path.account ∧ s.status ≠ .closed ∧
        (finish db auth path).2 = close db s.id := by
  cases hread : readFinish db auth path with
  | error e =>
    left
    refine ⟨?_, fun s hs => by cases hs⟩
    rw [finish, hread]
    rfl
  | ok s =>
    cases hcheck : checkFinish s (clearedSum db s.id) with
    | error e =>
      left
      refine ⟨?_, fun t ht => ?_⟩
      · rw [finish, hread]
        show (commit db (checkFinish s (clearedSum db s.id) >>= _)).2 = db
        rw [hcheck]
        rfl
      · cases ht
        rw [hcheck]
        simp [Except.isOk, Except.toBool]
    | ok u =>
      right
      have hwrite : (finish db auth path).2 = close db s.id := by
        rw [finish, hread]
        show (commit db (checkFinish s (clearedSum db s.id) >>= _)).2 = close db s.id
        rw [hcheck]
        rfl
      simp only [readFinish, bind_eq_ok, ensure_eq_ok] at hread
      obtain ⟨s', hown, -, hopen, hs⟩ := hread
      cases hs
      obtain ⟨hmem, -, hmine⟩ := ownSession_spec hown
      exact ⟨s, rfl, by rw [hcheck]; rfl, hmem, hmine, hopen, hwrite⟩

theorem unreconcile_cases (db : Db) (auth : Option Uuid) (path : RecSessions.Path)
    (form : UnreconcileForm) :
    (unreconcile db auth path form).2 = db ∧ ¬ (readUnreconcile db auth path form).isOk ∨
      ∃ s, ownSession db auth path = .ok s ∧ (readUnreconcile db auth path form).isOk ∧
        s ∈ db.recSessions ∧ s.accountId = path.account ∧ s.status = .closed ∧
        (unreconcile db auth path form).2 = reopen db s.id := by
  cases hread : readUnreconcile db auth path form with
  | error e =>
    left
    refine ⟨?_, by simp [Except.isOk, Except.toBool]⟩
    rw [unreconcile, hread]
    rfl
  | ok u =>
    right
    have hwrite : (unreconcile db auth path form).2 = reopen db path.session := by
      rw [unreconcile, hread]
      rfl
    simp only [readUnreconcile, bind_eq_ok, mapError_eq_ok, ensure_eq_ok] at hread
    obtain ⟨s, hown, -, -, hclosed⟩ := hread
    obtain ⟨hmem, hid, hmine⟩ := ownSession_spec hown
    exact ⟨s, hown, rfl, hmem, hmine, hclosed, hid ▸ hwrite⟩

/-- A write to the lines of one open session. -/
structure Marks (db db' : Db) (session : Uuid) : Prop extends OnlyLines db db' where
  opened : ∃ s ∈ db.recSessions, s.id = session ∧ s.status ≠ .closed
  others : ∀ t, t ≠ session → clearedLines db' t = clearedLines db t

theorem clearedLines_mark {line t : Uuid} (hne : t ≠ session) (cleared : Bool) :
    clearedLines (mark db session line cleared) t = clearedLines db t := by
  refine congrArg (List.map RecLine.bankLineId) ?_
  exact filter_updateWhere_of_not (p := IsLine session line)
    (q := fun r : RecLine => r.sessionId = t ∧ r.cleared = true)
    (f := fun r : RecLine => { r with cleared })
    fun r _ hr => ⟨fun h => hne (h.1.symm.trans hr.1), fun h => hne (h.1.symm.trans hr.1)⟩

theorem clearedLines_setCleared {line t : Uuid} (hne : t ≠ session)
    (h : setCleared db session line = .ok db') : clearedLines db' t = clearedLines db t := by
  unfold setCleared at h
  split at h
  · cases h
    exact clearedLines_mark hne true
  · simp only [bind_eq_ok] at h
    obtain ⟨-, -, -, -, h⟩ := h
    cases h
    rw [clearedLines, List.filter_append, List.filter_cons_of_neg (by simp [Ne.symm hne])]
    simp [clearedLines]

theorem clear_cases (ht : Tables db) (auth : Option Uuid) (path : RecSessions.Path)
    (form : ClearForm) :
    (clear db auth path form).2 = db ∨ Marks db (clear db auth path form).2 path.session := by
  rcases commit_cases db _ with h | ⟨_, db', hbody, h⟩
  · exact Or.inl h
  · right
    simp only [bind_eq_ok, mapError_eq_ok] at hbody
    obtain ⟨_, hread, db₁, hset, hbody⟩ := hbody
    cases hbody
    simp only [readClear, bind_eq_ok, ensure_eq_ok] at hread
    obtain ⟨s, hown, -, hopen, -⟩ := hread
    obtain ⟨hmem, hid, -⟩ := ownSession_spec hown
    rw [clear, h]
    exact ⟨(setCleared_spec ht.toKeyed hset).1, ⟨s, hmem, hid, hopen⟩,
      fun t hne => clearedLines_setCleared hne hset⟩

theorem unclear_cases (ht : Tables db) (auth : Option Uuid) (path : RecSessions.Path)
    (form : UnclearForm) :
    (unclear db auth path form).2 = db ∨ Marks db (unclear db auth path form).2 path.session := by
  rcases commit_cases db _ with h | ⟨_, db', hbody, h⟩
  · exact Or.inl h
  · right
    simp only [bind_eq_ok] at hbody
    obtain ⟨_, hread, hbody⟩ := hbody
    cases hbody
    simp only [readUnclear, bind_eq_ok, ensure_eq_ok] at hread
    obtain ⟨s, hown, hopen⟩ := hread
    obtain ⟨hmem, hid, -⟩ := ownSession_spec hown
    rw [unclear, h]
    exact ⟨(setUncleared_spec ht.toKeyed path.session form.bankLineId).1, ⟨s, hmem, hid, hopen⟩,
      fun t hne => clearedLines_mark hne false⟩

theorem Marks.partitioned_iff (ht : Tables db) (h : Marks db db' session) :
    Partitioned account db' ↔ Partitioned account db := by
  refine partitioned_iff_of_same (by rw [closedSessions, h.sessions]; rfl) fun t hmem => ?_
  refine h.others t.id fun hid => ?_
  obtain ⟨s, hs, hsid, hopen⟩ := h.opened
  obtain ⟨htmem, -, hclosed⟩ := mem_closedSessions.mp hmem
  exact hopen (List.inj_on_of_nodup_map ht.sessions htmem hs (hid.trans hsid.symm) ▸ hclosed)

theorem Marks.tables (ht : Tables db) (h : Marks db db' session) : Tables db' :=
  ⟨⟨h.sessions ▸ ht.sessions, h.keys⟩, h.sessions ▸ ht.dates⟩

/-- A request keeps the sessions a partition exactly when it meets the condition. -/
theorem step_partitioned_iff (ht : Tables db) (h : Partitioned account db) (op : Op) :
    Partitioned account (step ledger account db op) ↔ Fitting ledger account db op := by
  cases op with
  | createSession req auth form =>
    refine ⟨fun _ => trivial, fun _ => ?_⟩
    rw [step]
    rcases createSession_cases db req auth ledger account form with
      hsame | ⟨s, hopen, -, -, hwrite⟩
    · rw [hsame]
      exact h
    · have hclosed : closedSessions { db with recSessions := db.recSessions ++ [s] } account =
          closedSessions db account := by
        rw [closedSessions, List.filter_append, List.filter_cons_of_neg (by simp [hopen]),
          List.filter_nil, List.append_nil, closedSessions]
      rw [hwrite]
      exact (partitioned_iff_of_same hclosed fun _ _ => rfl).mpr h
  | clear auth session form =>
    refine ⟨fun _ => trivial, fun _ => ?_⟩
    rw [step]
    rcases clear_cases ht auth ⟨ledger, account, session⟩ form with hsame | hmarks
    · rw [hsame]
      exact h
    · exact (hmarks.partitioned_iff ht).mpr h
  | unclear auth session form =>
    refine ⟨fun _ => trivial, fun _ => ?_⟩
    rw [step]
    rcases unclear_cases ht auth ⟨ledger, account, session⟩ form with hsame | hmarks
    · rw [hsame]
      exact h
    · exact (hmarks.partitioned_iff ht).mpr h
  | finish auth session =>
    rw [step, Fitting]
    rcases finish_cases db auth ⟨ledger, account, session⟩ with
      ⟨hsame, hrefused⟩ | ⟨s, hread, hcheck, hmem, hmine, hopen, hwrite⟩
    · rw [hsame]
      refine ⟨fun _ => ?_, fun _ => h⟩
      split
      · next s hread => exact fun hok => absurd hok (hrefused s hread)
      · trivial
    · rw [hwrite, close_partitioned_iff ht h hmem hmine hopen, hread]
      exact ⟨fun hjoins _ => hjoins, fun hjoins => hjoins hcheck⟩
  | unreconcile auth session form =>
    rw [step, Fitting]
    rcases unreconcile_cases db auth ⟨ledger, account, session⟩ form with
      ⟨hsame, hrefused⟩ | ⟨s, hown, hread, hmem, hmine, hclosed, hwrite⟩
    · rw [hsame]
      refine ⟨fun _ => ?_, fun _ => h⟩
      split
      · exact fun hok => absurd hok hrefused
      · trivial
    · rw [hwrite, reopen_partitioned_iff ht h hmem hmine hclosed, hown]
      exact ⟨fun hleaves _ => hleaves, fun hleaves => hleaves hread⟩

/-! ## Runs -/

theorem tables_of_status (ht : Tables db) (session : Uuid) (status : RecStatus)
    (hsessions : db'.recSessions = updateWhere (fun s => s.id = session)
      (fun s => { s with status }) db.recSessions)
    (hlines : db'.recLines.map lineKey = db.recLines.map lineKey) : Tables db' where
  toKeyed := (keepsBalances_of_status ht.toKeyed session status hsessions hlines).keyed
  dates := by
    have hdates : db'.recSessions.map (fun s => (s.accountId, s.stmtCloseDate)) =
        db.recSessions.map fun s => (s.accountId, s.stmtCloseDate) := by
      rw [hsessions]
      exact map_key_updateWhere (f := fun s : RecSession => { s with status }) fun _ => rfl
    exact hdates ▸ ht.dates

/-- What is unique in the tables stays unique. -/
theorem step_tables (ht : Tables db) (op : Op) : Tables (step ledger account db op) := by
  cases op with
  | createSession req auth form =>
    rw [step]
    rcases createSession_cases db req auth ledger account form with
      hsame | ⟨s, -, hid, hdate, hwrite⟩
    · rw [hsame]
      exact ht
    · rw [hwrite]
      refine ⟨⟨nodup_map_concat.mpr ⟨ht.sessions, hid⟩, ht.lines⟩,
        nodup_map_concat.mpr ⟨ht.dates, fun r hr heq => hdate r hr (Prod.mk.inj heq)⟩⟩
  | clear auth session form =>
    rw [step]
    rcases clear_cases ht auth ⟨ledger, account, session⟩ form with hsame | hmarks
    · rw [hsame]
      exact ht
    · exact hmarks.tables ht
  | unclear auth session form =>
    rw [step]
    rcases unclear_cases ht auth ⟨ledger, account, session⟩ form with hsame | hmarks
    · rw [hsame]
      exact ht
    · exact hmarks.tables ht
  | finish auth session =>
    rw [step]
    rcases finish_cases db auth ⟨ledger, account, session⟩ with
      ⟨hsame, -⟩ | ⟨s, -, -, -, -, -, hwrite⟩
    · rw [hsame]
      exact ht
    · rw [hwrite]
      exact tables_of_status ht s.id .closed rfl rfl
  | unreconcile auth session form =>
    rw [step]
    rcases unreconcile_cases db auth ⟨ledger, account, session⟩ form with
      ⟨hsame, -⟩ | ⟨s, -, -, -, -, -, hwrite⟩
    · rw [hsame]
      exact ht
    · rw [hwrite]
      refine tables_of_status ht s.id .opened rfl ?_
      exact map_key_updateWhere (f := fun r : RecLine => { r with cleared := false }) fun _ => rfl

/-- The account has no sessions yet. -/
structure Blank (account : Uuid) (db : Db) : Prop extends Tables db where
  none : ∀ s ∈ db.recSessions, s.accountId ≠ account

theorem Blank.partitioned (h : Blank account db) : Partitioned account db := by
  have hnil : closedSessions db account = [] := by
    rw [List.eq_nil_iff_forall_not_mem]
    intro s hs
    obtain ⟨hmem, hmine, -⟩ := mem_closedSessions.mp hs
    exact h.none s hmem hmine
  refine ⟨fun s hs => ?_, by rw [hnil]; trivial⟩
  rw [hnil] at hs
  cases hs

/-- In a run on an account that begins without sessions, the closed sessions partition the statement
at any time exactly when each request meets the condition. -/
theorem partitioned_iff_fitting {ops : List Op} (h : Blank account db) :
    (∀ db' ∈ Runs.visited (step ledger account) db ops, Partitioned account db') ↔
      Runs.Meets (step ledger account) (Fitting ledger account) db ops :=
  Runs.forall_visited_iff_meets (fun _ op ht => step_tables ht op)
    (fun _ op ht hpart => step_partitioned_iff ht hpart op) h.toTables h.partitioned

instance (db : Db) (s t : Uuid) : Decidable (Shares db s t) :=
  List.decidableBEx (fun line => line ∈ clearedLines db t) (clearedLines db s)

instance (db : Db) (account : Uuid) (s : RecSession) : Decidable (Joins db account s) := by
  unfold Joins
  infer_instance

instance (db : Db) (account : Uuid) (s : RecSession) : Decidable (Leaves db account s) := by
  unfold Leaves
  infer_instance

instance (ledger account : Uuid) (db : Db) : (op : Op) → Decidable (Fitting ledger account db op)
  | .createSession .. | .clear .. | .unclear .. => inferInstanceAs (Decidable True)
  | .finish auth session =>
    match hread : readFinish db auth ⟨ledger, account, session⟩ with
    | .ok s => decidable_of_iff
        ((checkFinish s (clearedSum db s.id)).isOk → Joins db account s) (by rw [Fitting, hread])
    | .error _ => .isTrue (by rw [Fitting, hread]; trivial)
  | .unreconcile auth session form =>
    match hown : ownSession db auth ⟨ledger, account, session⟩ with
    | .ok s => decidable_of_iff
        ((readUnreconcile db auth ⟨ledger, account, session⟩ form).isOk → Leaves db account s)
        (by rw [Fitting, hown])
    | .error _ => .isTrue (by rw [Fitting, hown]; trivial)

instance decidableCarried : (opening : ℚ) → (rows : List RecSession) →
    Decidable (Carried opening rows)
  | _, [] => inferInstanceAs (Decidable True)
  | opening, s :: rest =>
    have := decidableCarried s.stmtCloseBalance rest
    inferInstanceAs (Decidable (s.openingBalance = opening ∧ Carried s.stmtCloseBalance rest))

namespace Sample

open OpenAccounting.Sample

/-- Two statement lines of the cash account and no session. -/
def lines : Db :=
  { OpenAccounting.Sample.db with
    bankStatementLines :=
      [{ id := 61, ledgerId := ledgerId, accountId := cash, statementDate := march 10,
         amount := 100 },
        { id := 62, ledgerId := ledgerId, accountId := cash, statementDate := march 20,
          amount := 50 }] }

theorem lines_blank : Blank cash lines where
  sessions := List.nodup_nil
  lines := List.nodup_nil
  dates := List.nodup_nil
  none := by simp [lines, OpenAccounting.Sample.db]

/-- The session that `request seed` creates. -/
def sessionId (seed : ℕ) : Uuid := (request seed).rowId 0

/-- A session for the statement up to a day of March. -/
def statement (seed day : ℕ) (balance : ℚ) : Op :=
  .createSession (request seed) (some owner) ⟨march day, balance⟩

def clearLine (seed : ℕ) (line : Uuid) : Op := .clear (some owner) (sessionId seed) ⟨line, some "1"⟩

/-- Two sessions are created before one is closed, and both clear the same line. -/
def ahead : List Op :=
  [statement 1 15 100, statement 2 31 100, clearLine 1 61, clearLine 2 61,
    .finish (some owner) (sessionId 1), .finish (some owner) (sessionId 2)]

/-- Each session is created when the one before is closed, and the last one is opened again. -/
def inOrder : List Op :=
  [statement 1 15 100, clearLine 1 61, .finish (some owner) (sessionId 1), statement 2 31 150,
    clearLine 2 62, .finish (some owner) (sessionId 2),
    .unreconcile (some owner) (sessionId 2) ⟨some "wrong closing balance"⟩]

end Sample

/-- The second session shares the line with the first and does not open with its balance. -/
theorem ahead_not_partitioned :
    Blank Sample.cash Sample.lines ∧
      ¬ Apart (Runs.exec (step Sample.ledgerId Sample.cash) Sample.lines Sample.ahead) Sample.cash ∧
      ¬ Carried 0 (closedSessions
        (Runs.exec (step Sample.ledgerId Sample.cash) Sample.lines Sample.ahead) Sample.cash) := by
  refine ⟨Sample.lines_blank, ?_, ?_⟩
  · unfold Apart
    decide +kernel
  · decide +kernel

theorem partitioned_iff_fitting_inOrder :
    Partitioned Sample.cash
      (Runs.exec (step Sample.ledgerId Sample.cash) Sample.lines Sample.inOrder) := by
  have hfit : Runs.Meets (step Sample.ledgerId Sample.cash) (Fitting Sample.ledgerId Sample.cash)
      Sample.lines Sample.inOrder := by
    refine ⟨trivial, trivial, ?_, trivial, trivial, ?_, ?_, trivial⟩ <;> decide +kernel
  exact (partitioned_iff_fitting Sample.lines_blank).mpr hfit _ (Runs.exec_mem_visited _ _)

end OpenAccounting.StatementChain
