import OpenAccounting.Handlers.Reimbursement
import OpenAccounting.Lib.Threads
import OpenAccounting.System.JournalOps

/-!
# Approvals of one claim

Calls of `approve` on one claim run interleaved.  Each checks the status first, and then, in a
transaction, reads the recorded levels, inserts its step, reads the levels again and decides: the
step completes the claim, which is posted, or the claim stays partially approved.  Nothing locks the
claim, so a decision is made from the levels committed by then.

The claim is posted once, when its levels are complete, exactly as long as every decision is still
right when it is committed (`StillRight`).
-/

namespace OpenAccounting.Reimbursement

open Calendar Commit Relational

/-- Where a call is. -/
inductive Place where
  | idle
  /-- The status has been checked. -/
  | checked (user : Uuid) (claim : Claim) (level : ℤ)
  /-- The step is inserted, and not committed. -/
  | recorded (user : Uuid) (claim : Claim) (level : ℤ) (required : List ℤ)
  /-- The levels are read again. -/
  | decided (user : Uuid) (claim : Claim) (level : ℤ) (full : Bool)
deriving DecidableEq

/-- One action of a call. -/
inductive Action where
  | approve (auth : Option Uuid) (violation : Option String) (level : Option ℤ)
  | insert
  | reread
  | commit (req : Request)
  | abort

/-- What a transaction leaves when it commits.  A second step with one key waits at its insert for
the first, and fails once that is committed. -/
def commitApproval (db : Db) (req : Request) (user ledger : Uuid) (claim : Claim) (level : ℤ)
    (full : Bool) : Except AppError Db := do
  ensure (¬ ∃ s ∈ db.approvalSteps, s.claimId = claim.id ∧ s.level = level ∧ s.approverId = user)
    (.db (.uniqueViolation "reimbursement_approval_steps"))
  finishApproval (addStep db claim.id level user) req user ledger claim full

/-- The steps of `approve`. -/
def act (ledger claim : Uuid) (_ : ℕ) (db : Db) : Place → Action → Db × Place
  | .idle, .approve auth violation level =>
    match authorize db auth ledger claim violation (level.getD 1) with
    | .ok (user, c) => (db, .checked user c (level.getD 1))
    | .error _ => (db, .idle)
  | .checked user c level, .insert =>
    match readLevels db user ledger c level with
    | .ok (some required) => (db, .recorded user c level required)
    | .ok none => (db, .idle)
    | .error _ => (db, .idle)
  | .recorded user c level required, .reread =>
    (db, .decided user c level (decide (Completes db user c.id level required)))
  | .decided user c level full, .commit req =>
    match commitApproval db req user ledger c level full with
    | .ok db' => (db', .idle)
    | .error _ => (db, .idle)
  | _, .abort => (db, .idle)
  | place, _ => (db, place)

/-- Everything that is under way. -/
abbrev State := Threads.State ℕ Db Place

/-- A call takes its next action. -/
def step (ledger claim : Uuid) : State → ℕ × Action → State := Threads.step (act ledger claim)

/-- The levels the claim needs. -/
def requiredOf (db : Db) (ledger claim : Uuid) : List ℤ :=
  ApprovalRouting.requiredLevels db ledger (claimTotal db claim)

/-- Every level the claim needs is recorded. -/
def AllRecorded (db : Db) (ledger claim : Uuid) : Prop :=
  ∀ l ∈ requiredOf db ledger claim, l ∈ ApprovalRouting.recordedLevels db claim

instance (db : Db) (ledger claim : Uuid) : Decidable (AllRecorded db ledger claim) := by
  unfold AllRecorded
  infer_instance

/-- The number of transactions posted for the claim, by their reference. -/
def postedFor (db : Db) (ledger : Uuid) (c : Claim) : ℕ :=
  (db.books.transactions.filter fun t => t.ledgerId = ledger ∧ t.reference = some c.shortId).length

/-- The claim is fully approved exactly when its levels are recorded, and posted once if it is. -/
def Settled (ledger claim : Uuid) (db : Db) : Prop :=
  ∀ c ∈ db.claims, c.id = claim → c.ledgerId = ledger →
    (c.status = .fullyApproved ↔ AllRecorded db ledger claim) ∧
      postedFor db ledger c = if c.status = .fullyApproved then 1 else 0

instance (ledger claim : Uuid) (db : Db) : Decidable (Settled ledger claim db) := by
  unfold Settled
  infer_instance

/-- No decision is out of date when it is committed: one that completes the claim finds it not fully
approved, and one that does not finds a level that is still missing. -/
def StillRight (ledger claim : Uuid) (s : State) : ℕ × Action → Prop
  | (n, .commit req) =>
    match s.place n with
    | .decided user c level full =>
      (commitApproval s.shared req user ledger c level full).isOk →
        if full then ∀ x ∈ s.shared.claims, x.id = claim → x.ledgerId = ledger →
          x.status ≠ .fullyApproved
        else ¬ Completes s.shared user claim level (requiredOf s.shared ledger claim)
    | .idle | .checked .. | .recorded .. => True
  | (_, .approve ..) | (_, .insert) | (_, .reread) | (_, .abort) => True

/-! ## What a commit does -/

/-- The claim row as a commit leaves it. -/
def concluded (user : Uuid) (full : Bool) (c : Claim) : Claim :=
  if full then { c with status := .fullyApproved, approvedBy := some user }
  else { c with status := .partiallyApproved }

@[simp] theorem concluded_id (user : Uuid) (full : Bool) (c : Claim) :
    (concluded user full c).id = c.id := by cases full <;> rfl

@[simp] theorem concluded_ledgerId (user : Uuid) (full : Bool) (c : Claim) :
    (concluded user full c).ledgerId = c.ledgerId := by cases full <;> rfl

@[simp] theorem concluded_shortId (user : Uuid) (full : Bool) (c : Claim) :
    (concluded user full c).shortId = c.shortId := by cases full <;> rfl

@[simp] theorem concluded_status (user : Uuid) (full : Bool) (c : Claim) :
    (concluded user full c).status = if full then .fullyApproved else .partiallyApproved := by
  cases full <;> rfl

/-- The database after a commit. -/
structure Concluded (ledger : Uuid) (db db' : Db) (user : Uuid) (claim : Claim) (level : ℤ)
    (full : Bool) : Prop where
  policies : db'.approvalPolicies = db.approvalPolicies
  lines : db'.claimLines = db.claimLines
  steps : db'.approvalSteps = (addStep db claim.id level user).approvalSteps
  claims : db'.claims = updateWhere (fun c => c.id = claim.id ∧ c.ledgerId = ledger)
    (concluded user full) db.claims
  posted : ∀ c, c.shortId = claim.shortId →
    postedFor db' ledger c = postedFor db ledger c + if full then 1 else 0

variable {db : Db} {ledger user : Uuid} {level : ℤ}

theorem commitApproval_concluded {db' : Db} {req : Request} {claim : Claim} {full : Bool}
    (h : commitApproval db req user ledger claim level full = .ok db') :
    Concluded ledger db db' user claim level full := by
  simp only [commitApproval, bind_eq_ok, finishApproval] at h
  obtain ⟨-, -, h⟩ := h
  cases full with
  | true =>
    obtain ⟨date, b', hrows, rfl⟩ := postClaim_rows h
    refine ⟨rfl, rfl, rfl, rfl, fun c hshort => ?_⟩
    have hnew : (txnRow req user ledger claim date).reference = some c.shortId := by
      rw [hshort]
      rfl
    have hledger : (txnRow req user ledger claim date).ledgerId = ledger := rfl
    simp only [postedFor, setStatus, hrows, addStep, List.filter_append, List.length_append]
    simp [hnew, hledger]
  | false =>
    cases h
    exact ⟨rfl, rfl, rfl, rfl, fun _ _ => rfl⟩

section Concluded

variable {ledger claim : Uuid} {db db' : Db} {user : Uuid} {c : Claim} {level : ℤ} {full : Bool}

theorem Concluded.requiredOf_eq (h : Concluded ledger db db' user c level full) :
    requiredOf db' ledger claim = requiredOf db ledger claim := by
  have htotal : claimTotal db' claim = claimTotal db claim := by
    rw [claimTotal, linesOf, h.lines, claimTotal, linesOf]
  rw [requiredOf, ApprovalRouting.requiredLevels, htotal, h.policies, requiredOf,
    ApprovalRouting.requiredLevels]

theorem Concluded.mem_recordedLevels (h : Concluded ledger db db' user c level full) (l : ℤ) :
    l ∈ ApprovalRouting.recordedLevels db' c.id ↔
      l = level ∨ l ∈ ApprovalRouting.recordedLevels db c.id := by
  have hadded : l ∈ ApprovalRouting.recordedLevels (addStep db c.id level user) c.id ↔
      l = level ∨ l ∈ ApprovalRouting.recordedLevels db c.id := mem_recordedLevels_addStep
  rw [← hadded, ApprovalRouting.mem_recordedLevels, ApprovalRouting.mem_recordedLevels, h.steps]

theorem Concluded.allRecorded_iff (h : Concluded ledger db db' user c level full)
    (hid : c.id = claim) :
    AllRecorded db' ledger claim ↔ Completes db user claim level (requiredOf db ledger claim) := by
  subst hid
  unfold AllRecorded Completes
  rw [h.requiredOf_eq]
  refine forall₂_congr fun l _ => ?_
  rw [h.mem_recordedLevels, mem_recordedLevels_addStep]

theorem settled_iff {x : Claim} (hkeyed : (db.claims.map Claim.id).Nodup) (hx : x ∈ db.claims)
    (hid : x.id = claim) (hledger : x.ledgerId = ledger) :
    Settled ledger claim db ↔ (x.status = .fullyApproved ↔ AllRecorded db ledger claim) ∧
      postedFor db ledger x = if x.status = .fullyApproved then 1 else 0 := by
  constructor
  · exact fun h => h x hx hid hledger
  · intro h y hy hyid _
    rw [List.inj_on_of_nodup_map hkeyed hy hx (hyid.trans hid.symm)]
    exact h

end Concluded

/-! ## What is known of a call -/

def Loaded (ledger claim : Uuid) (db : Db) (c : Claim) : Prop :=
  c.id = claim ∧ ∃ x ∈ db.claims, x.id = claim ∧ x.ledgerId = ledger ∧ x.shortId = c.shortId

/-- What a call has read. -/
def Backed (ledger claim : Uuid) (db : Db) : Place → Prop
  | .idle => True
  | .checked _ c _ => Loaded ledger claim db c
  | .recorded _ c _ required => Loaded ledger claim db c ∧ required = requiredOf db ledger claim
  | .decided user c level full => Loaded ledger claim db c ∧
      (full = true → Completes db user claim level (requiredOf db ledger claim))

def Keyed (db : Db) : Prop := (db.claims.map Claim.id).Nodup

section Backed

variable {ledger claim : Uuid} {db db' : Db} {user : Uuid} {c : Claim} {level : ℤ} {full : Bool}

theorem Concluded.keyed (h : Concluded ledger db db' user c level full) (hkeyed : Keyed db) :
    Keyed db' := by
  rw [Keyed, h.claims, map_key_updateWhere (concluded_id user full)]
  exact hkeyed

theorem Concluded.loaded {d : Claim} (h : Concluded ledger db db' user c level full)
    (hd : Loaded ledger claim db d) : Loaded ledger claim db' d := by
  obtain ⟨hid, x, hx, hxid, hxl, hxs⟩ := hd
  refine ⟨hid, if x.id = c.id ∧ x.ledgerId = ledger then concluded user full x else x, ?_, ?_⟩
  · rw [h.claims]
    exact List.mem_map_of_mem hx
  · split <;> simp [hxid, hxl, hxs]

theorem Concluded.backed {place : Place} (h : Concluded ledger db db' user c level full)
    (hid : c.id = claim) (hbacked : Backed ledger claim db place) :
    Backed ledger claim db' place := by
  cases place with
  | idle => trivial
  | checked v d m => exact h.loaded hbacked
  | recorded v d m required => exact ⟨h.loaded hbacked.1, by rw [hbacked.2, h.requiredOf_eq]⟩
  | decided v d m full' =>
    refine ⟨h.loaded hbacked.1, fun hfull l hl => ?_⟩
    rw [h.requiredOf_eq] at hl
    have hl := hbacked.2 hfull l hl
    subst hid
    rw [mem_recordedLevels_addStep] at hl ⊢
    rw [h.mem_recordedLevels]
    exact hl.imp_right Or.inr

end Backed

/-! ## Steps -/

theorem authorize_loaded {auth : Option Uuid} {claim : Uuid} {violation : Option String}
    {c : Claim} (h : authorize db auth ledger claim violation level = .ok (user, c)) :
    Loaded ledger claim db c := by
  simp only [authorize, bind_eq_ok, okOr_eq_ok, ensure_eq_ok] at h
  obtain ⟨_, -, _, -, c', hc, -, -, -, -, -, -, -, -, hpair⟩ := h
  cases hpair
  have hkey : c.id = claim ∧ c.ledgerId = ledger := by simpa using List.find?_some hc
  exact ⟨hkey.1, c, List.mem_of_find?_eq_some hc, hkey.1, hkey.2, rfl⟩

theorem readLevels_some {c : Claim} {required : List ℤ}
    (h : readLevels db user ledger c level = .ok (some required)) :
    required = requiredOf db ledger c.id := by
  simp only [readLevels, bind_eq_ok] at h
  obtain ⟨_, -, h⟩ := h
  split at h
  · cases h
  · simp only [bind_eq_ok] at h
    obtain ⟨_, -, _, -, h⟩ := h
    cases h
    rfl

/-- The call commits. -/
def Commits (ledger : Uuid) (db db' : Db) (place : Place) (a : Action) : Prop :=
  ∃ user c level full req, place = .decided user c level full ∧ a = .commit req ∧
    commitApproval db req user ledger c level full = .ok db'

theorem not_commits {place : Place} {a : Action} (ha : ∀ req, a ≠ .commit req) :
    ¬ ∃ db', Commits ledger db db' place a := by
  rintro ⟨db', user, c, level, full, req, -, haction, -⟩
  exact ha req haction

/-- An action commits, or leaves the database alone and knows what it has read. -/
theorem act_cases (ledger claim : Uuid) (n : ℕ) {place : Place}
    (hbacked : Backed ledger claim db place) (a : Action) :
    (∃ db', Commits ledger db db' place a ∧ act ledger claim n db place a = (db', .idle)) ∨
      (¬ ∃ db', Commits ledger db db' place a) ∧
        ∃ place', act ledger claim n db place a = (db, place') ∧ Backed ledger claim db place' := by
  cases a with
  | commit req =>
    cases place with
    | decided user c level full =>
      cases hcommit : commitApproval db req user ledger c level full with
      | ok db' =>
        exact Or.inl ⟨db', ⟨user, c, level, full, req, rfl, rfl, hcommit⟩,
          by simp only [act, hcommit]⟩
      | error e =>
        refine Or.inr ⟨?_, .idle, by simp only [act, hcommit], trivial⟩
        rintro ⟨db', user', c', level', full', req', hplace, haction, hok⟩
        cases hplace
        cases haction
        rw [hcommit] at hok
        cases hok
    | idle | checked | recorded =>
      refine Or.inr ⟨?_, _, rfl, hbacked⟩
      rintro ⟨db', user', c', level', full', req', hplace, -⟩
      cases hplace
  | approve auth violation level =>
    refine Or.inr ⟨not_commits (fun _ h => nomatch h), ?_⟩
    cases place with
    | idle =>
      cases hauth : authorize db auth ledger claim violation (level.getD 1) with
      | ok r => exact ⟨.checked r.1 r.2 (level.getD 1), by simp only [act, hauth],
          authorize_loaded hauth⟩
      | error e => exact ⟨.idle, by simp only [act, hauth], trivial⟩
    | checked | recorded | decided => exact ⟨_, rfl, hbacked⟩
  | insert =>
    refine Or.inr ⟨not_commits (fun _ h => nomatch h), ?_⟩
    cases place with
    | checked user c level =>
      cases hread : readLevels db user ledger c level with
      | ok r =>
        cases r with
        | some required =>
          have hrequired : required = requiredOf db ledger claim := by
            rw [readLevels_some hread, hbacked.1]
          exact ⟨.recorded user c level required, by simp only [act, hread], hbacked,
            hrequired⟩
        | none => exact ⟨.idle, by simp only [act, hread], trivial⟩
      | error e => exact ⟨.idle, by simp only [act, hread], trivial⟩
    | idle | recorded | decided => exact ⟨_, rfl, hbacked⟩
  | reread =>
    refine Or.inr ⟨not_commits (fun _ h => nomatch h), ?_⟩
    cases place with
    | recorded user c level required =>
      refine ⟨_, rfl, hbacked.1, fun hfull => ?_⟩
      rw [← hbacked.2, ← hbacked.1.1]
      exact of_decide_eq_true hfull
    | idle | checked | decided => exact ⟨_, rfl, hbacked⟩
  | abort =>
    refine Or.inr ⟨not_commits (fun _ h => nomatch h), ?_⟩
    cases place <;> exact ⟨.idle, rfl, trivial⟩

theorem outline (ledger claim : Uuid) :
    Threads.Outline (act ledger claim) (fun _ _ => True) Keyed
      (fun _ place db => Backed ledger claim db place) where
  sequential {s n a} hs _ := by
    rcases act_cases ledger claim n (hs.places n) a with
      ⟨db', ⟨user, c, level, full, req, -, -, hcommit⟩, hact⟩ | ⟨-, place', hact, hbacked⟩
    · rw [hact]
      exact ⟨(commitApproval_concluded hcommit).keyed hs.inv, trivial⟩
    · rw [hact]
      exact ⟨hs.inv, hbacked⟩
  stable {s n m a} hs _ _ := by
    rcases act_cases ledger claim n (hs.places n) a with
      ⟨db', ⟨user, c, level, full, req, hplace, -, hcommit⟩, hact⟩ | ⟨-, place', hact, -⟩
    · rw [hact]
      have hloaded := hs.places n
      rw [hplace] at hloaded
      exact (commitApproval_concluded hcommit).backed hloaded.1.1 (hs.places m)
    · rw [hact]
      exact hs.places m

/-- A commit keeps the claim settled exactly when its decision is still right. -/
theorem Concluded.settled_iff {claim : Uuid} {db' : Db} {c : Claim} {full : Bool}
    (h : Concluded ledger db db' user c level full) (hkeyed : Keyed db)
    (hbacked : Backed ledger claim db (.decided user c level full))
    (hsettled : Settled ledger claim db) :
    Settled ledger claim db' ↔
      if full then ∀ x ∈ db.claims, x.id = claim → x.ledgerId = ledger → x.status ≠ .fullyApproved
      else ¬ Completes db user claim level (requiredOf db ledger claim) := by
  obtain ⟨⟨hid, x, hx, hxid, hxl, hxs⟩, hright⟩ := hbacked
  obtain ⟨hbefore, hposted⟩ := hsettled x hx hxid hxl
  have hstored : concluded user full x ∈ db'.claims := by
    rw [h.claims]
    refine List.mem_map.mpr ⟨x, hx, if_pos ?_⟩
    rw [hid]
    exact ⟨hxid, hxl⟩
  rw [Reimbursement.settled_iff (h.keyed hkeyed) hstored (by simpa using hxid) (by simpa using hxl),
    h.allRecorded_iff hid, h.posted _ (by simpa using hxs), concluded_status]
  have hsame : postedFor db ledger (concluded user full x) = postedFor db ledger x := by
    rw [postedFor, concluded_shortId, postedFor]
  rw [hsame, hposted]
  cases full with
  | true =>
    have hcompletes := hright rfl
    constructor
    · rintro ⟨-, hcount⟩ y hy hyid _
      rw [List.inj_on_of_nodup_map hkeyed hy hx (hyid.trans hxid.symm)]
      intro hfull
      simp [hfull] at hcount
    · intro hopen
      have hnot := hopen x hx hxid hxl
      simp [hcompletes, hnot]
  | false =>
    simp only [Bool.false_eq_true, if_false]
    constructor
    · rintro ⟨hstatus, -⟩ hcompletes
      simpa using hstatus.mpr hcompletes
    · intro hmissing
      -- With a level missing the claim was not fully approved before.
      have hnot : x.status ≠ .fullyApproved := fun hfull =>
        hmissing fun l hl => mem_recordedLevels_addStep.mpr (Or.inr (hbefore.mp hfull l hl))
      simp [hmissing, hnot]

/-- One step keeps the claim settled exactly if no decision is out of date. -/
theorem step_settled_iff {claim : Uuid} {s : State}
    (hs : Threads.Holds Keyed (fun _ place db => Backed ledger claim db place) s)
    (hsettled : Settled ledger claim s.shared) (m : ℕ × Action) :
    Settled ledger claim (step ledger claim s m).shared ↔ StillRight ledger claim s m := by
  obtain ⟨n, a⟩ := m
  show Settled ledger claim (act ledger claim n s.shared (s.place n) a).1 ↔ _
  have hbacked := hs.places n
  rcases act_cases ledger claim n hbacked a with
    ⟨db', ⟨user, c, level, full, req, hplace, rfl, hcommit⟩, hact⟩ | ⟨hnone, place', hact, -⟩
  · rw [hact]
    rw [hplace] at hbacked
    rw [(commitApproval_concluded hcommit).settled_iff hs.inv hbacked hsettled]
    simp only [StillRight, hplace, hcommit]
    exact ⟨fun h _ => h, fun h => h rfl⟩
  · rw [hact]
    refine ⟨fun _ => ?_, fun _ => hsettled⟩
    cases a with
    | commit req =>
      cases hplace : s.place n with
      | decided user c level full =>
        simp only [StillRight, hplace]
        intro hok
        obtain ⟨db', hcommit⟩ := exists_ok_of_isOk hok
        exact absurd ⟨db', user, c, level, full, req, hplace, rfl, hcommit⟩ hnone
      | idle | checked | recorded => simp only [StillRight, hplace]
    | approve | insert | reread | abort => trivial

/-! ## Runs -/

/-- No call is in flight, and the claim is settled. -/
structure Fresh (ledger claim : Uuid) (s : State) : Prop where
  idle : ∀ n, s.place n = .idle
  keyed : Keyed s.shared
  settled : Settled ledger claim s.shared

/-- In an interleaving of approvals the claim is settled in every state exactly when every decision
is still right at its commit. -/
theorem settled_iff_stillRight {ledger claim : Uuid} {s : State} {actions : List (ℕ × Action)}
    (h : Fresh ledger claim s) :
    (∀ s' ∈ Runs.visited (step ledger claim) s actions, Settled ledger claim s'.shared) ↔
      Runs.Meets (step ledger claim) (StillRight ledger claim) s actions := by
  have hholds : Threads.Holds Keyed (fun _ place db => Backed ledger claim db place) s :=
    ⟨h.keyed, fun n => by rw [h.idle n]; trivial⟩
  exact Runs.forall_visited_iff_meets (P := fun s : State => Settled ledger claim s.shared)
    (fun _ _ hs => (outline ledger claim).step_holds hs trivial)
    (fun _ m hs hsettled => step_settled_iff hs hsettled m) hholds h.settled

instance (ledger claim : Uuid) (s : State) : (m : ℕ × Action) →
    Decidable (StillRight ledger claim s m)
  | (n, .commit req) =>
    match hplace : s.place n with
    | .decided user c level full => decidable_of_iff
        ((commitApproval s.shared req user ledger c level full).isOk →
          if full then ∀ x ∈ s.shared.claims, x.id = claim → x.ledgerId = ledger →
            x.status ≠ .fullyApproved
          else ¬ Completes s.shared user claim level (requiredOf s.shared ledger claim))
        (by rw [StillRight, hplace])
    | .idle | .checked .. | .recorded .. => .isTrue (by rw [StillRight, hplace]; trivial)
  | (_, .approve ..) | (_, .insert) | (_, .reread) | (_, .abort) => inferInstanceAs (Decidable True)

namespace Sample

open OpenAccounting.Sample

def travel : Uuid := 21
def payable : Uuid := 22

/-- A claim of 50 that is submitted. -/
def trip : Claim where
  id := 31
  ledgerId := ledgerId
  shortId := "R-1"
  employeeId := 9
  employeeName := "Employee"
  currency := "USD"
  status := .submitted

/-- The claim in the sample ledger, with a policy for each level. -/
def start (levels : List ℤ) : State where
  shared :=
    { OpenAccounting.Sample.db with
      books := .ofChart
        [{ id := travel, ledgerId := ledgerId, name := "Travel", type := .expense,
           subtype := .operatingExpense, subtype_valid := AccountType.operatingExpense_valid },
         { id := payable, ledgerId := ledgerId, name := "Employees", type := .liability,
           subtype := .employeePayable, subtype_valid := by decide }] (by decide)
      claims := [trip]
      claimLines :=
        [{ claimId := trip.id, txnDate := march 2, amount := 50, glAccountId := travel }]
      approvalPolicies := levels.map fun l =>
        { ledgerId := ledgerId, minAmount := 0, approverRole := .accountant, level := l } }
  place _ := .idle

/-- The owner and the accountant decide before either commits. -/
def crossed (first second : ℤ) : List (ℕ × Action) :=
  [(0, .approve (some owner) none (some first)), (1, .approve (some accountant) none (some second)),
    (0, .insert), (1, .insert), (0, .reread), (1, .reread), (0, .commit (request 1)),
    (1, .commit (request 2))]

/-- The accountant reads after the owner has committed. -/
def inTurn : List (ℕ × Action) :=
  [(0, .approve (some owner) none (some 1)), (1, .approve (some accountant) none (some 2)),
    (0, .insert), (0, .reread), (0, .commit (request 1)), (1, .insert), (1, .reread),
    (1, .commit (request 2))]

theorem start_fresh (levels : List ℤ) (h : Settled ledgerId trip.id (start levels).shared) :
    Fresh ledgerId trip.id (start levels) where
  idle _ := rfl
  keyed := List.nodup_singleton _
  settled := h

/-- The state after two calls have crossed. -/
def final (levels : List ℤ) (first second : ℤ) : State :=
  Runs.exec (step ledgerId trip.id) (start levels) (crossed first second)

theorem final_idle {levels : List ℤ} {first second : ℤ}
    (h : ∀ n < 2, (final levels first second).place n = .idle) (n : ℕ) :
    (final levels first second).place n = .idle := by
  by_cases hn : n < 2
  · exact h n hn
  · refine Threads.place_exec_of_not_mem (fun m hm => ?_) (start levels)
    simp only [crossed, List.mem_cons, List.not_mem_nil, or_false] at hm
    rcases hm with rfl | rfl | rfl | rfl | rfl | rfl | rfl | rfl <;> dsimp only <;> omega

end Sample

/-- Two approvals of different levels leave the claim partially approved with all levels recorded,
and two of one level post it twice. -/
theorem crossed_not_settled :
    (Fresh Sample.ledgerId Sample.trip.id (Sample.start [1, 2]) ∧
      (∀ n, (Sample.final [1, 2] 1 2).place n = .idle) ∧
      AllRecorded (Sample.final [1, 2] 1 2).shared Sample.ledgerId Sample.trip.id ∧
      ¬ Settled Sample.ledgerId Sample.trip.id (Sample.final [1, 2] 1 2).shared) ∧
    Fresh Sample.ledgerId Sample.trip.id (Sample.start [1]) ∧
      (∀ n, (Sample.final [1] 1 1).place n = .idle) ∧
      postedFor (Sample.final [1] 1 1).shared Sample.ledgerId Sample.trip = 2 ∧
      ¬ Settled Sample.ledgerId Sample.trip.id (Sample.final [1] 1 1).shared :=
  ⟨⟨Sample.start_fresh [1, 2] (by decide +kernel), Sample.final_idle (by decide +kernel),
      by decide +kernel, by decide +kernel⟩,
    Sample.start_fresh [1] (by decide +kernel), Sample.final_idle (by decide +kernel),
    by decide +kernel, by decide +kernel⟩

theorem settled_iff_stillRight_inTurn :
    Settled Sample.ledgerId Sample.trip.id
      (Runs.exec (step Sample.ledgerId Sample.trip.id) (Sample.start [1, 2])
        Sample.inTurn).shared := by
  have hfresh := Sample.start_fresh [1, 2] (by decide +kernel)
  have hright : Runs.Meets (step Sample.ledgerId Sample.trip.id)
      (StillRight Sample.ledgerId Sample.trip.id) (Sample.start [1, 2]) Sample.inTurn := by
    refine ⟨trivial, trivial, trivial, trivial, ?_, trivial, trivial, ?_, trivial⟩ <;>
      decide +kernel
  exact (settled_iff_stillRight hfresh).mpr hright _ (Runs.exec_mem_visited _ _)

end OpenAccounting.Reimbursement
