import OpenAccounting.Lib.Relational

/-!
# The login rate limiter

`auth/rate_limit.rs`.  Every finished login attempt leaves a row in `login_attempts`.  An account is
throttled after five failures within ten minutes, an address after twenty within an hour.  A success
deletes the recent failures of its email, whatever address they came from, so it takes them from the
count of an address as well.

Times are in microseconds.
-/

namespace OpenAccounting.RateLimit

open Relational

variable {Inet : Type*}

/-! ## The code -/

def accountWindowMinutes : ℤ := 10

def accountFailureThreshold : ℕ := 5

def ipWindowMinutes : ℤ := 60

def ipFailureThreshold : ℕ := 20

def minutes (n : ℤ) : ℤ := n * 60 * 1000000

inductive Decision where
  | allowed
  | throttled
deriving DecidableEq

structure LoginAttempt (Inet : Type*) where
  ip : Inet
  email : String
  success : Bool
  ts : ℤ
deriving DecidableEq

def recordAttempt (rows : List (LoginAttempt Inet)) (ip : Inet) (email : String) (success : Bool)
    (now : ℤ) : List (LoginAttempt Inet) :=
  rows ++ [⟨ip, email, success, now⟩]

def recordSuccess (rows : List (LoginAttempt Inet)) (ip : Inet) (email : String) (now : ℤ) :
    List (LoginAttempt Inet) :=
  deleteWhere
    (fun a => a.email = email ∧ a.success = false ∧ now - minutes accountWindowMinutes < a.ts)
    (recordAttempt rows ip email true now)

def checkAccount (rows : List (LoginAttempt Inet)) (email : String) (now : ℤ) : Decision :=
  let count := (rows.filter fun a =>
    a.email = email ∧ a.success = false ∧ now - minutes accountWindowMinutes < a.ts).length
  if accountFailureThreshold ≤ count then .throttled else .allowed

def checkIp [DecidableEq Inet] (rows : List (LoginAttempt Inet)) (ip : Inet) (now : ℤ) : Decision :=
  let count := (rows.filter fun a =>
    a.ip = ip ∧ a.success = false ∧ now - minutes ipWindowMinutes < a.ts).length
  if ipFailureThreshold ≤ count then .throttled else .allowed

def second : ℤ := 1000000

/-- `retry_after`, behind the query for `MIN(ts)`. -/
def retryAfter (oldest : Option ℤ) (windowMinutes now : ℤ) : ℤ :=
  (oldest.map fun ts => max ((ts + minutes windowMinutes - now).tdiv second) 0).getD 0

def retryAfterAccount (rows : List (LoginAttempt Inet)) (email : String) (now : ℤ) : ℤ :=
  let matching := rows.filter fun a =>
    a.email = email ∧ a.success = false ∧ now - minutes accountWindowMinutes < a.ts
  retryAfter (matching.map LoginAttempt.ts).min? accountWindowMinutes now

def retryAfterIp [DecidableEq Inet] (rows : List (LoginAttempt Inet)) (ip : Inet) (now : ℤ) : ℤ :=
  let matching := rows.filter fun a =>
    a.ip = ip ∧ a.success = false ∧ now - minutes ipWindowMinutes < a.ts
  retryAfter (matching.map LoginAttempt.ts).min? ipWindowMinutes now

/-! ## Histories -/

/-- A call of the limiter at the end of a login attempt. -/
inductive Call (Inet : Type*) where
  | recordFailure (ip : Inet) (email : String) (now : ℤ)
  | recordSuccess (ip : Inet) (email : String) (now : ℤ)

/-- The table after one more call. -/
def Call.perform (rows : List (LoginAttempt Inet)) : Call Inet → List (LoginAttempt Inet)
  | .recordFailure ip email now => recordAttempt rows ip email false now
  | .recordSuccess ip email now => RateLimit.recordSuccess rows ip email now

/-- The failed attempt that the call records. -/
def Call.failure : Call Inet → Option (LoginAttempt Inet)
  | .recordFailure ip email now => some ⟨ip, email, false, now⟩
  | .recordSuccess _ _ _ => none

/-- A success within ten minutes of a failure for the same email. -/
def Call.Resets (a : LoginAttempt Inet) : Call Inet → Prop
  | .recordFailure _ _ _ => False
  | .recordSuccess _ email now => a.email = email ∧ now - minutes accountWindowMinutes < a.ts

instance (a : LoginAttempt Inet) : (c : Call Inet) → Decidable (c.Resets a)
  | .recordFailure _ _ _ => inferInstanceAs (Decidable False)
  | .recordSuccess _ _ _ => inferInstanceAs (Decidable (_ ∧ _))

/-- All failed attempts. -/
def failures (calls : List (Call Inet)) : List (LoginAttempt Inet) := calls.filterMap Call.failure

/-- The failed attempts that no later call resets. -/
def lasting : List (Call Inet) → List (LoginAttempt Inet)
  | [] => []
  | c :: rest => (c.failure.toList.filter fun a => ¬ ∃ d ∈ rest, d.Resets a) ++ lasting rest

/-- The attempt was made from the address within the hour before `now`. -/
def InHour (ip : Inet) (now : ℤ) (a : LoginAttempt Inet) : Prop :=
  a.ip = ip ∧ now - minutes ipWindowMinutes < a.ts ∧ a.ts ≤ now

instance [DecidableEq Inet] (ip : Inet) (now : ℤ) : DecidablePred (InHour ip now) :=
  fun _ => inferInstanceAs (Decidable (_ ∧ _ ∧ _))

/-- The attempt was made from the address after `now`. -/
def Later (ip : Inet) (now : ℤ) (a : LoginAttempt Inet) : Prop := a.ip = ip ∧ now < a.ts

instance [DecidableEq Inet] (ip : Inet) (now : ℤ) : DecidablePred (Later ip now) :=
  fun _ => inferInstanceAs (Decidable (_ ∧ _))

/-! ## The table -/

theorem failures_perform (rows : List (LoginAttempt Inet)) (c : Call Inet) :
    (c.perform rows).filter (fun a => a.success = false) =
      (rows.filter fun a => a.success = false).filter (fun a => ¬ c.Resets a) ++
        c.failure.toList := by
  cases c with
  | recordFailure ip email now =>
    have hkept : (rows.filter fun a => a.success = false).filter
        (fun a => ¬ (Call.recordFailure ip email now).Resets a) =
          rows.filter fun a => a.success = false :=
      List.filter_eq_self.mpr fun a _ => decide_eq_true fun h => h
    rw [hkept]
    exact List.filter_append _ _
  | recordSuccess ip email now =>
    simp only [Call.perform, RateLimit.recordSuccess, recordAttempt, deleteWhere,
      List.filter_filter, List.filter_append, Call.failure, Option.toList_none, List.append_nil]
    have hlast : [(⟨ip, email, true, now⟩ : LoginAttempt Inet)].filter (fun a =>
        decide (a.success = false) && decide (¬ (a.email = email ∧ a.success = false ∧
          now - minutes accountWindowMinutes < a.ts))) = [] := rfl
    rw [hlast, List.append_nil]
    refine List.filter_congr fun a _ => ?_
    rw [← Bool.decide_and, ← Bool.decide_and]
    refine decide_eq_decide.mpr ?_
    simp only [Call.Resets]
    tauto

/-- The failures in the table are those that were there and those of the calls, without the ones
that are reset. -/
theorem failures_foldl (calls : List (Call Inet)) :
    ∀ rows : List (LoginAttempt Inet),
      (calls.foldl Call.perform rows).filter (fun a => a.success = false) =
        (rows.filter fun a => a.success = false).filter (fun a => ¬ ∃ d ∈ calls, d.Resets a) ++
          lasting calls := by
  induction calls with
  | nil =>
    intro rows
    simp [lasting]
  | cons c rest ih =>
    intro rows
    rw [List.foldl_cons, ih, failures_perform, List.filter_append, lasting, ← List.append_assoc,
      List.filter_filter]
    congr 2
    refine List.filter_congr fun a _ => ?_
    simp [not_or, Bool.and_comm]

theorem checkIp_eq_throttled_iff_lasting [DecidableEq Inet] (calls : List (Call Inet)) (ip : Inet)
    (now : ℤ) :
    checkIp (calls.foldl Call.perform []) ip now = .throttled ↔
      ipFailureThreshold ≤
        ((lasting calls).filter (InHour ip now)).length +
          ((lasting calls).filter (Later ip now)).length := by
  have hcount : (calls.foldl Call.perform []).filter (fun a =>
      a.ip = ip ∧ a.success = false ∧ now - minutes ipWindowMinutes < a.ts) =
        (lasting calls).filter fun a => a.ip = ip ∧ now - minutes ipWindowMinutes < a.ts := by
    have hfailures := failures_foldl calls []
    rw [List.filter_nil, List.filter_nil, List.nil_append] at hfailures
    rw [← hfailures, List.filter_filter]
    refine List.filter_congr fun a _ => ?_
    simp only [← Bool.decide_and]
    refine decide_eq_decide.mpr ?_
    tauto
  have hsplit : ((lasting calls).filter fun a =>
      a.ip = ip ∧ now - minutes ipWindowMinutes < a.ts).length =
        ((lasting calls).filter (InHour ip now)).length +
          ((lasting calls).filter (Later ip now)).length := by
    rw [← List.countP_eq_length_filter, List.countP_eq_countP_filter_add _ _ fun a => a.ts ≤ now,
      List.countP_filter, List.countP_filter, ← List.countP_eq_length_filter,
      ← List.countP_eq_length_filter]
    congr 1
    · refine List.countP_congr fun a _ => ?_
      rw [← Bool.decide_and, decide_eq_true_iff, decide_eq_true_iff]
      exact and_assoc
    · refine List.countP_congr fun a _ => ?_
      rw [← decide_not, ← Bool.decide_and, decide_eq_true_iff, decide_eq_true_iff]
      have hhour : 0 ≤ minutes ipWindowMinutes := by decide
      constructor
      · rintro ⟨⟨hip, -⟩, hlater⟩
        exact ⟨hip, not_le.mp hlater⟩
      · rintro ⟨hip, hlater⟩
        exact ⟨⟨hip, by omega⟩, not_le.mpr hlater⟩
  rw [checkIp]
  simp only [hcount, hsplit]
  split
  · next h => exact iff_of_true rfl h
  · next h => exact iff_of_false (fun h' => by cases h') h

/-! ## The limit of an address -/

/-- The failed attempts that a later call resets. -/
def wiped : List (Call Inet) → List (LoginAttempt Inet)
  | [] => []
  | c :: rest => (c.failure.toList.filter fun a => ∃ d ∈ rest, d.Resets a) ++ wiped rest

theorem length_filter_failures (p : LoginAttempt Inet → Prop) [DecidablePred p]
    (calls : List (Call Inet)) :
    ((failures calls).filter p).length =
      ((lasting calls).filter p).length + ((wiped calls).filter p).length := by
  induction calls with
  | nil => rfl
  | cons c rest ih =>
    have hcons : failures (c :: rest) = c.failure.toList ++ failures rest := by
      cases c <;> rfl
    have hsplit := List.length_eq_length_filter_add
      (l := c.failure.toList.filter p) fun a => ∃ d ∈ rest, d.Resets a
    rw [hcons, lasting, wiped, List.filter_append, List.filter_append, List.filter_append,
      List.length_append, List.length_append, List.length_append, ih, hsplit, List.filter_filter,
      List.filter_filter, List.filter_filter, List.filter_filter]
    simp only [Bool.and_comm, decide_not]
    omega

section

variable [DecidableEq Inet]

/-- If there are twenty failures in the hour, twenty of them are left when those that a success has
reset are taken away.  A check for a time before the last attempts counts these as well. -/
def Unaffected (calls : List (Call Inet)) (ip : Inet) (now : ℤ) : Prop :=
  let recorded := ((failures calls).filter (InHour ip now)).length
  let reset := ((wiped calls).filter (InHour ip now)).length
  let later := ((lasting calls).filter (Later ip now)).length
  if ipFailureThreshold ≤ recorded then ipFailureThreshold + reset ≤ recorded + later
  else recorded + later < ipFailureThreshold + reset

/-- An address is throttled for twenty failures in the hour exactly as long as the resets leave
twenty. -/
theorem throttled_iff_recorded_iff (calls : List (Call Inet)) (ip : Inet) (now : ℤ) :
    (checkIp (calls.foldl Call.perform []) ip now = .throttled ↔
      ipFailureThreshold ≤ ((failures calls).filter (InHour ip now)).length) ↔
        Unaffected calls ip now := by
  have hrecorded := length_filter_failures (InHour ip now) calls
  rw [checkIp_eq_throttled_iff_lasting]
  simp only [Unaffected]
  split
  · omega
  · omega

end

namespace Sample

/-- Sixteen failures for four emails, three for Alice's and her success, and one more failure, all
from one address. -/
def office : List (Call String) :=
  (["bob", "carol", "dave", "erin"].flatMap fun email =>
    List.replicate 4 (.recordFailure "203.0.113.9" email 0)) ++
  List.replicate 3 (.recordFailure "203.0.113.9" "alice" 60000000) ++
  [.recordSuccess "203.0.113.9" "alice" 120000000, .recordFailure "203.0.113.9" "mallory" 180000000]

end Sample

/-- Twenty failures within three minutes, and the address is allowed. -/
theorem office_not_throttled :
    ¬ (checkIp (Sample.office.foldl Call.perform []) "203.0.113.9" 180000000 = .throttled ↔
      ipFailureThreshold ≤
        ((failures Sample.office).filter (InHour "203.0.113.9" 180000000)).length) := by
  decide

/-! ## The header of a refusal -/

/-- The seconds of a `Retry-After` are `0` if the check allows the attempt, and otherwise the check
allows it a second after they are over. -/
def Truthful (check : ℤ → Decision) (now retryAfter : ℤ) : Prop :=
  (retryAfter = 0 ↔ check now = .allowed) ∧
    (0 < retryAfter → check (now + (retryAfter + 1) * second) = .allowed)

instance (check : ℤ → Decision) (now r : ℤ) : Decidable (Truthful check now r) :=
  inferInstanceAs (Decidable (_ ∧ _))

/-- The failures within a window. -/
def recent (window now : ℤ) (failures : List ℤ) : List ℤ :=
  failures.filter fun ts => now - window < ts

/-- What a check finds in the window. -/
def verdict (threshold : ℕ) (window : ℤ) (failures : List ℤ) (now : ℤ) : Decision :=
  if threshold ≤ (recent window now failures).length then .throttled else .allowed

/-- Below the threshold, the oldest failure leaves the window within a second.  Otherwise it stays
for a second at least, and at the first whole second without it there are fewer failures than the
threshold. -/
def RollsOff (threshold : ℕ) (window : ℤ) (failures : List ℤ) (now : ℤ) : Prop :=
  ∀ oldest ∈ (recent window now failures).min?,
    if (recent window now failures).length < threshold then oldest + window < now + second
    else now + second ≤ oldest + window ∧
      ∀ k : ℤ, now + (k - 1) * second ≤ oldest + window → oldest + window < now + k * second →
        (recent window (now + k * second) failures).length < threshold

theorem verdict_eq_allowed {threshold : ℕ} {window : ℤ} {failures : List ℤ} {now : ℤ} :
    verdict threshold window failures now = .allowed ↔
      (recent window now failures).length < threshold := by
  rw [verdict]
  split
  · next h => exact iff_of_false (fun heq => by cases heq) (not_lt.mpr h)
  · next h => exact iff_of_true rfl (not_le.mp h)

theorem retryAfter_eq {windowMinutes now : ℤ} {failures : List ℤ} {oldest : ℤ}
    (h : (recent (minutes windowMinutes) now failures).min? = some oldest) :
    retryAfter (recent (minutes windowMinutes) now failures).min? windowMinutes now =
      (oldest + minutes windowMinutes - now) / second := by
  have hmem := (List.min?_eq_some_iff.mp h).1
  have hrecent := of_decide_eq_true (List.mem_filter.mp hmem).2
  have hleft : 0 ≤ oldest + minutes windowMinutes - now := by omega
  rw [h, retryAfter, Option.map_some, Option.getD_some, Int.tdiv_eq_ediv_of_nonneg hleft]
  exact max_eq_left (Int.ediv_nonneg hleft (by decide))

theorem truthful_iff_rollsOff {threshold : ℕ} (hthreshold : 0 < threshold) (windowMinutes now : ℤ)
    (failures : List ℤ) :
    Truthful (verdict threshold (minutes windowMinutes) failures) now
        (retryAfter (recent (minutes windowMinutes) now failures).min? windowMinutes now) ↔
      RollsOff threshold (minutes windowMinutes) failures now := by
  rw [Truthful, verdict_eq_allowed, verdict_eq_allowed, RollsOff]
  cases h : (recent (minutes windowMinutes) now failures).min? with
  | none =>
    have hnone := List.min?_eq_none_iff.mp h
    rw [hnone]
    simp [retryAfter, hthreshold]
  | some oldest =>
    have hrecent := of_decide_eq_true (List.mem_filter.mp (List.min?_eq_some_iff.mp h).1).2
    have hheader := retryAfter_eq h
    rw [h] at hheader
    simp only [hheader, Option.mem_some_iff, forall_eq']
    generalize hr : (oldest + minutes windowMinutes - now) / second = r
    have hfloor : r * second ≤ oldest + minutes windowMinutes - now ∧
        oldest + minutes windowMinutes - now < (r + 1) * second := by
      rw [← hr]
      unfold second
      omega
    unfold second at hfloor ⊢
    split
    · next hfew => simp only [hfew, iff_true]; omega
    · next hmany =>
        simp only [hmany, iff_false]
        constructor
        · rintro ⟨hne, hlater⟩
          refine ⟨by omega, fun k hk hk' => ?_⟩
          obtain rfl : k = r + 1 := by omega
          exact hlater (by omega)
        · rintro ⟨hstays, hlater⟩
          exact ⟨by omega, fun _ => hlater (r + 1) (by omega) (by omega)⟩

/-- The times of the failures that a check looks at. -/
def failedAt (p : LoginAttempt Inet → Prop) [DecidablePred p] (rows : List (LoginAttempt Inet)) :
    List ℤ :=
  (rows.filter fun a => p a ∧ a.success = false).map LoginAttempt.ts

theorem recent_failedAt (p : LoginAttempt Inet → Prop) [DecidablePred p] (window now : ℤ)
    (rows : List (LoginAttempt Inet)) :
    recent window now (failedAt p rows) =
      (rows.filter fun a => p a ∧ a.success = false ∧ now - window < a.ts).map LoginAttempt.ts := by
  rw [recent, failedAt, List.filter_map, List.filter_filter]
  refine congrArg _ (List.filter_congr fun a _ => ?_)
  simp only [Function.comp_apply, ← Bool.decide_and]
  refine decide_eq_decide.mpr ?_
  tauto

/-- The header of an account and that of an address can be relied on exactly when the oldest failure
is the one that the limit waits for. -/
theorem retryAfter_truthful_iff [DecidableEq Inet] (rows : List (LoginAttempt Inet))
    (email : String) (ip : Inet) (now : ℤ) :
    (Truthful (checkAccount rows email) now (retryAfterAccount rows email now) ↔
        RollsOff accountFailureThreshold (minutes accountWindowMinutes)
          (failedAt (fun a => a.email = email) rows) now) ∧
      (Truthful (checkIp rows ip) now (retryAfterIp rows ip now) ↔
        RollsOff ipFailureThreshold (minutes ipWindowMinutes)
          (failedAt (fun a => a.ip = ip) rows) now) := by
  have haccount : checkAccount rows email = verdict accountFailureThreshold
      (minutes accountWindowMinutes) (failedAt (fun a => a.email = email) rows) := by
    funext t
    rw [checkAccount, verdict, recent_failedAt, List.length_map]
  have hip : checkIp rows ip = verdict ipFailureThreshold (minutes ipWindowMinutes)
      (failedAt (fun a => a.ip = ip) rows) := by
    funext t
    rw [checkIp, verdict, recent_failedAt, List.length_map]
  rw [haccount, hip, retryAfterAccount, retryAfterIp, ← recent_failedAt, ← recent_failedAt]
  exact ⟨truthful_iff_rollsOff (by decide) _ now _, truthful_iff_rollsOff (by decide) _ now _⟩

/-- One failure, and the header says ten minutes. -/
theorem retryAfter_not_truthful_single :
    ¬ Truthful (checkAccount [⟨"203.0.113.9", "alice", false, 0⟩] "alice") 0
      (retryAfterAccount [⟨"203.0.113.9", "alice", false, 0⟩] "alice" 0) := by
  decide

end OpenAccounting.RateLimit
