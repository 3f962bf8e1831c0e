import OpenAccounting.Jobs.Queue
import OpenAccounting.Lib.TextSearch

/-!
# Automation rules

`conditions_match` and `match_and_enqueue` of `jobs/automation.rs`.  An event is compared with the
enabled rules of its ledger, and every rule that matches gets a job of the kind `automation_action`.
Before the loop over the rules the jobs of the last hour are counted, and the event is dropped if
there are 120 of them.

The statements are executed one by one and the clock goes on between them.
-/

namespace OpenAccounting.Automation

open Commit
open Jobs (Job)

inductive Value (Number : Type) where
  | null
  | bool (b : Bool)
  | number (n : Number)
  | string (s : String)
  | array (items : List (Value Number))
  | object (fields : List (String × Value Number))

namespace Value

variable {Number : Type}

def asObject : Value Number → Option (List (String × Value Number))
  | object fields => some fields
  | _ => none

def asStr : Value Number → Option String
  | string s => some s
  | _ => none

/-- `Value::get` with a name. -/
def get (v : Value Number) (field : String) : Option (Value Number) :=
  v.asObject.bind fun fields => (fields.find? fun f => f.1 = field).map Prod.snd

end Value

/-- `automation_rules`. -/
structure Rule (Number : Type) where
  id : Uuid
  ledgerId : Uuid
  trigger : String
  conditions : Value Number
  action : String
  actionConfig : Value Number
  isEnabled : Bool := true

/-- What the code takes from its libraries.  `Number` are the numbers of JSON and `Float` those of
`f64`. -/
structure Libraries (Number Float : Type) where
  /-- `Value::as_f64`, of a number. -/
  asF64 : Number → Option Float
  /-- `str::to_lowercase`. -/
  toLowercase : String → String
  /-- The text of the payload of a job. -/
  payload : Rule Number → Uuid → String → Value Number → String
  /-- `payload->>'ledger_id'`. -/
  ledgerId : String → Option String
  ledgerId_payload : ∀ rule ledger eventType data,
    ledgerId (payload rule ledger eventType data) = some ledger.hyphenated

section

variable {Number Float : Type} (lib : Libraries Number Float)

/-! ## Conditions -/

def Value.asF64 : Value Number → Option Float
  | .number n => lib.asF64 n
  | _ => none

def eventField (data : Value Number) (field : String) : Option (Value Number) :=
  (data.get field).or ((data.get "data").bind fun inner => inner.get field)

def eventNumber (data : Value Number) (field : String) : Option Float :=
  (eventField data field).bind (Value.asF64 lib)

/-- The arm of `description_contains`. -/
def descriptionContains (expected data : Value Number) : Bool :=
  match expected.asStr with
  | none => false
  | some needle =>
    let hay := ((eventField data "description").bind Value.asStr).getD ""
    RustStr.contains (lib.toLowercase needle) (lib.toLowercase hay)

variable [LE Float] [DecidableLE Float]

/-- The arms that compare a number of the event with a bound. -/
def numberWithin (field : String) (within : Float → Float → Prop) [DecidableRel within]
    (expected data : Value Number) : Bool :=
  match expected.asF64 lib with
  | none => false
  | some bound =>
    match eventNumber lib data field with
    | some v => within bound v
    | none => false

/-- One condition.  An unknown one fails. -/
def conditionHolds (key : String) (expected data : Value Number) : Bool :=
  if key = "description_contains" then descriptionContains lib expected data
  else if key = "amount_gte" then numberWithin lib "amount" (fun min v => min ≤ v) expected data
  else if key = "amount_lte" then numberWithin lib "amount" (fun max v => v ≤ max) expected data
  else if key = "days_past_due_gte" then
    numberWithin lib "days_past_due" (fun min v => min ≤ v) expected data
  else false

def conditionsMatch (conditions data : Value Number) : Bool :=
  match conditions.asObject with
  | none => false
  | some map => map.all fun (key, expected) => conditionHolds lib key expected data

/-! ## The fan-out -/

def ledgerActionBudgetPerHour : ℕ := 120

/-- `INTERVAL '1 hour'`, in microseconds. -/
def hour : ℤ := 3600 * 1000000

/-- The kind of the jobs. -/
def actionKind : String := "automation_action"

/-- The job carries out an action of the ledger. -/
def IsAction (ledger : Uuid) (j : Job) : Prop :=
  j.kind = actionKind ∧ lib.ledgerId j.payload = some ledger.hyphenated

instance (ledger : Uuid) : DecidablePred (IsAction lib ledger) :=
  fun _ => inferInstanceAs (Decidable (_ ∧ _))

/-- The jobs, the clock, and every job as it was enqueued. -/
structure Queue where
  jobs : List Job
  now : ℤ
  inserted : List Job

/-- How a statement ends. -/
inductive Outcome where
  | done
  /-- It has not been executed. -/
  | failed
  /-- It has been executed, and its answer is lost. -/
  | lost
deriving DecidableEq

/-- An `INSERT`: the id that is drawn, and the time since the last statement. -/
structure Draw where
  id : Uuid
  wait : ℕ := 0
  outcome : Outcome := .done

/-- An event, and how the statements for it go. -/
structure Event (Number : Type) where
  ledger : Uuid
  eventType : String
  data : Value Number
  /-- The rules cannot be read. -/
  lookupFails : Bool := false
  countWait : ℕ := 0
  /-- The jobs cannot be counted. -/
  countFails : Bool := false
  /-- The draw for each row of the rules. -/
  draw : ℕ → Draw

/-- `enqueue`, for an action.  The result says whether it returns an id. -/
def Queue.enqueueAction (q : Queue) (draw : Draw) (payload : String) : Bool × Queue :=
  let now := q.now + draw.wait
  match draw.outcome, Jobs.enqueue q.jobs draw.id now q.inserted.length actionKind payload none none with
  | .failed, _ | _, .error _ => (false, { q with now })
  | .done, .ok (row, jobs) => (true, ⟨jobs, now, q.inserted ++ [row]⟩)
  | .lost, .ok (row, jobs) => (false, ⟨jobs, now, q.inserted ++ [row]⟩)

/-- The loop over the rules, from the row `k` on. -/
def enqueueAll (e : Event Number) : ℕ → List (Rule Number) → Queue → ℕ × Queue
  | _, [], q => (0, q)
  | k, rule :: rest, q =>
    if conditionsMatch lib rule.conditions e.data then
      let (isOk, q) := q.enqueueAction (e.draw k) (lib.payload rule e.ledger e.eventType e.data)
      let (enqueued, q) := enqueueAll e (k + 1) rest q
      (if isOk then enqueued + 1 else enqueued, q)
    else enqueueAll e (k + 1) rest q

/-- The rules that are read for an event. -/
def rulesFor (rules : List (Rule Number)) (ledger : Uuid) (eventType : String) :
    List (Rule Number) :=
  rules.filter fun r => r.ledgerId = ledger ∧ r.trigger = eventType ∧ r.isEnabled = true

/-- The jobs of the last hour. -/
def used (ledger : Uuid) (now : ℤ) (jobs : List Job) : ℕ :=
  (jobs.filter fun j => IsAction lib ledger j ∧ now - hour < j.createdAt).length

def matchAndEnqueue (rules : List (Rule Number)) (e : Event Number) (q : Queue) : ℕ × Queue :=
  let rows := rulesFor rules e.ledger e.eventType
  if e.lookupFails = true ∨ rows = [] then (0, q)
  else
    let q := { q with now := q.now + e.countWait }
    -- A count that cannot be read is taken for 0.
    let used := if e.countFails then 0 else used lib e.ledger q.now q.jobs
    if ledgerActionBudgetPerHour ≤ used then (0, q) else enqueueAll lib e 0 rows q

end

end OpenAccounting.Automation
