import OpenAccounting.Db.State
import OpenAccounting.Lib.Threads

/-!
# Invoice overdue reminders

`jobs/invoice_reminders.rs`, one statement at a time.  `scan` reads the invoices that are past due,
and `fire_once` claims each offset that is reached, by a row of `invoice_reminders`, before it
delivers.  Any number of scans are under way, and each may fail at any statement.

Other requests change ledgers, contacts and invoices meanwhile, so what a statement reads of these
tables is an input of its action.  The row is never marked as skipped: the record in the
application always counts as a delivery.
-/

namespace OpenAccounting.InvoiceReminders

open Calendar

def reminderOffsets : List ℤ := [1, 7, 14]

/-- An offset that an invoice has reached. -/
structure Due where
  invoice : Uuid
  ledger : Uuid
  contact : Uuid
  offset : ℤ
deriving DecidableEq

/-- The key of a row of `invoice_reminders`.  The channel is always `owner`. -/
def Due.key (d : Due) : Uuid × ℤ := (d.invoice, d.offset)

/-- What `scan` goes through. -/
def dueOffsets (invoices : List Invoice) (today : NaiveDate) : List Due :=
  (invoices.filter fun i => i.kind = .receivable ∧ (i.status = .opened ∨ i.status = .overdue) ∧
    i.dueDate < today).flatMap fun i =>
      (reminderOffsets.filter fun offset =>
        ¬ today.dayNumber - i.dueDate.dayNumber < offset).map fun offset =>
          { invoice := i.id, ledger := i.ledgerId, contact := i.contactId, offset := offset }

theorem mem_dueOffsets {invoices : List Invoice} {today : NaiveDate} {d : Due} :
    d ∈ dueOffsets invoices today ↔ ∃ i ∈ invoices,
      (i.kind = .receivable ∧ (i.status = .opened ∨ i.status = .overdue) ∧ i.dueDate < today) ∧
        ∃ offset ∈ reminderOffsets, offset ≤ today.dayNumber - i.dueDate.dayNumber ∧
          d = ⟨i.id, i.ledgerId, i.contactId, offset⟩ := by
  simp only [dueOffsets, List.mem_flatMap, List.mem_filter, List.mem_map, decide_eq_true_eq,
    not_lt, and_assoc, eq_comm (b := d)]

/-- What `fire_once` reads. -/
structure Reading where
  owner : Uuid
  contactEmail : String
  invoiceNumber : Option String
  total : ℚ
deriving DecidableEq

/-- Where a reminder goes, in this order. -/
inductive Channel where
  | email
  | inApp
  | event
deriving DecidableEq

/-- What is delivered: a job `email_send`, a record for the owner, or `invoice.overdue`. -/
inductive Message where
  | email (address subject text : String)
  | inApp (owner : Uuid) (text : String)
  | event (ledger : Uuid)

structure Delivery where
  due : Due
  message : Message

def Message.channel : Message → Channel
  | .email .. => .email
  | .inApp .. => .inApp
  | .event .. => .event

/-- The message of a channel, if there is one.  The e-mail needs a configured sender and an
address. -/
def message (display : ℚ → String) (configured : Bool) (reading : Reading) (d : Due) :
    Channel → Option Message
  | .email =>
    let number := reading.invoiceNumber.getD ""
    if configured ∧ reading.contactEmail ≠ "" then
      some (.email reading.contactEmail
        ("Overdue invoice " ++ number ++ " (" ++ toString d.offset ++ " days past due)")
        ("Invoice " ++ number ++ " is " ++ toString d.offset ++
          " day(s) past due. Outstanding amount: " ++ display reading.total ++ "."))
    else none
  | .inApp => some (.inApp reading.owner ("Invoice " ++
      reading.invoiceNumber.getD "(unnumbered)" ++ " is " ++ toString d.offset ++
        " day(s) overdue"))
  | .event => some (.event d.ledger)

/-- Where a scan is.  `all` is what it goes through and `rest` what is left of it. -/
inductive Place where
  | idle
  | firing (all rest : List Due)
  | claiming (all : List Due) (reading : Reading) (d : Due) (rest : List Due)
  | delivering (all : List Due) (reading : Reading) (d : Due) (rest : List Due) (channel : Channel)

inductive Action where
  | scan (invoices : List Invoice) (today : NaiveDate)
  | read (reading : Reading)
  | claim
  /-- The message of the channel is written, or not. -/
  | deliver (configured ok : Bool)
  | fail

/-- The rows of `invoice_reminders`, which scan has claimed which of them, what was delivered, and
what the scans have read. -/
structure Shared where
  reminders : List (Uuid × ℤ) := []
  claims : List (ℕ × (Uuid × ℤ)) := []
  delivered : List Delivery := []
  scanned : List (List Invoice × NaiveDate) := []

/-- The channel after this one, or the next offset. -/
def Place.next (all : List Due) (reading : Reading) (d : Due) (rest : List Due) : Channel → Place
  | .email => .delivering all reading d rest .inApp
  | .inApp => .delivering all reading d rest .event
  | .event => .firing all rest

/-- `scan` and `fire_once`, one statement at a time. -/
def act (display : ℚ → String) (n : ℕ) (sh : Shared) : Place → Action → Shared × Place
  | .idle, .scan invoices today =>
    ({ sh with scanned := sh.scanned ++ [(invoices, today)] },
      .firing (dueOffsets invoices today) (dueOffsets invoices today))
  | .firing all (d :: rest), .read reading => (sh, .claiming all reading d rest)
  | .claiming all reading d rest, .claim =>
    -- `ON CONFLICT DO NOTHING`, and nothing to do if no row is affected.
    if d.key ∈ sh.reminders then (sh, .firing all rest)
    else
      ({ sh with reminders := sh.reminders ++ [d.key], claims := sh.claims ++ [(n, d.key)] },
        .delivering all reading d rest .email)
  | .delivering all reading d rest channel, .deliver configured ok =>
    match message display configured reading d channel with
    | none => (sh, .next all reading d rest channel)
    | some m =>
      if ok then
        ({ sh with delivered := sh.delivered ++ [⟨d, m⟩] }, .next all reading d rest channel)
      -- A failed record or event is ignored.
      else (sh, if channel = .email then .idle else .next all reading d rest channel)
  | _, .fail => (sh, .idle)
  | place, _ => (sh, place)

/-- The scans, interleaved. -/
abbrev State := Threads.State ℕ Shared Place

def step (display : ℚ → String) : State → ℕ × Action → State := Threads.step (act display)

end OpenAccounting.InvoiceReminders
