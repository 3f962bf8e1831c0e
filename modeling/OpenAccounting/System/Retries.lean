import OpenAccounting.Api.Idempotency
import OpenAccounting.Lib.OncePerWindow
import OpenAccounting.System.JournalOps

/-!
# Retries of a keyed request

Any number of requests are under way.  A keyed request looks its key up, runs, and stores
its response, each as one access to the database, with the accesses of other requests, the
clock and the purge in between.  A request that stops half-way takes no further step.

`State.slot` is what one key and token see of the system, a `OncePerWindow.Slot`.  Every step
is a step of that slot or leaves it alone (`slot_step`), if lookups that find nothing are
genuine misses: no other request of the key is under way, and the table has no row of the
key, not even an expired one.
-/

namespace OpenAccounting.Retries

open Api OncePerWindow

variable {Json : Type}

/-- A request with an `Idempotency-Key`. -/
structure KeyedRequest (Json : Type) where
  user : Uuid
  token : Uuid
  key : String
  call : Call Json
deriving DecidableEq

/-- A request that has found nothing and not stored yet. -/
structure Flight (Json : Type) where
  number : ℕ
  request : KeyedRequest Json
  /-- The text of its response, once it has run. -/
  response : Option String := none
deriving DecidableEq

/-- A response that a request has produced. -/
structure Creation where
  key : String
  token : Uuid
  response : ApiResponse
  /-- The clock at the commit. -/
  time : ℤ
deriving DecidableEq

/-- The system. -/
structure State (Json : Type) where
  db : Db
  table : List IdempotencyRow := []
  now : ℤ := 0
  inFlight : List (Flight Json) := []
  /-- What has been created, oldest first. -/
  created : List Creation := []

/-- One access to the database, or the passing of time. -/
inductive Step (Json : Type) where
  | lookup (number : ℕ) (request : KeyedRequest Json)
  | execute (number : ℕ) (draw : Request)
  | store (number : ℕ)
  | purge
  | tick (micros : ℕ)

/-- The flight of the number that has not run. -/
def Looked (number : ℕ) (f : Flight Json) : Bool := f.number = number && f.response.isNone

/-- The flight of the number that has run. -/
def Ran (number : ℕ) (f : Flight Json) : Bool := f.number = number && f.response.isSome

/-- The system takes a step. -/
def step (serde : Serde Json) (s : State Json) : Step Json → State Json
  | .lookup number r =>
    -- A hit and a conflict answer the request at once.
    match idempotencyLookup s.table s.now r.key r.token
        (fingerprint serde (r.call.fingerprinted serde)) with
    | .ok none => { s with inFlight := ⟨number, r, none⟩ :: s.inFlight }
    | _ => s
  | .execute number draw =>
    match s.inFlight.find? (Looked number) with
    | none => s
    | some f =>
      let others := s.inFlight.eraseP (Looked number)
      match f.request.call.execute serde s.db { draw with now := s.now } f.request.user with
      | (.ok response, db) =>
        { s with
          db := db
          inFlight := { f with response := some (serde.render response) } :: others
          created := s.created ++ [⟨f.request.key, f.request.token, response, s.now⟩] }
      | (.error _, db) => { s with db := db, inFlight := others }
  | .store number =>
    match s.inFlight.find? (Ran number) with
    | none => s
    | some f =>
      { s with
        table := idempotencyStore s.table s.now f.request.key f.request.token
          (fingerprint serde (f.request.call.fingerprinted serde)) 201 (f.response.getD "")
        inFlight := s.inFlight.eraseP (Ran number) }
  | .purge => { s with table := purgeExpiredIdempotency s.table s.now }
  | .tick micros => { s with now := s.now + micros }

/-! ## What one key sees -/

def KeyedRequest.For (key : String) (token : Uuid) (r : KeyedRequest Json) : Prop :=
  r.key = key ∧ r.token = token

instance (key : String) (token : Uuid) :
    DecidablePred fun r : KeyedRequest Json => r.For key token := by
  unfold KeyedRequest.For
  infer_instance

def Creation.For (key : String) (token : Uuid) (c : Creation) : Prop :=
  c.key = key ∧ c.token = token

instance (key : String) (token : Uuid) : DecidablePred (Creation.For key token) := by
  unfold Creation.For
  infer_instance

namespace State

/-- The requests of the key under way. -/
def flightsFor (s : State Json) (key : String) (token : Uuid) : List (Flight Json) :=
  s.inFlight.filter fun f => f.request.For key token

def rowsFor (s : State Json) (key : String) (token : Uuid) : List IdempotencyRow :=
  s.table.filter fun row => row.For key token

def createdFor (s : State Json) (key : String) (token : Uuid) : List Creation :=
  s.created.filter fun c => c.For key token

/-- What the key sees. -/
def slot (s : State Json) (key : String) (token : Uuid) : Slot where
  now := s.now
  looked := (s.flightsFor key token).countP fun f => f.response.isNone
  acted := (s.flightsFor key token).countP fun f => f.response.isSome
  kept := (s.rowsFor key token).map IdempotencyRow.createdAt
  times := (s.createdFor key token).map Creation.time

end State

/-- A lookup that finds nothing is of a key that no other request is under way with and
that the table has no row of. -/
def GenuineMiss (serde : Serde Json) (s : State Json) : Step Json → Prop
  | .lookup _ r =>
    idempotencyLookup s.table s.now r.key r.token
        (fingerprint serde (r.call.fingerprinted serde)) = .ok none →
      s.flightsFor r.key r.token = [] ∧ s.rowsFor r.key r.token = []
  | _ => True

/-! ## Every step is a step of the slot -/

theorem perm_eraseP {p : Flight Json → Bool} {fs : List (Flight Json)} {f : Flight Json}
    (h : fs.find? p = some f) : fs.Perm (f :: fs.eraseP p) := by
  obtain ⟨hp, front, back, rfl, hfront⟩ := List.find?_eq_some_iff_append.mp h
  have herase : (front ++ f :: back).eraseP p = front ++ back := by
    rw [List.eraseP_append_right _ (by simpa using hfront), List.eraseP_cons_of_pos hp]
  rw [herase]
  exact List.perm_middle

section Slot

variable {serde : Serde Json} {s : State Json} {key : String} {token : Uuid}

theorem slot_of_find (key : String) (token : Uuid) {p : Flight Json → Bool} {f : Flight Json}
    (h : s.inFlight.find? p = some f) :
    s.slot key token = { s.slot key token with
      looked := ((f :: s.inFlight.eraseP p).filter fun f => f.request.For key token).countP
        fun f => f.response.isNone
      acted := ((f :: s.inFlight.eraseP p).filter fun f => f.request.For key token).countP
        fun f => f.response.isSome } := by
  have hfor := (perm_eraseP h).filter fun f => decide (f.request.For key token)
  rw [State.slot, State.flightsFor, hfor.countP_eq, hfor.countP_eq]

theorem slot_lookup {number : ℕ} {r : KeyedRequest Json}
    (hmiss : GenuineMiss serde s (.lookup number r)) :
    (step serde s (.lookup number r)).slot key token = s.slot key token ∨
      OncePerWindow.Step window (s.slot key token)
        ((step serde s (.lookup number r)).slot key token) := by
  rw [step]
  split
  · next hnone =>
      obtain ⟨hflights, hrows⟩ := hmiss hnone
      by_cases hfor : r.For key token
      · obtain ⟨rfl, rfl⟩ := hfor
        right
        have hslot : ({ s with inFlight := ⟨number, r, none⟩ :: s.inFlight } : State Json).slot
            r.key r.token = { s.slot r.key r.token with looked := 1 } := by
          have hself : r.For r.key r.token := ⟨rfl, rfl⟩
          rw [State.flightsFor] at hflights
          simp [State.slot, State.flightsFor, State.rowsFor, State.createdFor, hself, hflights]
        rw [hslot]
        exact .look (by simp [State.slot, hflights]) (by simp [State.slot, hflights])
          (by simp [State.slot, hrows])
      · left
        simp [State.slot, State.flightsFor, State.rowsFor, State.createdFor, hfor]
  · exact Or.inl rfl

/-- For a key, an execution is one step of its window, or nothing. -/
theorem slot_execute {number : ℕ} {draw : Request} :
    (step serde s (.execute number draw)).slot key token = s.slot key token ∨
      OncePerWindow.Step window (s.slot key token)
        ((step serde s (.execute number draw)).slot key token) := by
  rw [step]
  split
  · exact Or.inl rfl
  · next f hfind =>
      have hslot := slot_of_find key token hfind
      have hnone : f.response = none := by
        have hlooked := List.find?_some hfind
        simp only [Looked, Bool.and_eq_true] at hlooked
        exact Option.isNone_iff_eq_none.mp hlooked.2
      rw [hslot]
      split
      · next response db _ =>
          by_cases hfor : f.request.For key token
          · right
            have hcreation : (⟨f.request.key, f.request.token, response, s.now⟩ : Creation).For
                key token := hfor
            refine (OncePerWindow.Step.act ?_).of_eq ?_
            · simp [hfor, hnone]
            · simp [State.slot, State.flightsFor, State.rowsFor, State.createdFor, hfor,
                hcreation, hnone]
          · left
            have hcreation : ¬ (⟨f.request.key, f.request.token, response, s.now⟩ : Creation).For
                key token := hfor
            simp [State.slot, State.flightsFor, State.rowsFor, State.createdFor, hfor, hcreation]
      · by_cases hfor : f.request.For key token
        · right
          refine (OncePerWindow.Step.fail ?_).of_eq ?_
          · simp [hfor, hnone]
          · simp [State.slot, State.flightsFor, State.rowsFor, State.createdFor, hfor, hnone]
        · left
          simp [State.slot, State.flightsFor, State.rowsFor, State.createdFor, hfor]

/-- So is a stored response. -/
theorem slot_store {number : ℕ} :
    (step serde s (.store number)).slot key token = s.slot key token ∨
      OncePerWindow.Step window (s.slot key token)
        ((step serde s (.store number)).slot key token) := by
  rw [step]
  split
  · exact Or.inl rfl
  · next f hfind =>
      have hslot := slot_of_find key token hfind
      have hsome : f.response.isSome := by
        have hran := List.find?_some hfind
        simp only [Ran, Bool.and_eq_true] at hran
        exact hran.2
      have hnone : f.response.isNone = false := by simpa using hsome
      rw [hslot]
      by_cases hfor : f.request.For key token
      · right
        refine (OncePerWindow.Step.keep ?_).of_eq ?_
        · simp [hfor, hsome]
        · obtain ⟨rfl, rfl⟩ := hfor
          have hself : f.request.For f.request.key f.request.token := ⟨rfl, rfl⟩
          simp only [State.slot, State.flightsFor, State.rowsFor, State.createdFor,
            filter_idempotencyStore]
          simp [hself, hsome, hnone, apply_ite]
      · left
        have hrows : ¬ (f.request.key = key ∧ f.request.token = token) := hfor
        simp only [State.slot, State.flightsFor, State.rowsFor, State.createdFor,
          filter_idempotencyStore_of_ne hrows]
        simp [hfor]

theorem slot_purge :
    OncePerWindow.Step window (s.slot key token) ((step serde s .purge).slot key token) := by
  refine OncePerWindow.Step.expire.of_eq ?_
  simp only [step, State.slot, State.flightsFor, State.rowsFor, State.createdFor,
    purgeExpiredIdempotency, Relational.deleteWhere, List.filter_map, List.filter_filter]
  congr 2
  refine List.filter_congr ?_
  intro row _
  exact Bool.and_comm _ _

/-- A step that meets the condition is a step of the slot, or does not touch it. -/
theorem slot_step {a : Step Json} (hmiss : GenuineMiss serde s a) :
    (step serde s a).slot key token = s.slot key token ∨
      OncePerWindow.Step window (s.slot key token) ((step serde s a).slot key token) := by
  cases a with
  | lookup number r => exact slot_lookup hmiss
  | execute number draw => exact slot_execute
  | store number => exact slot_store
  | purge => exact Or.inr slot_purge
  | tick micros => exact Or.inr (.tick micros)

theorem slot_sound_step {a : Step Json} (hs : Sound window (s.slot key token))
    (hmiss : GenuineMiss serde s a) : Sound window ((step serde s a).slot key token) := by
  rcases slot_step hmiss with heq | hstep
  · rw [heq]
    exact hs
  · exact hstep.sound hs

end Slot

/-! ## At most once per window -/

/-- A start: nothing is under way, and the table is what earlier requests left. -/
def State.initial (db : Db) (table : List IdempotencyRow) (now : ℤ) : State Json :=
  { db := db, table := table, now := now }

/-- In a run whose missing lookups are genuine, any two creations for one key and token are
more than 24 hours apart. -/
theorem created_apart_of_genuineMiss (serde : Serde Json) (db : Db) (table : List IdempotencyRow)
    (start : ℤ) {steps : List (Step Json)}
    (hmeets : Runs.Meets (step serde) (GenuineMiss serde) (.initial db table start) steps)
    (key : String) (token : Uuid) :
    ∀ s ∈ Runs.visited (step serde) (.initial db table start) steps,
      ((s.createdFor key token).map Creation.time).Pairwise
        fun earlier later => earlier + window < later := by
  intro s hs
  have hsound : Sound window (s.slot key token) :=
    Runs.invariant_of_meets (P := fun s : State Json => Sound window (s.slot key token))
      (fun _ _ hs hmiss => slot_sound_step hs hmiss) (sound_initial start _) hmeets s hs
  exact hsound.apart

end OpenAccounting.Retries

/-! ## The sample over the API -/

namespace OpenAccounting.Sample

open Api

/-- The canonical text of the body of a sale of 50. -/
def saleText : String :=
  "\x7b\"date\":\"2026-03-14\",\"description\":\"Sale\",\"lines\":[" ++
    "\x7b\"account_id\":\"" ++ Uuid.hyphenated cash ++
      "\",\"amount\":\"50\",\"direction\":\"DEBIT\"\x7d," ++
    "\x7b\"account_id\":\"" ++ Uuid.hyphenated sales ++
      "\",\"amount\":\"50\",\"direction\":\"CREDIT\"\x7d]\x7d"

def saleBody : Transactions.CreateTransactionBody where
  date := march 14
  description := "Sale"
  lines := [{ accountId := cash, amount := 50, direction := "DEBIT" },
    { accountId := sales, amount := 50, direction := "CREDIT" }]

/-- The text of a response whose strings need no escapes and whose amounts are whole. -/
def responseText : ApiResponse → String
  | .transaction r =>
    "\x7b\"id\":\"" ++ Uuid.hyphenated r.id ++ "\",\"date\":\"" ++ r.date.display ++
      "\",\"description\":\"" ++ r.description ++ "\",\"total\":\"" ++
      toString r.total.num ++ "\"\x7d"
  | .reversal r =>
    "\x7b\"id\":\"" ++ Uuid.hyphenated r.id ++ "\",\"kind\":\"reversing\"," ++
      "\"reverses_id\":\"" ++ Uuid.hyphenated r.reversesId ++ "\"\x7d"
  | .invoice r =>
    "\x7b\"id\":\"" ++ Uuid.hyphenated r.id ++ "\",\"total\":\"" ++ toString r.total.num ++
      "\"\x7d"
  | .payment id => "\x7b\"id\":\"" ++ Uuid.hyphenated id ++ "\"\x7d"

/-- The serialisation, on the values of the sample.  A value is its canonical text. -/
def serde : Serde String where
  emptyObject := "\x7b\x7d"
  toString := id
  transactionBody text := if text = saleText then .ok saleBody else .error "missing field `date`"
  invoiceBody _ := .error "missing field `contact_id`"
  paymentBody _ := .error "missing field `amount`"
  render := responseText

end OpenAccounting.Sample

namespace OpenAccounting.Retries

open Api

/-- The owner posts the sale with a key. -/
def saleRequest : KeyedRequest String where
  user := Sample.owner
  token := 21
  key := "sale-1"
  call := .createTransaction Sample.ledgerId Sample.saleText

/-- The request is sent twice, and both lookups come before both inserts. -/
def overlappingRetry : List (Step String) :=
  [.lookup 1 saleRequest, .lookup 2 saleRequest, .execute 1 (Sample.request 1),
    .execute 2 (Sample.request 2), .store 1, .store 2]

/-- Two transactions are created for one key at one moment. -/
theorem overlappingRetry_not_apart :
    ¬ (((Runs.exec (step Sample.serde) (.initial Sample.db [] 0) overlappingRetry).createdFor
      "sale-1" 21).map Creation.time).Pairwise fun earlier later => earlier + window < later := by
  decide +kernel

/-- The request is sent once, and again after 25 hours and a purge. -/
def retryNextDay : List (Step String) :=
  [.lookup 1 saleRequest, .execute 1 (Sample.request 1), .store 1, .tick (25 * 3600 * 1000000),
    .purge, .lookup 2 saleRequest, .execute 2 (Sample.request 2), .store 2]

/-- Its two transactions are more than 24 hours apart. -/
theorem created_apart_of_genuineMiss_nextDay :
    (((Runs.exec (step Sample.serde) (.initial Sample.db [] 0) retryNextDay).createdFor
      "sale-1" 21).map Creation.time).length = 2 ∧
    (((Runs.exec (step Sample.serde) (.initial Sample.db [] 0) retryNextDay).createdFor
      "sale-1" 21).map Creation.time).Pairwise fun earlier later => earlier + window < later := by
  refine ⟨by decide +kernel, ?_⟩
  refine created_apart_of_genuineMiss Sample.serde Sample.db [] 0 ?_ "sale-1" 21 _
    (Runs.exec_mem_visited _ _)
  exact ⟨fun _ => by decide, trivial, trivial, trivial, trivial,
    fun _ => by decide +kernel, trivial, trivial, trivial⟩

end OpenAccounting.Retries
