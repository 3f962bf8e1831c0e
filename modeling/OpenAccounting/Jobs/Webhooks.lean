import OpenAccounting.Auth.CookieSigner
import OpenAccounting.Jobs.Queue
import OpenAccounting.Lib.IpAddr

/-!
# Webhooks

`jobs/events.rs` and `jobs/webhook_delivery.rs`, statement by statement.  An event goes to every
enabled subscription of the ledger that asks for its type: as a row of `webhook_deliveries` for the
attempt 0, and as a job.  `deliver` makes one request for the row of its job and records the answer.
After a failure it appends a row for the next attempt, which gets a job of its own.
-/

namespace OpenAccounting.Webhooks

open Commit Net Relational

def maxAttempts : ℕ := 5

/-- `webhook_subscriptions`. -/
structure Subscription where
  id : Uuid
  ledgerId : Uuid
  targetUrl : String
  secret : String
  events : List String
  isEnabled : Bool := true

/-- The columns of `webhook_deliveries` that are never updated. -/
structure Attempt where
  id : Uuid
  subscriptionId : Uuid
  eventId : Uuid
  attempt : ℕ
  createdAt : ℤ
deriving DecidableEq

/-- `webhook_deliveries`. -/
structure Delivery extends Attempt where
  eventType : String
  payload : String
  ok : Option Bool := none
  statusCode : Option ℤ := none
  durationMs : Option ℤ := none
  error : Option String := none

/-- The unique columns. -/
def Attempt.key (a : Attempt) : Uuid × Uuid × ℕ := (a.subscriptionId, a.eventId, a.attempt)

/-- `a` is the next attempt after `b`. -/
def Attempt.Follows (a b : Attempt) : Prop :=
  a.subscriptionId = b.subscriptionId ∧ a.eventId = b.eventId ∧ a.attempt = b.attempt + 1

instance (a b : Attempt) : Decidable (a.Follows b) := inferInstanceAs (Decidable (_ ∧ _))

/-- What the code takes from its libraries and from its environment. -/
structure Libraries where
  /-- The text of `{ "delivery_id": id }`. -/
  payload : Uuid → String
  /-- `payload_field` at `delivery_id`, with the text of its error. -/
  deliveryId : String → Except String Uuid
  deliveryId_payload : ∀ id, deliveryId (payload id) = .ok id
  /-- The variable `WEBHOOK_ALLOW_INSECURE_HTTP`. -/
  allowInsecureHttp : Option String
  /-- `parse::<reqwest::Url>()`, and the host if the URL has one. -/
  hostStr : String → Except String (Option String)
  /-- The text at `type` of a JSON object. -/
  eventType : String → Option String
  /-- The text of a database error. -/
  sqlMessage : SqlError → String

theorem Libraries.payload_inj {lib : Libraries} {id id' : Uuid}
    (h : lib.payload id = lib.payload id') : id = id' := by
  have hread := lib.deliveryId_payload id
  rw [h, lib.deliveryId_payload] at hread
  exact (Except.ok.inj hread).symm

/-! ## The request -/

def isPrivate172 (host : String) : Bool :=
  ((Ipv4Addr.parse host).map Ipv4Addr.isPrivate).getD false

def isIpv6Private (host : String) : Bool :=
  ((Ipv6Addr.parse host).map fun ip =>
    !ip.isLoopback && getElem ip.segments 0 Ipv6Addr.firstSegment &&& 0xfe00 == 0xfc00 ||
      ip.isLoopback).getD false

/-- The names and prefixes that `post_signed` takes for private. -/
def isPrivateHost (host : String) : Bool :=
  host == "localhost" || host == "0.0.0.0" || ".local".toList.isSuffixOf host.toList ||
    RustStr.startsWith "127." host || RustStr.startsWith "10." host ||
    RustStr.startsWith "192.168." host || RustStr.startsWith "169.254." host ||
    isPrivate172 host || isIpv6Private host

/-- Why `post_signed` makes no request. -/
def refusal (lib : Libraries) (url : String) : Option String :=
  let allowInsecure := lib.allowInsecureHttp == some "true" || lib.allowInsecureHttp == some "1"
  let localTestTarget := allowInsecure && RustStr.startsWith "http://127.0.0.1" url
  if !RustStr.startsWith "https://" url && !localTestTarget then some "target must be https"
  else
    match lib.hostStr url with
    | .error e => some e
    | .ok host =>
      if !localTestTarget && isPrivateHost (host.getD "") then
        some "target resolves to a private address"
      else none

def truncate (s : String) (max : ℕ) : String :=
  if RustStr.byteLen s.toList ≤ max then s else String.ofList (s.toList.take max)

/-- The request for a delivery. -/
structure Post where
  url : String
  contentType : String := "application/json"
  event : String
  delivery : Uuid
  signature : String
  body : String

/-- `post_signed`, with the requests that are sent.  The client may not be there, and the request is
answered with a status or the text of an error. -/
def postSigned (lib : Libraries) (client : Except String Unit) (delivery : Uuid)
    (send : Post → Except String ℕ) (url secret body : String) : Except String ℕ × List Post :=
  match refusal lib url with
  | some e => (.error e, [])
  | none =>
    match client with
    | .error e => (.error e, [])
    | .ok () =>
      let request : Post :=
        { url, delivery, body
          event := (lib.eventType body).getD ""
          signature :=
            "sha256=" ++ ByteCode.hexEncode (Cookies.hmac (ByteCode.utf8 secret) body) }
      ((send request).mapError fun e => truncate e 500, [request])

/-- The request has succeeded.  `post_signed` returns a status or the text of an error. -/
def succeeded : Except String ℕ → Bool
  | .ok code => 200 ≤ code && code < 300
  | .error _ => false

/-! ## The statements of `deliver` -/

/-- The row of a delivery, with its subscription if that is enabled. -/
def selectDelivery (subscriptions : List Subscription) (deliveries : List Delivery) (id : Uuid) :
    Option (Delivery × Subscription) :=
  ((innerJoin (fun d s => s.id = d.subscriptionId) deliveries subscriptions).filter fun r =>
    r.1.id = id ∧ r.2.isEnabled = true).head?

def Delivery.recorded (outcome : Except String ℕ) (elapsedMs : ℕ) (d : Delivery) : Delivery :=
  { d with
    ok := some (succeeded outcome)
    statusCode := outcome.toOption.map Nat.cast
    durationMs := some (min elapsedMs (2 ^ 31 - 1) : ℕ)
    error := match outcome with
      | .ok _ => none
      | .error e => some (truncate e 500) }

/-- The update after the request. -/
def recordAttempt (id : Uuid) (outcome : Except String ℕ) (elapsedMs : ℕ)
    (deliveries : List Delivery) : List Delivery :=
  updateWhere (fun d => d.id = id) (Delivery.recorded outcome elapsedMs) deliveries

/-- The unique indexes of `webhook_deliveries`. -/
def insertDelivery (deliveries : List Delivery) (row : Delivery) :
    Except SqlError (List Delivery) := do
  ensure (∀ d ∈ deliveries, d.id ≠ row.id) (.uniqueViolation "webhook_deliveries_pkey")
  ensure (∀ d ∈ deliveries, d.key ≠ row.key)
    (.uniqueViolation "webhook_deliveries_subscription_id_event_id_attempt_key")
  .ok (deliveries ++ [row])

/-- The row of the next attempt, with the id that is drawn. -/
def insertNext (deliveries : List Delivery) (deliveryId : Uuid) (nextAttempt : ℕ) (id : Uuid)
    (now : ℤ) : Except SqlError (List Delivery) :=
  match deliveries.find? fun d => d.id = deliveryId with
  | none => .error .rowNotFound
  | some d =>
    insertDelivery deliveries
      { id
        subscriptionId := d.subscriptionId
        eventId := d.eventId
        attempt := nextAttempt
        createdAt := now
        eventType := d.eventType
        payload := d.payload }

/-! ## The statements of `emit` -/

/-- An event, with the envelope that is sent. -/
structure Event where
  id : Uuid
  eventType : String
  payload : String

/-- The subscriptions that an event goes to. -/
def subscribers (subscriptions : List Subscription) (ledger : Uuid) (eventType : String) :
    List Uuid :=
  (subscriptions.filter fun s =>
    s.ledgerId = ledger ∧ s.isEnabled = true ∧ eventType ∈ s.events).map Subscription.id

/-- The row of the attempt 0, with the id that is drawn.  There is no id if the row was there. -/
def insertFirst (deliveries : List Delivery) (event : Event) (subscription id : Uuid) (now : ℤ) :
    Except SqlError (Option Uuid × List Delivery) :=
  let row : Delivery :=
    { id
      subscriptionId := subscription
      eventId := event.id
      attempt := 0
      createdAt := now
      eventType := event.eventType
      payload := event.payload }
  if ∃ d ∈ deliveries, d.key = row.key then .ok (none, deliveries)
  else do
    let deliveries ← insertDelivery deliveries row
    .ok (some id, deliveries)

/-- The update of the handler `toggle`. -/
def toggle (ledger id : Uuid) (subscriptions : List Subscription) : List Subscription :=
  updateWhere (fun s => s.id = id ∧ s.ledgerId = ledger)
    (fun s => { s with isEnabled := !s.isEnabled }) subscriptions

/-! ## What they do -/

section

variable {deliveries deliveries' : List Delivery} {row : Delivery} {id : Uuid}

theorem selectDelivery_eq_some {subscriptions : List Subscription} {d : Delivery} {s : Subscription}
    (h : selectDelivery subscriptions deliveries id = some (d, s)) : d ∈ deliveries ∧ d.id = id := by
  have hmem := List.mem_filter.mp (List.mem_of_mem_head? h)
  obtain ⟨a, ha, hjoined⟩ := List.mem_flatMap.mp hmem.1
  obtain ⟨b, -, heq⟩ := List.mem_map.mp hjoined
  cases heq
  exact ⟨ha, (of_decide_eq_true hmem.2).1⟩

theorem map_recordAttempt (id : Uuid) (outcome : Except String ℕ) (elapsedMs : ℕ)
    (deliveries : List Delivery) :
    (recordAttempt id outcome elapsedMs deliveries).map Delivery.toAttempt =
      deliveries.map Delivery.toAttempt := by
  have hkept : ∀ d : Delivery, (d.recorded outcome elapsedMs).toAttempt = d.toAttempt :=
    fun _ => rfl
  exact map_key_updateWhere hkept

theorem insertDelivery_eq_ok (h : insertDelivery deliveries row = .ok deliveries') :
    (∀ d ∈ deliveries, d.id ≠ row.id) ∧ (∀ d ∈ deliveries, d.key ≠ row.key) ∧
      deliveries' = deliveries ++ [row] := by
  simp only [insertDelivery, bind_eq_ok, ensure_eq_ok] at h
  obtain ⟨-, hid, -, hkey, h⟩ := h
  exact ⟨hid, hkey, (Except.ok.inj h).symm⟩

theorem insertNext_eq_ok {delivery : Uuid} {attempt : ℕ} {now : ℤ}
    (h : insertNext deliveries delivery attempt id now = .ok deliveries') :
    ∃ d ∈ deliveries, d.id = delivery ∧ ∃ row : Delivery, deliveries' = deliveries ++ [row] ∧
      row.toAttempt = ⟨id, d.subscriptionId, d.eventId, attempt, now⟩ ∧
      (∀ d ∈ deliveries, d.id ≠ id) ∧ ∀ d ∈ deliveries, d.key ≠ row.key := by
  rw [insertNext] at h
  cases hfind : deliveries.find? fun d => d.id = delivery with
  | none =>
    rw [hfind] at h
    cases h
  | some d =>
    rw [hfind] at h
    obtain ⟨hmem, hid⟩ := mem_of_find?_key hfind
    obtain ⟨hids, hkeys, rfl⟩ := insertDelivery_eq_ok h
    exact ⟨d, hmem, hid, _, rfl, rfl, hids, hkeys⟩

theorem insertFirst_eq_ok {event : Event} {subscription : Uuid} {now : ℤ} {new : Option Uuid}
    (h : insertFirst deliveries event subscription id now = .ok (new, deliveries')) :
    new = none ∧ deliveries' = deliveries ∨
      new = some id ∧ ∃ row : Delivery, deliveries' = deliveries ++ [row] ∧
        row.toAttempt = ⟨id, subscription, event.id, 0, now⟩ ∧
        (∀ d ∈ deliveries, d.id ≠ id) ∧ ∀ d ∈ deliveries, d.key ≠ row.key := by
  rw [insertFirst] at h
  split at h
  · cases h
    exact Or.inl ⟨rfl, rfl⟩
  · obtain ⟨rows, hinsert, hok⟩ := bind_eq_ok.mp h
    cases hok
    obtain ⟨hids, hkeys, rfl⟩ := insertDelivery_eq_ok hinsert
    exact Or.inr ⟨rfl, _, rfl, rfl, hids, hkeys⟩

end

end OpenAccounting.Webhooks
