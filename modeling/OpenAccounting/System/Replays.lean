import OpenAccounting.System.Retries

/-!
# What a replay answers

The requests of one token, one after the other, to the four endpoints of `Api.Call`, with
purges in between.  The log records every request with its answer, the newest first.

A replay is faithful when the response it returns was produced by an earlier request to the
same endpoint with the same path and the same body, that is, by the same `Api.Call`.  The
store is shared by the endpoints and recognises a request by the fingerprint alone, which
does not cover the endpoint or the path.  So replays are faithful in runs where a live key
comes back with the same fingerprinted value only for the same call
(`faithful_of_unambiguous`).
-/

namespace OpenAccounting.Replay

open Api

variable {Json : Type}

/-- A request with its answer. -/
structure Entry (Json : Type) where
  key : Option String
  call : Call Json
  answer : Answer
  /-- The clock when the response was stored. -/
  storedAt : ℤ
deriving DecidableEq

/-- The database and the log, newest entry first. -/
structure State (Json : Type) where
  db : Db
  table : List IdempotencyRow := []
  log : List (Entry Json) := []

/-- What happens next. -/
inductive Event (Json : Type) where
  | request (draw : Request) (storedAt : ℤ) (key : Option String) (call : Call Json)
  | purge (now : ℤ)

/-- The system takes a step. -/
def step (serde : Serde Json) (user token : Uuid) (s : State Json) : Event Json → State Json
  | .request draw storedAt key call =>
    let result := handle serde s.db s.table draw storedAt user token key call
    { db := result.2.1, table := result.2.2, log := ⟨key, call, result.1, storedAt⟩ :: s.log }
  | .purge now => { s with table := purgeExpiredIdempotency s.table now }

/-- The entry produced the response of this status, whose body the store keeps as `body`. -/
def Entry.Produced (e : Entry Json) (status : ℕ) (body : String) : Prop :=
  match e.answer with
  | .created status' text => status' = status ∧ cappedBody text = body
  | _ => False

instance (e : Entry Json) (status : ℕ) (body : String) : Decidable (e.Produced status body) := by
  unfold Entry.Produced
  cases e.answer <;> infer_instance

/-- A replay returns what an earlier entry of the same call produced. -/
def Entry.Backed (earlier : List (Entry Json)) (e : Entry Json) : Prop :=
  match e.answer with
  | .replayed status body => ∃ e' ∈ earlier, e'.call = e.call ∧ e'.Produced status body
  | _ => True

instance [DecidableEq Json] (earlier : List (Entry Json)) (e : Entry Json) :
    Decidable (e.Backed earlier) := by
  unfold Entry.Backed
  cases e.answer <;> infer_instance

/-- Every replay of the log is backed by what came before it. -/
def Faithful : List (Entry Json) → Prop
  | [] => True
  | e :: earlier => e.Backed earlier ∧ Faithful earlier

instance decidableFaithful [DecidableEq Json] : (log : List (Entry Json)) → Decidable (Faithful log)
  | [] => isTrue trivial
  | e :: earlier =>
    have := decidableFaithful earlier
    inferInstanceAs (Decidable (e.Backed earlier ∧ Faithful earlier))

/-- A key that produced a response within the window comes back with the same fingerprinted
value only for the same call. -/
def Unambiguous (serde : Serde Json) (s : State Json) : Event Json → Prop
  | .request draw _ (some key) call =>
    ∀ e ∈ s.log, e.key = some key → e.answer.isCreated → draw.now - window < e.storedAt →
      e.call.fingerprinted serde = call.fingerprinted serde → e.call = call
  | _ => True

instance [DecidableEq Json] (serde : Serde Json) (s : State Json) :
    (ev : Event Json) → Decidable (Unambiguous serde s ev)
  | .request draw _ (some key) call =>
    inferInstanceAs (Decidable (∀ e ∈ s.log, e.key = some key → e.answer.isCreated →
      draw.now - window < e.storedAt →
      e.call.fingerprinted serde = call.fingerprinted serde → e.call = call))
  | .request _ _ none _ => isTrue trivial
  | .purge _ => isTrue trivial

/-- The bytes that are hashed for a call. -/
def hashInput (serde : Serde Json) (call : Call Json) : List UInt8 :=
  ByteCode.utf8 (serde.toString (call.fingerprinted serde))

def callsOf : List (Event Json) → List (Call Json)
  | [] => []
  | .request _ _ _ call :: rest => call :: callsOf rest
  | .purge _ :: rest => callsOf rest

/-! ## The invariant -/

/-- The row holds the response of the entry. -/
structure StoredBy (serde : Serde Json) (row : IdempotencyRow) (e : Entry Json) : Prop where
  key : e.key = some row.key
  fingerprint : row.requestFingerprint = fingerprint serde (e.call.fingerprinted serde)
  status : row.responseStatus = 201
  produced : e.Produced 201 row.responseBody
  time : row.createdAt = e.storedAt

/-- Every row of the token was stored by an entry of the log, and the replays so far are
faithful. -/
structure Sound (serde : Serde Json) (token : Uuid) (calls : List (Call Json)) (s : State Json) :
    Prop where
  rows : ∀ row ∈ s.table, row.tokenId = token → ∃ e ∈ s.log, StoredBy serde row e
  calls : ∀ e ∈ s.log, e.call ∈ calls
  faithful : Faithful s.log

section Step

variable {serde : Serde Json} {user token : Uuid} {calls : List (Call Json)} {s : State Json}

theorem Entry.Produced.isCreated {e : Entry Json} {status : ℕ} {body : String}
    (h : e.Produced status body) : e.answer.isCreated := by
  rw [Entry.Produced] at h
  split at h
  · next hanswer =>
      rw [hanswer]
      rfl
  · cases h

theorem backed_of_ne {earlier : List (Entry Json)} {e : Entry Json}
    (h : ∀ status body, e.answer ≠ .replayed status body) : e.Backed earlier := by
  rw [Entry.Backed]
  split
  · next status body hanswer => exact absurd hanswer (h status body)
  · trivial

theorem fingerprinted_eq (hjson : Function.Injective serde.toString)
    (hsha : Set.InjOn Sha256.hash { b | b ∈ calls.map (hashInput serde) }) {c c' : Call Json}
    (hc : c ∈ calls) (hc' : c' ∈ calls)
    (h : fingerprint serde (c.fingerprinted serde) = fingerprint serde (c'.fingerprinted serde)) :
    c.fingerprinted serde = c'.fingerprinted serde := by
  have hhash := ByteCode.hexEncode_injective h
  have hbytes := hsha (List.mem_map_of_mem hc) (List.mem_map_of_mem hc') hhash
  exact hjson (ByteCode.utf8_injective hbytes)

/-- The invariant, for one unambiguous event. -/
theorem step_sound (hjson : Function.Injective serde.toString)
    (hsha : Set.InjOn Sha256.hash { b | b ∈ calls.map (hashInput serde) }) {ev : Event Json}
    (hs : Sound serde token calls s) (hun : Unambiguous serde s ev)
    (hcalls : ∀ c ∈ callsOf [ev], c ∈ calls) :
    Sound serde token calls (step serde user token s ev) := by
  obtain ⟨hrows, hlog, hfaithful⟩ := hs
  cases ev with
  | purge now =>
    refine ⟨?_, hlog, hfaithful⟩
    intro row hrow htoken
    exact hrows row (List.mem_of_mem_filter hrow) htoken
  | request draw storedAt key call =>
    have hcall : call ∈ calls := hcalls call (by simp [callsOf])
    have hcases := handle_cases serde s.db s.table draw storedAt user token key call
    simp only [step]
    generalize handle serde s.db s.table draw storedAt user token key call = result at hcases ⊢
    obtain ⟨answer, db, table⟩ := result
    have hlog' : ∀ e ∈ (⟨key, call, answer, storedAt⟩ :: s.log : List (Entry Json)),
        e.call ∈ calls := by
      intro e he
      rcases List.mem_cons.mp he with rfl | he
      · exact hcall
      · exact hlog e he
    -- A row that was there keeps its entry.
    have hkept : ∀ row ∈ s.table, row.tokenId = token →
        ∃ e ∈ (⟨key, call, answer, storedAt⟩ :: s.log : List (Entry Json)),
          StoredBy serde row e := by
      intro row hrow htoken
      obtain ⟨e, he, hstored⟩ := hrows row hrow htoken
      exact ⟨e, List.mem_cons_of_mem _ he, hstored⟩
    rcases hcases with ⟨k, body, rfl, rfl, rfl⟩ | ⟨k, status, body, rfl, hlookup, rfl, rfl⟩ |
      ⟨hanswer, rfl⟩
    · refine ⟨?_, hlog', ⟨?_, hfaithful⟩⟩
      · intro row hrow htoken
        rcases mem_idempotencyStore hrow with hrow | rfl
        · exact hkept row hrow htoken
        · exact ⟨_, List.mem_cons_self, rfl, rfl, rfl, ⟨rfl, rfl⟩, rfl⟩
      · exact trivial
    · obtain ⟨row, hrow, ⟨hkey, htoken⟩, hlive, hfp, rfl, rfl⟩ :=
        idempotencyLookup_eq_some hlookup
      obtain ⟨e, he, hstored⟩ := hrows row hrow htoken
      have hvalue : e.call.fingerprinted serde = call.fingerprinted serde :=
        fingerprinted_eq hjson hsha (hlog e he) hcall (hstored.fingerprint ▸ hfp)
      have hsame : e.call = call :=
        hun e he (by rw [hstored.key, hkey]) hstored.produced.isCreated (hstored.time ▸ hlive)
          hvalue
      refine ⟨hkept, hlog', ⟨?_, hfaithful⟩⟩
      rw [hstored.status]
      exact ⟨e, he, hsame, hstored.produced⟩
    · exact ⟨hkept, hlog', ⟨backed_of_ne hanswer, hfaithful⟩⟩

end Step

/-! ## Replays are faithful -/

theorem mem_callsOf {events : List (Event Json)} {ev : Event Json} (h : ev ∈ events) {c : Call Json}
    (hc : c ∈ callsOf [ev]) : c ∈ callsOf events := by
  induction events with
  | nil => cases h
  | cons first rest ih =>
    rcases List.mem_cons.mp h with rfl | hrest
    · cases ev with
      | request draw storedAt key call =>
        rw [callsOf] at hc ⊢
        exact List.mem_cons.mpr (Or.inl (List.mem_singleton.mp hc))
      | purge now => cases hc
    · cases first with
      | request draw storedAt key call => exact List.mem_cons_of_mem _ (ih hrest)
      | purge now => exact ih hrest

/-- In every run of a token whose keys are unambiguous, whatever is answered from the store
was produced by an earlier request to the same endpoint with the same path and body.  The
texts of JSON values tell the values apart, and SHA-256 has no collision among the texts of
the run. -/
theorem faithful_of_unambiguous {serde : Serde Json} (hjson : Function.Injective serde.toString)
    (user token : Uuid) (db : Db) {table : List IdempotencyRow}
    (htable : ∀ row ∈ table, row.tokenId ≠ token) {events : List (Event Json)}
    (hsha : Set.InjOn Sha256.hash { b | b ∈ (callsOf events).map (hashInput serde) })
    (hmeets : Runs.Meets (step serde user token) (Unambiguous serde)
      { db := db, table := table } events) :
    ∀ s ∈ Runs.visited (step serde user token) { db := db, table := table } events,
      Faithful s.log := by
  intro s hs
  have hinit : Sound serde token (callsOf events) { db := db, table := table } :=
    ⟨fun row hrow htoken => absurd htoken (htable row hrow), by simp, trivial⟩
  have hmeets := hmeets.and_forall (Q := fun ev => ∀ c ∈ callsOf [ev], c ∈ callsOf events)
    fun ev hev c hc => mem_callsOf hev hc
  have hsound := Runs.invariant_of_meets (P := Sound serde token (callsOf events))
    (fun _ _ hs h => step_sound hjson hsha hs h.1 h.2) hinit hmeets s hs
  exact hsound.faithful

/-- Two sales without a key. -/
def twoSales : List (Event String) :=
  [.request (Sample.request 1) 1 none (.createTransaction Sample.ledgerId Sample.saleText),
    .request (Sample.request 2) 2 none (.createTransaction Sample.ledgerId Sample.saleText)]

/-- Both are reversed, with one key. -/
def reusedKey : List (Event String) :=
  twoSales ++
    [.request (Sample.request 3) 3 (some "r-1")
        (.reverse Sample.ledgerId ((Sample.request 1).txnId 0)),
      .request (Sample.request 4) 4 (some "r-1")
        (.reverse Sample.ledgerId ((Sample.request 2).txnId 0))]

/-- The second reversal is answered with the first one's response, and it is not carried
out. -/
theorem reusedKey_not_faithful :
    ¬ Faithful (Runs.exec (step Sample.serde Sample.owner 21) { db := Sample.db } reusedKey).log ∧
      (Runs.exec (step Sample.serde Sample.owner 21) { db := Sample.db }
          reusedKey).db.books.transactions.length = 3 := by
  decide +kernel

/-- One reversal is sent twice with its key, and the other with a key of its own. -/
def ownKeys : List (Event String) :=
  twoSales ++
    [.request (Sample.request 3) 3 (some "r-1")
        (.reverse Sample.ledgerId ((Sample.request 1).txnId 0)),
      .request (Sample.request 4) 4 (some "r-1")
        (.reverse Sample.ledgerId ((Sample.request 1).txnId 0)),
      .request (Sample.request 5) 5 (some "r-2")
        (.reverse Sample.ledgerId ((Sample.request 2).txnId 0))]

theorem faithful_of_unambiguous_ownKeys :
    Faithful
      (Runs.exec (step Sample.serde Sample.owner 21) { db := Sample.db } ownKeys).log := by
  refine faithful_of_unambiguous (fun _ _ h => h) Sample.owner 21 Sample.db (by simp) ?_ ?_ _
    (Runs.exec_mem_visited _ _)
  · exact Sha256.injOn_mem (by decide +kernel)
  · exact ⟨trivial, trivial, by decide +kernel, by decide +kernel, by decide +kernel, trivial⟩

end OpenAccounting.Replay
