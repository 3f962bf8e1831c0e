import OpenAccounting.Lib.Threads
import OpenAccounting.System.JournalOps
import OpenAccounting.Workers.Sync

/-!
# Overlapping bank-feed syncs

Any number of syncs run at once: passes of the worker over all active links, and syncs of one
link that a user or a webhook has triggered.  A sync reads the link, asks the provider, and then
checks and imports one transaction after another; the cursor comes last.  Any of its statements
may fail, and a sync that is never scheduled again has crashed.

A provider is taken to keep a log of its transactions that only grows, and a cursor is a position
in it.  `importsOnce` says that no interleaving imports a transaction twice, and that everything
up to the stored cursor has been imported.
-/

namespace OpenAccounting.Sync

open Commit

/-! ## The provider -/

/-- How far in its log each cursor of a link reaches. -/
structure Feed where
  position : Uuid → Option String → ℕ
  position_none : ∀ link, position link none = 0

/-- An answer to a fetch from `cursor`.  It has every transaction after the cursor, in any order
and with others besides, and the new cursor stays within the log. -/
def Feed.Answers (feed : Feed) (link : Uuid) (log : List RemoteTransaction)
    (cursor : Option String) (answer : Fetched) : Prop :=
  (∀ t ∈ log.drop (feed.position link cursor), t ∈ answer.1) ∧
    feed.position link answer.2 ≤ log.length

instance (feed : Feed) (link : Uuid) (log : List RemoteTransaction) (cursor : Option String)
    (answer : Fetched) : Decidable (feed.Answers link log cursor answer) :=
  inferInstanceAs (Decidable (_ ∧ _))

/-! ## The threads -/

/-- The database, and what the provider has for each link. -/
structure Shared where
  db : Db
  log : Uuid → List RemoteTransaction

/-- Who has called `sync_one`: the worker, with the links it still has to visit, or
`run_for_link` and `sync_link`, with none. -/
inductive Caller where
  | runOnce (links : List BankFeedLink)
  | single
deriving DecidableEq

/-- Where a sync is. -/
inductive Place where
  | idle
  /-- The link has been read. -/
  | ready (caller : Caller) (link : BankFeedLink)
  /-- In the loop, before the `n`-th transaction. -/
  | importing (caller : Caller) (link : BankFeedLink) (n : ℕ) (cursor : Option String)
      (txns : List RemoteTransaction)
  /-- The `n`-th transaction had not been imported when it was looked up. -/
  | absent (caller : Caller) (link : BankFeedLink) (n : ℕ) (cursor : Option String)
      (t : RemoteTransaction) (txns : List RemoteTransaction)
  /-- The cursor has been written. -/
  | synced (caller : Caller) (link : BankFeedLink)
  /-- `sync_one` has failed in `run_once`. -/
  | failed (links : List BankFeedLink) (link : BankFeedLink)
deriving DecidableEq

/-- One access to the database or to the provider. -/
inductive Action where
  /-- The provider has one more transaction. -/
  | publish (link : Uuid) (t : RemoteTransaction)
  /-- `link_submit`, with the row that it inserts. -/
  | create (link : BankFeedLink)
  /-- `unlink`. -/
  | unlink (link : Uuid)
  | runOnce
  | runForLink (link : Uuid)
  | fetch (answer : Fetched)
  | check
  | insert (req : Request)
  | update
  | next
  | markError (message : String)
  /-- The statement that is due fails, or the one before has been executed and its answer is
  lost. -/
  | fail

/-- What follows a link. -/
def Caller.next : Caller → Place
  | .runOnce [] => .idle
  | .runOnce (link :: links) => .ready (.runOnce links) link
  | .single => .idle

/-- What follows a link whose sync has failed. -/
def Caller.failed (link : BankFeedLink) : Caller → Place
  | .runOnce links => .failed links link
  | .single => .idle

/-- The insert of `link_submit`. -/
def createLink (db : Db) (link : BankFeedLink) : Db :=
  if ∀ l ∈ db.bankFeedLinks, l.id ≠ link.id then
    { db with bankFeedLinks :=
        db.bankFeedLinks ++ [{ link with status := .active, cursor := none, errorMessage := none }] }
  else db

/-- The update of `unlink`. -/
def disconnect (db : Db) (link : Uuid) : Db :=
  { db with
    bankFeedLinks := db.bankFeedLinks.map fun l =>
      if l.id = link then { l with status := .disconnected } else l }

def act (feed : Feed) (_ : ℕ) (s : Shared) : Place → Action → Shared × Place
  | .idle, .publish link t =>
    ({ s with log := Function.update s.log link (s.log link ++ [t]) }, .idle)
  | .idle, .create link => ({ s with db := createLink s.db link }, .idle)
  | .idle, .unlink link => ({ s with db := disconnect s.db link }, .idle)
  | .idle, .runOnce =>
    (s, (Caller.runOnce (s.db.bankFeedLinks.filter fun l => l.status = .active)).next)
  | .idle, .runForLink link =>
    match s.db.bankFeedLinks.find? (·.id = link) with
    | some link => (s, .ready .single link)
    | none => (s, .idle)
  | .ready caller link, .fetch answer =>
    if feed.Answers link.id (s.log link.id) link.cursor answer then
      (s, .importing caller link 0 answer.2 answer.1)
    else (s, .ready caller link)
  | .importing caller link n cursor (t :: txns), .check =>
    if Imported s.db link.id t.providerTxnId then (s, .importing caller link (n + 1) cursor txns)
    else (s, .absent caller link n cursor t txns)
  | .absent caller link n cursor t txns, .insert req =>
    match insertRemote s.db req n link t with
    | .ok db => ({ s with db := db }, .importing caller link (n + 1) cursor txns)
    | .error _ => (s, caller.failed link)
  | .importing caller link _ cursor [], .update =>
    ({ s with db := updateCursor s.db link.id cursor }, .synced caller link)
  | .synced caller _, .next => (s, caller.next)
  | .failed links link, .markError message =>
    ({ s with db := markError s.db link.id message }, (Caller.runOnce links).next)
  | .ready caller link, .fail => (s, caller.failed link)
  | .importing caller link _ _ _, .fail => (s, caller.failed link)
  | .absent caller link _ _ _ _, .fail => (s, caller.failed link)
  | .synced caller link, .fail => (s, caller.failed link)
  -- `let _ =`: the mark may fail too.
  | .failed links _, .fail => (s, (Caller.runOnce links).next)
  | place, _ => (s, place)

abbrev State : Type := Threads.State ℕ Shared Place

def step (feed : Feed) (s : State) (m : ℕ × Action) : State :=
  Threads.step (act feed) s m

/-! ## A sync that is alone -/

/-- The statements of the loop and of what follows it. -/
def loopScript (req : Request) : List RemoteTransaction → List Action
  | [] => [.update, .next]
  | _ :: txns => .check :: .insert req :: loopScript req txns

section

variable {feed : Feed} {req : Request} {link : BankFeedLink}

theorem loopScript_idle (i : ℕ) (s : Shared) (txns : List RemoteTransaction) :
    (loopScript req txns).foldl (fun c a => act feed i c.1 c.2 a) (s, .idle) = (s, .idle) := by
  induction txns with
  | nil => rfl
  | cons t txns ih => exact ih

theorem loopScript_importing (i : ℕ) (cursor : Option String) (txns : List RemoteTransaction) :
    ∀ (s : Shared) (n : ℕ),
      (loopScript req txns).foldl (fun c a => act feed i c.1 c.2 a)
          (s, .importing .single link n cursor txns) =
        ({ s with db := (andThen (importAll req link n s.db txns) fun _ db =>
            ((.ok () : Except BankFeedError Unit), updateCursor db link.id cursor)).2 }, .idle) := by
  induction txns with
  | nil =>
    intro s n
    rfl
  | cons t txns ih =>
    intro s n
    rw [loopScript, importAll, importTransaction]
    by_cases himported : Imported s.db link.id t.providerTxnId
    · -- The insert is not due: it leaves the loop where it is.
      simp only [List.foldl_cons, act, if_pos himported]
      cases txns <;> exact ih s (n + 1)
    · simp only [List.foldl_cons, act, if_neg himported]
      cases hinsert : insertRemote s.db req n link t with
      | error e => exact loopScript_idle i s txns
      | ok db => exact ih { s with db := db } (n + 1)

/-- A sync whose statements are not interleaved with those of others is `sync_one`. -/
theorem syncOne_alone (i : ℕ) (s : Shared) {answer : Fetched}
    (h : feed.Answers link.id (s.log link.id) link.cursor answer) :
    (.fetch answer :: loopScript req answer.1).foldl (fun c a => act feed i c.1 c.2 a)
        (s, .ready .single link) =
      ({ s with db := (syncOne s.db req link (.ok answer)).2 }, .idle) := by
  have hfetch : act feed i s (.ready .single link) (.fetch answer) =
      (s, .importing .single link 0 answer.2 answer.1) := if_pos h
  rw [List.foldl_cons, hfetch]
  exact loopScript_importing i answer.2 answer.1 s 0

end

/-! ## What a sync knows -/

/-- The cursor is in the log, and everything up to it has been imported but for `txns`. -/
def ImportedUpTo (feed : Feed) (s : Shared) (link : Uuid) (cursor : Option String)
    (txns : List RemoteTransaction) : Prop :=
  feed.position link cursor ≤ (s.log link).length ∧
    ∀ t ∈ (s.log link).take (feed.position link cursor),
      t ∈ txns ∨ Imported s.db link t.providerTxnId

/-- The worker has read the links when their cursors were right. -/
def Caller.Knows (feed : Feed) (s : Shared) : Caller → Prop
  | .runOnce links => ∀ l ∈ links, ImportedUpTo feed s l.id l.cursor []
  | .single => True

/-- The assertion of each place.  The cursor that the provider has answered is right once the
transactions that are left have been imported. -/
def Known (feed : Feed) (s : Shared) : Place → Prop
  | .idle => True
  | .ready caller link => caller.Knows feed s ∧ ImportedUpTo feed s link.id link.cursor []
  | .importing caller link _ cursor txns => caller.Knows feed s ∧ ImportedUpTo feed s link.id cursor txns
  | .absent caller link _ cursor t txns =>
    caller.Knows feed s ∧ ImportedUpTo feed s link.id cursor (t :: txns)
  | .synced caller _ => caller.Knows feed s
  | .failed links _ => Caller.Knows feed s (.runOnce links)

def recordsOf (db : Db) (link : Uuid) (providerTxnId : String) : List BankFeedTransaction :=
  db.bankFeedTransactions.filter fun r => r.linkId = link ∧ r.providerTxnId = providerTxnId

/-- The transactions that the syncs have imported. -/
def importedTxns (db : Db) : List Uuid :=
  db.bankFeedTransactions.filterMap (·.transactionId)

/-- A provider transaction has one record at most, the transactions besides `before` are those of
the records, and the cursors are right. -/
structure Kept (feed : Feed) (before : List Uuid) (s : Shared) : Prop where
  once : ∀ link id, (recordsOf s.db link id).length ≤ 1
  recorded : ∀ r ∈ s.db.bankFeedTransactions, r.transactionId.isSome
  entries : s.db.books.txnIds = before ++ importedTxns s.db
  covered : ∀ l ∈ s.db.bankFeedLinks, ImportedUpTo feed s l.id l.cursor []

/-- Nothing is taken from the log, and no record is deleted. -/
structure Grows (s s' : Shared) : Prop where
  log : ∀ link, s.log link <+: s'.log link
  imported : ∀ link id, Imported s.db link id → Imported s'.db link id

section

variable {feed : Feed} {before : List Uuid} {s s' : Shared} {link : Uuid} {cursor : Option String}
  {txns : List RemoteTransaction} {caller : Caller}

theorem ImportedUpTo.grows (h : ImportedUpTo feed s link cursor txns) (hgrows : Grows s s') :
    ImportedUpTo feed s' link cursor txns := by
  obtain ⟨rest, hlog⟩ := hgrows.log link
  refine ⟨?_, fun t ht => ?_⟩
  · rw [← hlog, List.length_append]
    exact h.1.trans (Nat.le_add_right _ _)
  · rw [← hlog, List.take_append_of_le_length h.1] at ht
    exact (h.2 t ht).imp_right (hgrows.imported link t.providerTxnId)

theorem Caller.Knows.grows (h : caller.Knows feed s) (hgrows : Grows s s') :
    caller.Knows feed s' := by
  cases caller with
  | runOnce links => exact fun l hl => (h l hl).grows hgrows
  | single => trivial

theorem Known.grows {place : Place} (h : Known feed s place) (hgrows : Grows s s') :
    Known feed s' place := by
  cases place with
  | idle => trivial
  | ready | importing | absent => exact ⟨h.1.grows hgrows, h.2.grows hgrows⟩
  | synced caller _ =>
    have hrest : caller.Knows feed s := h
    exact hrest.grows hgrows
  | failed links _ =>
    have hrest : Caller.Knows feed s (.runOnce links) := h
    exact hrest.grows hgrows

theorem Caller.Knows.next (h : caller.Knows feed s) : Known feed s caller.next := by
  cases caller with
  | runOnce links =>
    cases links with
    | nil => trivial
    | cons l links =>
      exact ⟨fun k hk => h k (List.mem_cons_of_mem _ hk), h l List.mem_cons_self⟩
  | single => trivial

theorem Caller.Knows.failed (h : caller.Knows feed s) (link : BankFeedLink) :
    Known feed s (caller.failed link) := by
  cases caller with
  | runOnce links => exact h
  | single => trivial

theorem ImportedUpTo.drop {t : RemoteTransaction}
    (h : ImportedUpTo feed s link cursor (t :: txns))
    (ht : Imported s.db link t.providerTxnId) : ImportedUpTo feed s link cursor txns := by
  refine ⟨h.1, fun u hu => ?_⟩
  rcases h.2 u hu with hmem | himported
  · rcases List.mem_cons.mp hmem with rfl | hmem
    · exact Or.inr ht
    · exact Or.inl hmem
  · exact Or.inr himported

theorem ImportedUpTo.answers {answer : Fetched} (h : ImportedUpTo feed s link cursor [])
    (hanswer : feed.Answers link (s.log link) cursor answer) :
    ImportedUpTo feed s link answer.2 answer.1 := by
  refine ⟨hanswer.2, fun t ht => ?_⟩
  have hlog : t ∈ (s.log link).take (feed.position link cursor) ++
      (s.log link).drop (feed.position link cursor) := by
    rw [List.take_append_drop]
    exact List.mem_of_mem_take ht
  rcases List.mem_append.mp hlog with hold | hnew
  · exact Or.inr ((h.2 t hold).resolve_left List.not_mem_nil)
  · exact Or.inl (hanswer.1 t hnew)

end

/-! ## What an action does -/

/-- What an action of a sync at `place` leads to. -/
inductive Acts (feed : Feed) (s : Shared) (place : Place) : Shared × Place → Prop where
  /-- Nothing is written. -/
  | moves {place' : Place} (known : Known feed s place') : Acts feed s place (s, place')
  | publishes (link : Uuid) (t : RemoteTransaction) :
      Acts feed s place
        ({ s with log := Function.update s.log link (s.log link ++ [t]) }, .idle)
  /-- The links are written, with cursors that are right. -/
  | relinks {place' : Place} (links : List BankFeedLink)
      (covered : ∀ l ∈ links, ImportedUpTo feed s l.id l.cursor [])
      (known : Known feed s place') :
      Acts feed s place ({ s with db := { s.db with bankFeedLinks := links } }, place')
  | imports {caller : Caller} {link : BankFeedLink} {n : ℕ} {cursor : Option String}
      {t : RemoteTransaction} {txns : List RemoteTransaction} {req : Request} {db : Db}
      (isPlace : place = .absent caller link n cursor t txns)
      (commit : insertRemote s.db req n link t = .ok db) :
      Acts feed s place ({ s with db := db }, .importing caller link (n + 1) cursor txns)

section

variable {feed : Feed} {before : List Uuid} {s : Shared} {place : Place}

/-- A link whose row is rewritten keeps its cursor or takes one that is right. -/
theorem covered_map {f : BankFeedLink → BankFeedLink} (h : Kept feed before s)
    (hf : ∀ l ∈ s.db.bankFeedLinks,
      f l = { l with status := (f l).status, errorMessage := (f l).errorMessage } ∨
        ImportedUpTo feed s (f l).id (f l).cursor []) :
    ∀ l ∈ s.db.bankFeedLinks.map f, ImportedUpTo feed s l.id l.cursor [] := by
  intro l hl
  obtain ⟨k, hk, rfl⟩ := List.mem_map.mp hl
  rcases hf k hk with hsame | hright
  · rw [hsame]
    exact h.covered k hk
  · exact hright

theorem createLink_acts (h : Kept feed before s) (link : BankFeedLink) :
    Acts feed s place ({ s with db := createLink s.db link }, .idle) := by
  rw [createLink]
  split
  · refine .relinks _ (fun l hl => ?_) trivial
    rcases List.mem_append.mp hl with hl | hl
    · exact h.covered l hl
    · rw [List.mem_singleton.mp hl]
      simp [ImportedUpTo, feed.position_none]
  · exact .moves trivial

/-- Every action of a sync has one of these outcomes. -/
theorem act_acts (h : Kept feed before s) (hknown : Known feed s place) (n : ℕ) (a : Action) :
    Acts feed s place (act feed n s place a) := by
  cases place with
  | idle =>
    cases a with
    | publish link t => exact .publishes link t
    | create link => exact createLink_acts h link
    | unlink link =>
      refine .relinks _ (covered_map h fun l _ => ?_) trivial
      left
      split <;> rfl
    | runOnce =>
      refine .moves (Caller.Knows.next fun l hl => ?_)
      exact h.covered l (List.mem_of_mem_filter hl)
    | runForLink link =>
      rw [act]
      split
      · next link hfind =>
          exact .moves ⟨trivial, h.covered link (List.mem_of_find?_eq_some hfind)⟩
      · exact .moves trivial
    | fetch | check | insert | update | next | markError | fail => exact .moves trivial
  | ready caller link =>
    cases a with
    | fetch answer =>
      rw [act]
      split
      · next hanswer => exact .moves ⟨hknown.1, hknown.2.answers hanswer⟩
      · exact .moves hknown
    | fail => exact .moves (hknown.1.failed link)
    | publish | create | unlink | runOnce | runForLink | check | insert | update | next
    | markError => exact .moves hknown
  | importing caller link n cursor txns =>
    cases txns with
    | nil =>
      cases a with
      | update =>
        refine .relinks _ (covered_map h fun l _ => ?_) hknown.1
        split
        · next hid =>
            right
            rw [hid]
            exact hknown.2
        · exact Or.inl rfl
      | fail => exact .moves (hknown.1.failed link)
      | publish | create | unlink | runOnce | runForLink | fetch | check | insert | next
      | markError => exact .moves hknown
    | cons t txns =>
      cases a with
      | check =>
        rw [act]
        split
        · next himported => exact .moves ⟨hknown.1, hknown.2.drop himported⟩
        · exact .moves hknown
      | fail => exact .moves (hknown.1.failed link)
      | publish | create | unlink | runOnce | runForLink | fetch | insert | update | next
      | markError => exact .moves hknown
  | absent caller link n cursor t txns =>
    cases a with
    | insert req =>
      rw [act]
      split
      · next db hinsert => exact .imports rfl hinsert
      · exact .moves (hknown.1.failed link)
    | fail => exact .moves (hknown.1.failed link)
    | publish | create | unlink | runOnce | runForLink | fetch | check | update | next
    | markError => exact .moves hknown
  | synced caller link =>
    cases a with
    | next => exact .moves (Caller.Knows.next hknown)
    | fail => exact .moves (Caller.Knows.failed hknown link)
    | publish | create | unlink | runOnce | runForLink | fetch | check | insert | update
    | markError => exact .moves hknown
  | failed links link =>
    cases a with
    | markError message =>
      have hrest : Caller.Knows feed s (.runOnce links) := hknown
      refine .relinks _ (covered_map h fun l _ => ?_) hrest.next
      left
      split <;> rfl
    | fail =>
      have hrest : Caller.Knows feed s (.runOnce links) := hknown
      exact .moves hrest.next
    | publish | create | unlink | runOnce | runForLink | fetch | check | insert | update
    | next => exact .moves hknown

/-- Only an import adds a record, and it is the first of its provider transaction. -/
theorem imports_kept {req : Request} {n : ℕ} {link : BankFeedLink} {t : RemoteTransaction}
    {db : Db} (h : Kept feed before s) (hinsert : insertRemote s.db req n link t = .ok db) :
    Grows s { s with db := db } ∧ Imported db link.id t.providerTxnId ∧
      Kept feed before { s with db := db } := by
  obtain ⟨row, ps, hwrote⟩ := insertRemote_spec hinsert
  have hgrows : Grows s { s with db := db } := by
    refine ⟨fun _ => List.prefix_rfl, fun link id himported => ?_⟩
    obtain ⟨r, hr, hkey⟩ := himported
    refine ⟨r, ?_, hkey⟩
    show r ∈ db.bankFeedTransactions
    rw [hwrote.records]
    exact List.mem_append_left _ hr
  have hnew : Imported db link.id t.providerTxnId := by
    refine ⟨remoteRecord req n link t, ?_, rfl, rfl⟩
    rw [hwrote.records]
    exact List.mem_append_right _ List.mem_cons_self
  refine ⟨hgrows, hnew, fun k id => ?_, fun r hr => ?_, ?_, fun l hl => ?_⟩
  · show (recordsOf db k id).length ≤ 1
    rw [recordsOf, hwrote.records, List.filter_append]
    by_cases hkey : link.id = k ∧ t.providerTxnId = id
    · -- Nothing had this key before.
      obtain ⟨rfl, rfl⟩ := hkey
      have hold : s.db.bankFeedTransactions.filter
          (fun r => r.linkId = link.id ∧ r.providerTxnId = t.providerTxnId) = [] := by
        rw [List.filter_eq_nil_iff]
        intro r hr hsame
        exact hwrote.first ⟨r, hr, by simpa using hsame⟩
      rw [hold, List.nil_append]
      exact List.length_filter_le _ _
    · have hother : [remoteRecord req n link t].filter
          (fun r => r.linkId = k ∧ r.providerTxnId = id) = [] := by
        simpa [remoteRecord] using hkey
      rw [hother, List.append_nil]
      exact h.once k id
  · have hr : r ∈ db.bankFeedTransactions := hr
    rw [hwrote.records] at hr
    rcases List.mem_append.mp hr with hr | hr
    · exact h.recorded r hr
    · rw [List.mem_singleton.mp hr]
      rfl
  · show db.books.txnIds = before ++ importedTxns db
    rw [hwrote.posts.txnIds, hwrote.row_id, h.entries, importedTxns, importedTxns, hwrote.records,
      List.filterMap_append, List.append_assoc]
    rfl
  · rw [hwrote.links] at hl
    exact (h.covered l hl).grows hgrows

theorem Acts.grows {r : Shared × Place} (h : Kept feed before s) (hacts : Acts feed s place r) :
    Grows s r.1 := by
  cases hacts with
  | moves => exact ⟨fun _ => List.prefix_rfl, fun _ _ => id⟩
  | publishes link t =>
    refine ⟨fun k => ?_, fun _ _ => id⟩
    by_cases hk : k = link
    · subst hk
      simp
    · simp [hk]
  | relinks => exact ⟨fun _ => List.prefix_rfl, fun _ _ => id⟩
  | imports _ hinsert => exact (imports_kept h hinsert).1

theorem Acts.kept {r : Shared × Place} (h : Kept feed before s) (hacts : Acts feed s place r) :
    Kept feed before r.1 := by
  have hgrows := hacts.grows h
  cases hacts with
  | moves => exact h
  | publishes link t => exact ⟨h.once, h.recorded, h.entries, fun l hl => (h.covered l hl).grows hgrows⟩
  | relinks links covered => exact ⟨h.once, h.recorded, h.entries, covered⟩
  | imports _ hinsert => exact (imports_kept h hinsert).2.2

theorem Acts.known {r : Shared × Place} (h : Kept feed before s) (hknown : Known feed s place)
    (hacts : Acts feed s place r) : Known feed r.1 r.2 := by
  have hgrows := hacts.grows h
  cases hacts with
  | moves known => exact known
  | publishes => trivial
  | relinks _ _ known => exact known.grows hgrows
  | imports isPlace hinsert =>
    subst isPlace
    obtain ⟨-, hnew, -⟩ := imports_kept h hinsert
    have hleft := hknown.grows hgrows
    exact ⟨hleft.1, hleft.2.drop hnew⟩

end

/-- Every sync knows that the cursor it is about to write is right once it gets there, and no other
sync takes that away. -/
theorem outline (feed : Feed) (before : List Uuid) :
    Threads.Outline (act feed) (fun _ _ => True) (Kept feed before)
      (fun _ place s => Known feed s place) where
  sequential {_ n a} hs _ :=
    have hacts := act_acts hs.inv (hs.places n) n a
    ⟨hacts.kept hs.inv, hacts.known hs.inv (hs.places n)⟩
  stable {_ n m a} hs _ _ :=
    (hs.places m).grows ((act_acts hs.inv (hs.places n) n a).grows hs.inv)

/-! ## Runs -/

/-- No sync is under way, and there are no links yet. -/
structure Fresh (s : State) : Prop where
  idle : ∀ n, s.place n = .idle
  no_links : s.shared.db.bankFeedLinks = []
  no_records : s.shared.db.bankFeedTransactions = []

/-- A provider transaction has one record at most, and each record has a transaction of its own.
The transactions besides `before` are those of the records.  Every provider transaction at or
before the stored cursor has a record. -/
structure ExactlyOnce (feed : Feed) (before : List Uuid) (s : Shared) : Prop where
  once : ∀ link id, (recordsOf s.db link id).length ≤ 1
  recorded : ∀ r ∈ s.db.bankFeedTransactions, r.transactionId.isSome
  distinct : (importedTxns s.db).Nodup
  entries : s.db.books.txnIds = before ++ importedTxns s.db
  imported : ∀ l ∈ s.db.bankFeedLinks,
    ∀ t ∈ (s.log l.id).take (feed.position l.id l.cursor), Imported s.db l.id t.providerTxnId

theorem Kept.exactlyOnce {feed : Feed} {before : List Uuid} {s : Shared}
    (h : Kept feed before s) : ExactlyOnce feed before s where
  once := h.once
  recorded := h.recorded
  distinct := by
    have hids : s.db.books.txnIds.Nodup := s.db.books.txn_ids_nodup
    rw [h.entries] at hids
    exact (List.nodup_append.mp hids).2.1
  entries := h.entries
  imported l hl t ht := ((h.covered l hl).2 t ht).resolve_left List.not_mem_nil

theorem Fresh.holds {feed : Feed} {s : State} (h : Fresh s) :
    Threads.Holds (Kept feed s.shared.db.books.txnIds) (fun _ place s => Known feed s place) s where
  inv := by
    refine ⟨fun link id => ?_, fun r hr => ?_, ?_, fun l hl => ?_⟩
    · simp [recordsOf, h.no_records]
    · simp [h.no_records] at hr
    · simp [importedTxns, h.no_records]
    · simp [h.no_links] at hl
  places n := by
    rw [h.idle n]
    trivial

/-- In every state of every interleaving of syncs each provider transaction has been imported once
at most, and none at or before the stored cursor has been skipped. -/
theorem importsOnce (feed : Feed) {s : State} (h : Fresh s) (actions : List (ℕ × Action)) :
    ∀ s' ∈ Runs.visited (step feed) s actions,
      ExactlyOnce feed s.shared.db.books.txnIds s'.shared :=
  fun s' hmem =>
    ((outline feed _).holds h.holds (Runs.meets_of_forall fun _ _ => trivial) s' hmem).inv.exactlyOnce

namespace Sample

open OpenAccounting.Sample

def bank : Uuid := 50

/-- A provider whose cursors are as long as what they cover. -/
def feed : Feed where
  position _ cursor := (cursor.getD "").length
  position_none _ := rfl

def transfer (id : String) : RemoteTransaction where
  providerTxnId := id
  date := march 3
  amount := 25
  description := "Transfer"

def start : State where
  shared := { db := OpenAccounting.Sample.db, log := fun _ => [] }
  place _ := .idle

/-- The worker and a webhook sync the same link.  Both find the first transfer missing, and the
webhook's insert is refused. -/
def crossed : List (ℕ × Action) :=
  let answer : Fetched := ([transfer "a", transfer "b"], some "||")
  [(0, .create { id := bank, ledgerId := ledgerId, accountIdInLedger := some cash }),
    (0, .publish bank (transfer "a")), (0, .publish bank (transfer "b")), (0, .runOnce),
    (1, .runForLink bank), (0, .fetch answer), (1, .fetch answer), (0, .check), (1, .check),
    (0, .insert (request 1)), (1, .insert (request 2)), (0, .check), (0, .insert (request 1)),
    (0, .update), (0, .next)]

theorem start_fresh : Fresh start := ⟨fun _ => rfl, rfl, rfl⟩

end Sample

theorem importsOnce_crossed :
    ExactlyOnce Sample.feed []
        (Runs.exec (step Sample.feed) Sample.start Sample.crossed).shared ∧
      importedTxns (Runs.exec (step Sample.feed) Sample.start Sample.crossed).shared.db =
        [1000, 1001] :=
  ⟨importsOnce Sample.feed Sample.start_fresh Sample.crossed _ (Runs.exec_mem_visited _ _),
    by decide +kernel⟩

end OpenAccounting.Sync
