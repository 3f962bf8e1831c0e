import OpenAccounting.Audit.Chain
import OpenAccounting.Lib.Runs

/-!
# The audit trail

Three things are asked of the audit chain: that the bytes of a row determine the row, that the
chain verifies however calls of `audit::log` interleave, and that it no longer verifies once a row
has been tampered with.

A call reads the clock before it takes the lock, while the chain is ordered by that
reading and by a random id.  So a call that overtakes another, or draws a smaller id
within the same microsecond, leaves a chain that does not verify.  When every append
comes last in the order, every state verifies.

The walk never recomputes the hash of the first row.  The content of every other row
is protected.
-/

namespace OpenAccounting.AuditTrail

open ByteCode Calendar Chain

variable {Value : Type}

/-! ## The bytes of a row -/

/-- Rows are encoded differently unless they agree in every column, and no encoding is continued by
another one. -/
theorem canonicalBytes_inj_and_prefix_free {toVec : Value → Vec} (hjson : Function.Injective toVec)
    (c c' : Content Value) :
    (canonicalBytes toVec c = canonicalBytes toVec c' →
      c.ledgerId = c'.ledgerId ∧ c.actorId = c'.actorId ∧ c.action = c'.action ∧
        c.entityType = c'.entityType ∧ c.entityId = c'.entityId ∧ c.oldValue = c'.oldValue ∧
        c.newValue = c'.newValue ∧ c.createdAt = c'.createdAt) ∧
      ¬ (canonicalBytes toVec c <+: canonicalBytes toVec c' ∧
        canonicalBytes toVec c ≠ canonicalBytes toVec c') := by
  have hself := selfDelimiting_canonicalBytes toVec hjson
  constructor
  · intro h
    rw [hself.injective h]
    simp
  · rintro ⟨⟨rest, hrest⟩, hne⟩
    have hcontinued : canonicalBytes toVec c ++ rest = canonicalBytes toVec c' ++ [] := by
      rw [hrest, List.append_nil]
    exact hne (congrArg _ (hself hcontinued).1)

/-! ## Interleaved calls -/

/-- The calls of `audit::log` in flight, and the table they append to. -/
structure State (Value : Type) where
  /-- The last reading of the clock. -/
  clock : DateTime
  /-- The calls that have read the clock and wait for the lock. -/
  waiting : List (Content Value)
  table : List (ChainRow Value)

/-- An empty table and no calls. -/
def State.init (clock : DateTime) : State Value := ⟨clock, [], []⟩

inductive Step (Value : Type) where
  /-- A call starts: it reads the clock. -/
  | readClock (now : DateTime) (columns : Columns Value)
  /-- The waiting call at position `i` takes the lock, appends and commits. -/
  | append (i : ℕ) (id : Uuid)

/-- One step.  The clock does not run backwards. -/
def step (toVec : Value → Vec) (s : State Value) : Step Value → State Value
  | .readClock now columns =>
    if s.clock ≤ now then
      { s with clock := now, waiting := s.waiting ++ [{ columns with createdAt := now }] }
    else s
  | .append i id =>
    match s.waiting[i]? with
    | none => s
    | some content =>
      { s with
        waiting := s.waiting.eraseIdx i
        table := logHashed toVec s.table id content }

/-- The row that is appended comes after all rows of the table. -/
def AppendsLast (s : State Value) : Step Value → Prop
  | .readClock _ _ => True
  | .append i id =>
    ∀ content ∈ s.waiting[i]?, ∀ row ∈ s.table, row.key < toLex (content.createdAt, id)

instance (s : State Value) (i : ℕ) (id : Uuid) : Decidable (AppendsLast s (.append i id)) :=
  inferInstanceAs (Decidable (∀ content ∈ s.waiting[i]?, ∀ row ∈ s.table,
    row.key < toLex (content.createdAt, id)))

variable {toVec : Value → Vec} {row : ChainRow Value}

/-- An append behind the last row keeps the chain sound. -/
theorem step_sound {s : State Value} {a : Step Value} (hs : Sound toVec s.table)
    (hlast : AppendsLast s a) : Sound toVec (step toVec s a).table := by
  cases a with
  | readClock now columns =>
    rw [step]
    split
    · exact hs
    · exact hs
  | append i id =>
    rw [step]
    cases hi : s.waiting[i]? with
    | none => exact hs
    | some content => exact hs.logHashed (hlast content hi)

/-- While every append comes last, every state verifies. -/
theorem verify_of_appendsLast {toVec : Value → Vec} {clock : DateTime} {steps : List (Step Value)}
    (hmeets : Runs.Meets (step toVec) AppendsLast (State.init clock) steps) :
    ∀ s ∈ Runs.visited (step toVec) (State.init clock) steps, verify toVec s.table = [] := by
  intro s hs
  have hsound : Sound toVec s.table :=
    Runs.invariant_of_meets (P := fun s => Sound toVec s.table) (fun _ _ => step_sound)
      Sound.nil hmeets s hs
  exact hsound.verify_eq_nil

/-! ## Sample calls -/

/-- `serde_json::to_vec` on the booleans. -/
def boolToVec : Bool → Vec
  | true => Str.asBytes ⟨"true", by decide⟩
  | false => Str.asBytes ⟨"false", by decide⟩

theorem boolToVec_injective : Function.Injective boolToVec := by
  intro a b h
  cases a <;> cases b
  · rfl
  · exact absurd h (by decide)
  · exact absurd h (by decide)
  · rfl

/-- A user enables or disables something in ledger `1`. -/
def toggled (value : Bool) : Columns Bool where
  ledgerId := some 1
  actorId := 7
  action := ⟨"update", by decide⟩
  entityType := ⟨"ledger", by decide⟩
  entityId := some 1
  oldValue := some (!value)
  newValue := some value

/-- Whether it was enabled is in the bytes. -/
theorem canonicalBytes_toggled_inj_and_prefix_free :
    ¬ (canonicalBytes boolToVec { toggled true with createdAt := ⟨1, by decide⟩ } <+:
        canonicalBytes boolToVec { toggled false with createdAt := ⟨1, by decide⟩ } ∧
      canonicalBytes boolToVec { toggled true with createdAt := ⟨1, by decide⟩ } ≠
        canonicalBytes boolToVec { toggled false with createdAt := ⟨1, by decide⟩ }) :=
  (canonicalBytes_inj_and_prefix_free boolToVec_injective _ _).2

/-- A call at microsecond `1` is overtaken by one at microsecond `2`. -/
def overtaken : List (Step Bool) :=
  [.readClock ⟨1, by decide⟩ (toggled true), .readClock ⟨2, by decide⟩ (toggled false),
    .append 1 11, .append 0 12]

/-- The later row is chained to a tail that is no longer the last row. -/
theorem overtaken_verify_ne_nil :
    verify boolToVec (Runs.exec (step boolToVec) (State.init ⟨0, by decide⟩) overtaken).table ≠
      [] :=
  -- The row of the overtaken call is the first one and points at the other.
  List.cons_ne_nil _ _

/-- The same calls in the order of their readings. -/
theorem verify_of_appendsLast_inOrder :
    verify boolToVec (Runs.exec (step boolToVec) (State.init ⟨0, by decide⟩)
      [.readClock ⟨1, by decide⟩ (toggled true), .readClock ⟨2, by decide⟩ (toggled false),
        .append 0 12, .append 0 11]).table = [] := by
  refine verify_of_appendsLast ?_ _ (Runs.exec_mem_visited _ _)
  exact ⟨trivial, trivial, by decide, by decide, trivial⟩

/-! ## Tampering -/

/-- The table after calls of `log_hashed` one after the other. -/
def logAll (toVec : Value → Vec) (calls : List (Uuid × Content Value)) : List (ChainRow Value) :=
  calls.foldl (fun table call => logHashed toVec table call.1 call.2) []

/-- The row with other content in its columns.  Its hashes and its time stay. -/
def tamper (row : ChainRow Value) (columns : Columns Value) : ChainRow Value :=
  { row with content := { columns with createdAt := row.content.createdAt } }

/-- The byte strings that are hashed to build and to verify the rows. -/
def hashInputs (toVec : Value → Vec) (rows : List (ChainRow Value)) : List (List UInt8) :=
  rows.map fun row => hashInput row.prevHash (canonicalBytes toVec row.content)

/-- The rows of the table are those of the calls, and later calls come last. -/
theorem sound_logAll (toVec : Value → Vec) {calls : List (Uuid × Content Value)}
    (hinc : (calls.map (·.2.createdAt)).Pairwise (· < ·)) :
    Sound toVec (logAll toVec calls) ∧
      ∀ row ∈ logAll toVec calls, row.content.createdAt ∈ calls.map (·.2.createdAt) := by
  induction calls using List.reverseRecOn with
  | nil => exact ⟨Sound.nil, by simp [logAll]⟩
  | append_singleton calls call ih =>
    rw [List.map_append, List.pairwise_append] at hinc
    obtain ⟨hsound, hfrom⟩ := ih hinc.1
    have hlog : logAll toVec (calls ++ [call]) =
        logHashed toVec (logAll toVec calls) call.1 call.2 := by
      simp [logAll]
    rw [hlog]
    refine ⟨hsound.logHashed ?_, ?_⟩
    · intro row hrow
      have hlt : row.content.createdAt < call.2.createdAt :=
        hinc.2.2 _ (hfrom row hrow) _ (by simp)
      exact Prod.Lex.toLex_lt_toLex.mpr (Or.inl hlt)
    · intro row hrow
      rw [List.map_append]
      rw [logHashed] at hrow
      split at hrow
      · exact List.mem_append_left _ (hfrom row hrow)
      · rcases List.mem_append.mp hrow with hrow | hrow
        · exact List.mem_append_left _ (hfrom row hrow)
        · rw [List.mem_singleton.mp hrow]
          exact List.mem_append_right _ (by simp)

theorem ordered_tamper {front back : List (ChainRow Value)} {columns : Columns Value}
    (h : Ordered (front ++ row :: back)) :
    Ordered (front ++ tamper row columns :: back) := by
  unfold Ordered at h ⊢
  rw [List.pairwise_append, List.pairwise_cons] at h ⊢
  obtain ⟨hfront, ⟨hrow, hback⟩, hcross⟩ := h
  refine ⟨hfront, ⟨hrow, hback⟩, ?_⟩
  intro a ha b hb
  rcases List.mem_cons.mp hb with rfl | hb
  · exact hcross a ha row List.mem_cons_self
  · exact hcross a ha b (List.mem_cons_of_mem _ hb)

theorem hash_tamper_ne (hjson : Function.Injective toVec) {columns : Columns Value}
    (hne : columns ≠ row.content.toColumns) {inputs : List (List UInt8)}
    (hsha : Set.InjOn Sha256.hash { b | b ∈ inputs })
    (hrow : hashInput row.prevHash (canonicalBytes toVec row.content) ∈ inputs)
    (htampered : hashInput row.prevHash (canonicalBytes toVec (tamper row columns).content) ∈ inputs)
    (hhash : row.hash = some (row.digest toVec)) :
    (tamper row columns).hash ≠ some ((tamper row columns).digest toVec) := by
  intro h
  have hdigest : row.digest toVec = (tamper row columns).digest toVec :=
    Option.some.inj (hhash.symm.trans h)
  have hinput : hashInput row.prevHash (canonicalBytes toVec row.content) =
      hashInput row.prevHash (canonicalBytes toVec (tamper row columns).content) :=
    hsha hrow htampered hdigest
  have hbytes := List.append_cancel_left hinput
  have hcontent := (selfDelimiting_canonicalBytes toVec hjson).injective hbytes
  exact hne (congrArg Content.toColumns hcontent).symm

theorem verify_tamper_cons {back : List (ChainRow Value)} (h : Sound toVec (row :: back))
    (columns : Columns Value) :
    verify toVec (tamper row columns :: back) = [] := by
  obtain ⟨hprev, -, hback⟩ := h.intact
  have hnone : (tamper row columns).prevHash = none := hprev
  have hrest : walk toVec (tamper row columns).hash back = [] := walk_of_intact hback
  have hordered : Ordered ([] ++ tamper row columns :: back) := ordered_tamper h.ordered
  rw [List.nil_append] at hordered
  rw [verify_of_ordered hordered, walk, hnone, hrest]
  rfl

/-- Tampering with one row of a table that `log_hashed` has built is detected unless
the row is the first one. -/
theorem verify_tamper_ne_nil_iff {toVec : Value → Vec} (hjson : Function.Injective toVec)
    {calls : List (Uuid × Content Value)}
    (hinc : (calls.map (·.2.createdAt)).Pairwise (· < ·))
    {front back : List (ChainRow Value)} {row : ChainRow Value}
    (htable : logAll toVec calls = front ++ row :: back)
    {columns : Columns Value} (hne : columns ≠ row.content.toColumns)
    (hsha : Set.InjOn Sha256.hash { b | b ∈ hashInputs toVec (front ++ row :: back) ++
      hashInputs toVec (front ++ tamper row columns :: back) }) :
    verify toVec (front ++ tamper row columns :: back) ≠ [] ↔ front ≠ [] := by
  have hsound := (sound_logAll toVec hinc).1
  rw [htable] at hsound
  obtain ⟨hfront, -, hhash, -⟩ := HashChain.intact_append.mp hsound.intact
  have hchanged := hash_tamper_ne hjson hne hsha (by simp [hashInputs]) (by simp [hashInputs, tamper])
    hhash
  rcases List.eq_nil_or_concat' front with rfl | ⟨init, last, rfl⟩
  · simp [verify_tamper_cons hsound columns]
  · rw [verify_of_ordered (ordered_tamper hsound.ordered), walk_append, walk_of_intact hfront,
      List.nil_append]
    have hsome := hfront.tail_isSome (by simp)
    obtain ⟨expectedPrev, hexpected⟩ := Option.isSome_iff_exists.mp hsome
    rw [hexpected, walk, if_pos hchanged]
    simp

/-- Two calls, one microsecond apart. -/
def toggles : List (Uuid × Content Bool) :=
  [(12, { toggled true with createdAt := ⟨1, by decide⟩ }),
    (11, { toggled false with createdAt := ⟨2, by decide⟩ })]

/-- The row of the first call. -/
def firstRow : ChainRow Bool :=
  let content : Content Bool := { toggled true with createdAt := ⟨1, by decide⟩ }
  { id := 12, prevHash := none, content,
    hash := some (computeHash none (canonicalBytes boolToVec content)) }

/-- The row of the second call. -/
def secondRow : ChainRow Bool :=
  let content : Content Bool := { toggled false with createdAt := ⟨2, by decide⟩ }
  { id := 11, prevHash := firstRow.hash, content,
    hash := some (computeHash firstRow.hash (canonicalBytes boolToVec content)) }

theorem sound_toggles : Sound boolToVec [firstRow, secondRow] := by
  have hsound : Sound boolToVec (logAll boolToVec toggles) :=
    (sound_logAll boolToVec (by decide)).1
  exact hsound

theorem injOn_toggles : Set.InjOn Sha256.hash { b | b ∈ hashInputs boolToVec
    [firstRow, secondRow, tamper firstRow (toggled false), tamper secondRow (toggled true)] } :=
  Sha256.injOn_mem (by decide +kernel)

/-- The first of two rows is made to say the opposite, and no break is found. -/
theorem verify_tamper_first_eq_nil :
    Function.Injective boolToVec ∧ (toggles.map (·.2.createdAt)).Pairwise (· < ·) ∧
      logAll boolToVec toggles = [firstRow, secondRow] ∧
      toggled false ≠ firstRow.content.toColumns ∧
      Set.InjOn Sha256.hash { b | b ∈ hashInputs boolToVec [firstRow, secondRow] ++
        hashInputs boolToVec [tamper firstRow (toggled false), secondRow] } ∧
      verify boolToVec [tamper firstRow (toggled false), secondRow] = [] := by
  refine ⟨boolToVec_injective, by decide, rfl, by decide,
    Set.InjOn.mono (fun b hb => ?_) injOn_toggles, verify_tamper_cons sound_toggles _⟩
  rcases List.mem_append.mp hb with hb | hb
  · exact List.map_subset _ (by simp) hb
  · exact List.map_subset _ (by simp) hb

theorem verify_tamper_second_ne_nil :
    verify boolToVec ([firstRow] ++ tamper secondRow (toggled true) :: []) ≠ [] := by
  have htable : logAll boolToVec toggles = [firstRow] ++ secondRow :: [] := rfl
  refine (verify_tamper_ne_nil_iff boolToVec_injective (by decide) htable
    (by decide) (Set.InjOn.mono (fun b hb => ?_) injOn_toggles)).mpr (List.cons_ne_nil _ _)
  rcases List.mem_append.mp hb with hb | hb
  · exact List.map_subset _ (by simp) hb
  · exact List.map_subset _ (by simp) hb

end OpenAccounting.AuditTrail
