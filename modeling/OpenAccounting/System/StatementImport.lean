import OpenAccounting.Handlers.StatementUpload
import OpenAccounting.Lib.DecimalText
import OpenAccounting.System.JournalOps

/-!
# Statements that are uploaded twice

A line of a statement is taken for one that is there already if both have the same external id.  A
line without one is taken for one with its date, its amount and a description that is, up to case,
its normalized payee.  The stored description is not normalized and the stored amount has four
decimals, and every line of an MT940 statement has the reference of the statement for its id.

`complete_iff` says for which texts a first upload stores a row for each line and a second one
nothing.
-/

namespace OpenAccounting.StatementUpload

open Commit Import.Statement Rounding

/-! ## What is taken for what -/

/-- The importer takes `l` for the stored `k`. -/
def TakenFor (lib : Libraries) (k l : StatementLine) : Prop :=
  match l.externalId with
  | some ext => k.externalId = some ext
  | none => k.date = l.date ∧ roundDp 4 k.amount = l.amount ∧
      lib.lower k.payee = lib.lower (normalizePayee lib l.payee)

instance (lib : Libraries) (k l : StatementLine) : Decidable (TakenFor lib k l) :=
  match h : l.externalId with
  | some ext => decidable_of_iff (k.externalId = some ext) (by rw [TakenFor, h])
  | none =>
    decidable_of_iff (k.date = l.date ∧ roundDp 4 k.amount = l.amount ∧
      lib.lower k.payee = lib.lower (normalizePayee lib l.payee)) (by rw [TakenFor, h])

structure RowOf (t : Target) (l : StatementLine) (b : BankStatementLine) : Prop where
  ledgerId : b.ledgerId = t.ledger
  accountId : b.accountId = t.account
  statementDate : b.statementDate = l.date
  description : b.description = some l.payee
  amount : b.amount = roundDp 4 l.amount
  checkNumber : b.checkNumber = l.memo
  externalId : b.externalId = l.externalId

/-- Nothing is in the way of the rows of these lines, the first of which is the `m`-th row. -/
structure Insertable (lib : Libraries) (req : Request) (db : Db) (m : ℕ)
    (lines : List StatementLine) : Prop where
  searchable : ∀ l ∈ lines, Searchable lib l
  storable : ∀ l ∈ lines, Storable l
  amounts : ∀ l ∈ lines, (amountColumn l.amount).isSome
  new_ids : ∀ i, m ≤ i → i < m + lines.length → ∀ b ∈ db.bankStatementLines, b.id ≠ req.rowId i
  ids : ∀ i, m ≤ i → i < m + lines.length → ∀ j < i, req.rowId j ≠ req.rowId i

/-- The lines that have been stored, in an account that had none. -/
structure Stored (req : Request) (t : Target) (db : Db) (done : List StatementLine)
    (s : Tally × Db) : Prop where
  tally : s.1 = { count := done.length }
  rows : ∃ rows, s.2 = { db with bankStatementLines := db.bankStatementLines ++ rows } ∧
    List.Forall₂ (RowOf t) done rows ∧
    rows.map BankStatementLine.id = (List.range done.length).map req.rowId

section

variable {lib : Libraries} {req : Request} {t : Target} {db db' : Db} {done : List StatementLine}
  {s s' : Tally × Db} {l : StatementLine} {lines : List StatementLine}

theorem exists_of_forall₂ {α β : Type} {R : α → β → Prop} {xs : List α} {ys : List β}
    (h : List.Forall₂ R xs ys) {y : β} (hy : y ∈ ys) : ∃ x ∈ xs, R x y := by
  induction h with
  | nil => cases hy
  | cons hr _ ih =>
    rcases List.mem_cons.mp hy with rfl | hy
    · exact ⟨_, List.mem_cons_self, hr⟩
    · obtain ⟨x, hx, hr⟩ := ih hy
      exact ⟨x, List.mem_cons_of_mem _ hx, hr⟩

theorem RowOf.sameLine_iff {k : StatementLine} {b : BankStatementLine} (h : RowOf t k b) :
    SameLine lib l b ↔ TakenFor lib k l := by
  cases hext : l.externalId with
  | some ext => simp [SameLine, TakenFor, hext, h.externalId]
  | none => simp [SameLine, TakenFor, hext, h.statementDate, h.amount, h.description]

/-- A line is there already exactly when it is taken for one that has been stored. -/
theorem Stored.duplicate_iff (hempty : ∀ b ∈ db.bankStatementLines, b.accountId ≠ t.account)
    (h : Stored req t db done s) :
    Duplicate lib s.2 t.account l ↔ ∃ k ∈ done, TakenFor lib k l := by
  obtain ⟨rows, hdb, hrows, -⟩ := h.rows
  have hmem : ∀ b, b ∈ s.2.bankStatementLines ↔ b ∈ db.bankStatementLines ∨ b ∈ rows := by
    intro b
    rw [hdb]
    exact List.mem_append
  constructor
  · rintro ⟨b, hb, haccount, hsame⟩
    rcases (hmem b).mp hb with hb | hb
    · exact absurd haccount (hempty b hb)
    · obtain ⟨k, hk, hrow⟩ := exists_of_forall₂ hrows hb
      exact ⟨k, hk, hrow.sameLine_iff.mp hsame⟩
  · rintro ⟨k, hk, htaken⟩
    obtain ⟨b, hb, hrow⟩ := exists_of_forall₂ hrows.flip hk
    exact ⟨b, (hmem b).mpr (Or.inr hb), hrow.accountId, hrow.sameLine_iff.mpr htaken⟩

/-- A line is inserted exactly if it can be sent, its ids are new and its amount fits. -/
theorem insertLine_ok_iff {id ledger account : Uuid} :
    insertLine db id ledger account l = .ok db' ↔ Storable l ∧
      db.HasLedger ledger ∧ account ∈ db.books.accountIds ∧
      (∀ b ∈ db.bankStatementLines, b.id ≠ id) ∧
      (∀ ext ∈ l.externalId, ∀ b ∈ db.bankStatementLines,
        b.accountId = account → b.externalId ≠ some ext) ∧
      ∃ amount, amountColumn l.amount = some amount ∧ db' = { db with
        bankStatementLines := db.bankStatementLines ++ [lineRow id ledger account l amount] } := by
  simp only [insertLine, bind_eq_ok, ensure_eq_ok, okOr_eq_ok]
  constructor
  · rintro ⟨-, hstorable, amount, hamount, -, hledger, -, haccount, -, hid, -, hext, h⟩
    cases h
    exact ⟨hstorable, hledger, haccount, hid, hext, amount, hamount, rfl⟩
  · rintro ⟨hstorable, hledger, haccount, hid, hext, amount, hamount, rfl⟩
    exact ⟨(), hstorable, amount, hamount, (), hledger, (), haccount, (), hid, (), hext, rfl⟩

theorem count_turn {line : Line} (h : turn lib req t s line = .ok s') :
    s.1.count ≤ s'.1.count ∧ s'.1.count ≤ s.1.count + 1 := by
  rw [turn] at h
  split at h
  · cases h
    exact ⟨le_rfl, Nat.le_succ _⟩
  · cases h
    exact ⟨le_rfl, Nat.le_succ _⟩
  · rw [store] at h
    split at h
    · cases h
      exact ⟨le_rfl, Nat.le_succ _⟩
    · obtain ⟨-, -, h⟩ := bind_eq_ok.mp h
      split at h
      · cases h
        exact ⟨le_rfl, Nat.le_succ _⟩
      · obtain ⟨db₁, -, h⟩ := bind_eq_ok.mp h
        cases h
        exact ⟨Nat.le_succ _, le_rfl⟩

theorem count_storeAll {ls : List Line} : ∀ {s : Tally × Db}, storeAll lib req t s ls = .ok s' →
    s.1.count ≤ s'.1.count ∧ s'.1.count ≤ s.1.count + ls.length := by
  induction ls with
  | nil =>
    intro s h
    cases h
    exact ⟨le_rfl, le_rfl⟩
  | cons line ls ih =>
    intro s h
    obtain ⟨s₁, hturn, hrest⟩ := bind_eq_ok.mp h
    have hone := count_turn hturn
    have hmore := ih hrest
    rw [List.length_cons]
    omega

theorem store_insert_iff (hcurrency : InCurrency t l) :
    store lib req t s l = .ok s' ∧ s'.1.count = s.1.count + 1 ↔
      Searchable lib l ∧ ¬ Duplicate lib s.2 t.account l ∧
        ∃ db₁, insertLine s.2 (req.rowId s.1.count) t.ledger t.account l = .ok db₁ ∧
          s' = ({ s.1 with count := s.1.count + 1 }, db₁) := by
  rw [store, if_neg (not_not.mpr hcurrency), bind_eq_ok]
  constructor
  · rintro ⟨⟨_, hsearch, h⟩, hcount⟩
    split at h
    · cases h
      exact absurd hcount (Nat.succ_ne_self _).symm
    · next hdup =>
        obtain ⟨db₁, hinsert, h⟩ := bind_eq_ok.mp h
        cases h
        exact ⟨ensure_eq_ok.mp hsearch, hdup, db₁, hinsert, rfl⟩
  · rintro ⟨hsearch, hdup, db₁, hinsert, rfl⟩
    refine ⟨⟨(), ensure_eq_ok.mpr hsearch, ?_⟩, rfl⟩
    rw [if_neg hdup, bind_eq_ok]
    exact ⟨db₁, hinsert, rfl⟩

theorem store_pass_iff (hcurrency : InCurrency t l) :
    store lib req t s l = .ok s' ∧ s'.1.count = s.1.count ↔
      Searchable lib l ∧ Duplicate lib s.2 t.account l ∧
        s' = ({ s.1 with duplicates := s.1.duplicates + 1 }, s.2) := by
  rw [store, if_neg (not_not.mpr hcurrency), bind_eq_ok]
  constructor
  · rintro ⟨⟨_, hsearch, h⟩, hcount⟩
    split at h
    · next hdup =>
        cases h
        exact ⟨ensure_eq_ok.mp hsearch, hdup, rfl⟩
    · obtain ⟨db₁, -, h⟩ := bind_eq_ok.mp h
      cases h
      exact absurd hcount (Nat.succ_ne_self _)
  · rintro ⟨hsearch, hdup, rfl⟩
    refine ⟨⟨(), ensure_eq_ok.mpr hsearch, ?_⟩, rfl⟩
    rw [if_pos hdup]

/-! ## The first upload -/

/-- The drawn ids are new, to the lines that were there and to those that have been stored. -/
theorem Stored.new_id_iff (h : Stored req t db done s) {id : Uuid} :
    (∀ b ∈ s.2.bankStatementLines, b.id ≠ id) ↔
      (∀ b ∈ db.bankStatementLines, b.id ≠ id) ∧ ∀ j < done.length, req.rowId j ≠ id := by
  obtain ⟨rows, hdb, -, hids⟩ := h.rows
  have hrows : (∀ b ∈ rows, b.id ≠ id) ↔ ∀ j < done.length, req.rowId j ≠ id := by
    rw [← List.forall_mem_map (f := BankStatementLine.id) (P := fun x => x ≠ id), hids,
      List.forall_mem_map]
    simp
  rw [hdb, ← hrows]
  exact List.forall_mem_append

/-- A turn stores its line exactly when the line is not taken for a stored one and nothing is in the
way of its row. -/
theorem Stored.step_iff (hempty : ∀ b ∈ db.bankStatementLines, b.accountId ≠ t.account)
    (hledger : db.HasLedger t.ledger) (haccount : t.account ∈ db.books.accountIds)
    (hcurrency : InCurrency t l) (h : Stored req t db done s) :
    (∃ s', store lib req t s l = .ok s' ∧ s'.1.count = s.1.count + 1) ↔
      (∀ k ∈ done, ¬ TakenFor lib k l) ∧ Insertable lib req db done.length [l] := by
  have hcount : s.1.count = done.length := by rw [h.tally]
  have hkeeps : s.2.ledgers = db.ledgers ∧ s.2.books = db.books := by
    obtain ⟨rows, hdb, -⟩ := h.rows
    rw [hdb]
    exact ⟨rfl, rfl⟩
  have hhas : s.2.HasLedger t.ledger ↔ db.HasLedger t.ledger := by
    rw [Db.HasLedger, hkeeps.1, Db.HasLedger]
  constructor
  · rintro ⟨s', hstore⟩
    obtain ⟨hsearch, hdup, db₁, hinsert, -⟩ := (store_insert_iff hcurrency).mp hstore
    obtain ⟨hstorable, -, -, hid, -, amount, hamount, -⟩ := insertLine_ok_iff.mp hinsert
    rw [hcount, h.new_id_iff] at hid
    have hi : ∀ i, done.length ≤ i → i < done.length + [l].length → i = done.length := by
      intro i hle hlt
      rw [List.length_singleton] at hlt
      omega
    refine ⟨fun k hk htaken => hdup ((h.duplicate_iff hempty).mpr ⟨k, hk, htaken⟩),
      ?_, ?_, ?_, ?_, ?_⟩
    · simpa using hsearch
    · simpa using hstorable
    · simp [hamount]
    · intro i hle hlt
      rw [hi i hle hlt]
      exact hid.1
    · intro i hle hlt
      rw [hi i hle hlt]
      exact hid.2
  · rintro ⟨hnew, hfits⟩
    have hl := List.mem_singleton_self l
    have hlt : done.length < done.length + [l].length := Nat.lt_succ_self _
    obtain ⟨amount, hamount⟩ := Option.isSome_iff_exists.mp (hfits.amounts l hl)
    have hdup : ¬ Duplicate lib s.2 t.account l := by
      intro hdup
      obtain ⟨k, hk, htaken⟩ := (h.duplicate_iff hempty).mp hdup
      exact hnew k hk htaken
    have hext : ∀ ext ∈ l.externalId, ∀ b ∈ s.2.bankStatementLines,
        b.accountId = t.account → b.externalId ≠ some ext := by
      intro ext hext b hb haccountId hsame
      refine hdup ⟨b, hb, haccountId, ?_⟩
      rw [Option.mem_def] at hext
      simp [SameLine, hext, hsame]
    have hid : ∀ b ∈ s.2.bankStatementLines, b.id ≠ req.rowId s.1.count := by
      rw [hcount]
      exact h.new_id_iff.mpr ⟨hfits.new_ids _ le_rfl hlt, hfits.ids _ le_rfl hlt⟩
    have hinsert := insertLine_ok_iff.mpr ⟨hfits.storable l hl, hhas.mpr hledger,
      hkeeps.2 ▸ haccount, hid, hext, amount, hamount, rfl⟩
    exact ⟨_, (store_insert_iff hcurrency).mpr ⟨hfits.searchable l hl, hdup, _, hinsert, rfl⟩⟩

theorem Stored.step (h : Stored req t db done s) (hcurrency : InCurrency t l)
    (hstore : store lib req t s l = .ok s') (hcount : s'.1.count = s.1.count + 1) :
    Stored req t db (done ++ [l]) s' := by
  obtain ⟨-, -, db₁, hinsert, rfl⟩ := (store_insert_iff hcurrency).mp ⟨hstore, hcount⟩
  obtain ⟨-, -, -, -, -, amount, hamount, rfl⟩ := insertLine_ok_iff.mp hinsert
  obtain ⟨rows, hdb, hrows, hids⟩ := h.rows
  constructor
  · rw [h.tally, List.length_append]
    rfl
  · refine ⟨rows ++ [lineRow (req.rowId s.1.count) t.ledger t.account l amount], ?_,
      List.rel_append hrows (.cons ?_ .nil), ?_⟩
    · rw [hdb, ← List.append_assoc]
    · exact ⟨rfl, rfl, rfl, rfl, numeric_eq_some hamount, rfl, rfl⟩
    · rw [List.map_append, hids, List.length_append, List.length_singleton, List.range_succ,
        List.map_append, h.tally]
      rfl

theorem insertable_cons {m : ℕ} : Insertable lib req db m (l :: lines) ↔
    Insertable lib req db m [l] ∧ Insertable lib req db (m + 1) lines := by
  have hlen : m + (l :: lines).length = m + 1 + lines.length := by
    rw [List.length_cons]
    omega
  constructor
  · rintro ⟨hsearch, hstorable, hamounts, hnew, hids⟩
    rw [hlen] at hnew hids
    rw [List.forall_mem_cons] at hsearch hstorable hamounts
    constructor
    · constructor
      · simpa using hsearch.1
      · simpa using hstorable.1
      · simpa using hamounts.1
      · intro i hle hlt
        exact hnew i hle (by rw [List.length_singleton] at hlt; omega)
      · intro i hle hlt
        exact hids i hle (by rw [List.length_singleton] at hlt; omega)
    · exact ⟨hsearch.2, hstorable.2, hamounts.2, fun i hle => hnew i (by omega),
        fun i hle => hids i (by omega)⟩
  · rintro ⟨hone, hmore⟩
    have hl := List.mem_singleton_self l
    have hfirst : m < m + [l].length := Nat.lt_succ_self m
    constructor
    · exact List.forall_mem_cons.mpr ⟨hone.searchable l hl, hmore.searchable⟩
    · exact List.forall_mem_cons.mpr ⟨hone.storable l hl, hmore.storable⟩
    · exact List.forall_mem_cons.mpr ⟨hone.amounts l hl, hmore.amounts⟩
    · intro i hle hlt
      rw [hlen] at hlt
      rcases Nat.eq_or_lt_of_le hle with rfl | hgt
      · exact hone.new_ids m le_rfl hfirst
      · exact hmore.new_ids i hgt hlt
    · intro i hle hlt
      rw [hlen] at hlt
      rcases Nat.eq_or_lt_of_le hle with rfl | hgt
      · exact hone.ids m le_rfl hfirst
      · exact hmore.ids i hgt hlt

/-- All lines are stored exactly when none is taken for an earlier one and nothing is in the way of
their rows. -/
theorem Stored.run_iff (hempty : ∀ b ∈ db.bankStatementLines, b.accountId ≠ t.account)
    (hledger : db.HasLedger t.ledger) (haccount : t.account ∈ db.books.accountIds)
    (lines : List StatementLine) : ∀ {done : List StatementLine} {s : Tally × Db},
      (∀ l ∈ lines, InCurrency t l) → Stored req t db done s →
      ((∃ s', storeAll lib req t s (lines.map Line.stmt) = .ok s' ∧
          s'.1.count = s.1.count + lines.length) ↔
        (lines.Pairwise (fun k l => ¬ TakenFor lib k l) ∧
          ∀ k ∈ done, ∀ l ∈ lines, ¬ TakenFor lib k l) ∧
          Insertable lib req db done.length lines) := by
  induction lines with
  | nil =>
    intro done s _ _
    refine ⟨fun _ => ⟨⟨.nil, by simp⟩, by simp, by simp, by simp, ?_, ?_⟩,
      fun _ => ⟨s, rfl, rfl⟩⟩
    · intro i hle hlt
      exact absurd hlt (by simpa using hle)
    · intro i hle hlt
      exact absurd hlt (by simpa using hle)
  | cons l lines ih =>
    intro done s hcurrency h
    obtain ⟨hl, hrest⟩ := List.forall_mem_cons.mp hcurrency
    have hstep := @Stored.step_iff lib _ _ _ _ _ _ hempty hledger haccount hl h
    rw [insertable_cons, List.pairwise_cons]
    constructor
    · rintro ⟨s', hrun, hcount⟩
      obtain ⟨s₁, hturn, hrun⟩ := bind_eq_ok.mp hrun
      have hone := count_turn hturn
      have hmore := count_storeAll hrun
      rw [List.length_map] at hmore
      rw [List.length_cons] at hcount
      have hcount₁ : s₁.1.count = s.1.count + 1 := by omega
      have h₁ := h.step hl hturn hcount₁
      obtain ⟨hnew, hfits⟩ := hstep.mp ⟨s₁, hturn, hcount₁⟩
      obtain ⟨⟨hpair, hnone⟩, hfits'⟩ := (ih hrest h₁).mp ⟨s', hrun, by omega⟩
      rw [List.length_append] at hfits'
      refine ⟨⟨⟨fun l' hl' => hnone l (by simp) l' hl', hpair⟩, fun k hk => ?_⟩, hfits, hfits'⟩
      exact List.forall_mem_cons.mpr ⟨hnew k hk, hnone k (List.mem_append_left _ hk)⟩
    · rintro ⟨⟨⟨hfirst, hpair⟩, hnone⟩, hfits, hfits'⟩
      obtain ⟨s₁, hturn, hcount₁⟩ := hstep.mpr
        ⟨fun k hk => hnone k hk l List.mem_cons_self, hfits⟩
      have h₁ := h.step hl hturn hcount₁
      have hlater : ∀ k ∈ done ++ [l], ∀ l' ∈ lines, ¬ TakenFor lib k l' := by
        intro k hk l' hl'
        rcases List.mem_append.mp hk with hk | hk
        · exact hnone k hk l' (List.mem_cons_of_mem _ hl')
        · rw [List.mem_singleton.mp hk]
          exact hfirst l' hl'
      obtain ⟨s', hrun, hcount⟩ := (ih hrest h₁).mpr ⟨⟨hpair, hlater⟩, by
        rw [List.length_append]
        exact hfits'⟩
      refine ⟨s', bind_eq_ok.mpr ⟨s₁, hturn, hrun⟩, ?_⟩
      rw [List.length_cons]
      omega

/-- If every line counts, every line is stored. -/
theorem Stored.run (lines : List StatementLine) : ∀ {done : List StatementLine} {s : Tally × Db},
    (∀ l ∈ lines, InCurrency t l) → Stored req t db done s →
    storeAll lib req t s (lines.map Line.stmt) = .ok s' →
    s'.1.count = s.1.count + lines.length → Stored req t db (done ++ lines) s' := by
  induction lines with
  | nil =>
    intro done s _ h hrun _
    cases hrun
    rw [List.append_nil]
    exact h
  | cons l lines ih =>
    intro done s hcurrency h hrun hcount
    obtain ⟨hl, hrest⟩ := List.forall_mem_cons.mp hcurrency
    obtain ⟨s₁, hturn, hrun⟩ := bind_eq_ok.mp hrun
    have hone := count_turn hturn
    have hmore := count_storeAll hrun
    rw [List.length_map] at hmore
    rw [List.length_cons] at hcount
    have hcount₁ : s₁.1.count = s.1.count + 1 := by omega
    have hall := ih hrest (h.step hl hturn hcount₁) hrun (by omega)
    rw [List.append_assoc] at hall
    exact hall

/-! ## The second upload -/

/-- No line counts exactly if every line is a duplicate. -/
theorem storeAll_pass_iff (lines : List StatementLine) : ∀ {s s' : Tally × Db},
    (∀ l ∈ lines, InCurrency t l) →
    (storeAll lib req t s (lines.map Line.stmt) = .ok s' ∧ s'.1.count = s.1.count ↔
      (∀ l ∈ lines, Searchable lib l ∧ Duplicate lib s.2 t.account l) ∧
        s' = ({ s.1 with duplicates := s.1.duplicates + lines.length }, s.2)) := by
  induction lines with
  | nil =>
    intro s s' _
    constructor
    · rintro ⟨h, -⟩
      cases h
      exact ⟨by simp, rfl⟩
    · rintro ⟨-, rfl⟩
      exact ⟨rfl, rfl⟩
  | cons l lines ih =>
    intro s s' hcurrency
    obtain ⟨hl, hrest⟩ := List.forall_mem_cons.mp hcurrency
    rw [List.forall_mem_cons]
    constructor
    · rintro ⟨hrun, hcount⟩
      obtain ⟨s₁, hturn, hrun⟩ := bind_eq_ok.mp hrun
      have hone := count_turn hturn
      have hmore := count_storeAll hrun
      obtain ⟨hsearch, hdup, rfl⟩ := (store_pass_iff hl).mp ⟨hturn, by omega⟩
      obtain ⟨hall, rfl⟩ := (ih hrest).mp ⟨hrun, hcount⟩
      refine ⟨⟨⟨hsearch, hdup⟩, hall⟩, ?_⟩
      rw [List.length_cons, Nat.add_assoc, Nat.add_comm 1]
    · rintro ⟨⟨⟨hsearch, hdup⟩, hall⟩, rfl⟩
      obtain ⟨hturn, -⟩ := (@store_pass_iff lib req _ _ _ _ hl).mpr ⟨hsearch, hdup, rfl⟩
      obtain ⟨hrun, -⟩ := (@ih ({ s.1 with duplicates := s.1.duplicates + 1 }, s.2)
        ({ s.1 with duplicates := s.1.duplicates + 1 + lines.length }, s.2) hrest).mpr ⟨hall, rfl⟩
      refine ⟨bind_eq_ok.mpr ⟨_, hturn, ?_⟩, rfl⟩
      rw [List.length_cons, Nat.add_comm lines.length, ← Nat.add_assoc]
      exact hrun

/-! ## The two uploads -/

/-- The uploader owns the ledger, and the type of the file is accepted. -/
structure Accepted (lib : Libraries) (db : Db) (auth : Option Uuid) (ledger : Uuid) (file : File) :
    Prop where
  owner : ∃ user, auth = some user ∧ ∃ l, db.ensureOwner user ledger = .ok l
  type : ∃ mime, validate lib file = .ok mime

/-- A first upload stores a row for each line, and a second one stores nothing. -/
def Complete (lib : Libraries) (db : Db) (req req' : Request) (auth : Option Uuid) (t : Target)
    (file : File) (lines : List StatementLine) : Prop :=
  ∃ db' rows, uploadCsv lib db req auth t.ledger t.account (some file) = (.ok lines.length, db') ∧
    db'.bankStatementLines = db.bankStatementLines ++ rows ∧ List.Forall₂ (RowOf t) lines rows ∧
    uploadCsv lib db' req' auth t.ledger t.account (some file) = (.ok 0, db')

section

variable {auth : Option Uuid} {file : File} {format : Format} {n : ℕ}

theorem readUpload_eq_ok (hformat : sniffFormat file.text = some format)
    (hparse : parse lib format file.text .us = .ok lines)
    (haccount : ∃ a, db.books.accounts.find? (fun a => a.id = t.account) = some a ∧
      a.currency = t.currency) {x : Target × List Line} :
    readUpload lib db auth t.ledger t.account (some file) = .ok x ↔
      Accepted lib db auth t.ledger file ∧ x = (t, lines.map Line.stmt) := by
  obtain ⟨a, hfind, hcurrency⟩ := haccount
  have hlines : readLines lib file = .ok (lines.map Line.stmt) := by
    delta readLines
    simp only [hformat, hparse]
  have htarget : ({ ledger := t.ledger, account := t.account, currency := a.currency } : Target) = t := by
    rw [hcurrency]
  simp only [readUpload, bind_eq_ok, okOr_eq_ok, mapError_eq_ok]
  constructor
  · rintro ⟨user, hauth, l, howner, f, hf, mime, hmime, b, hb, ls, hls, hx⟩
    cases hf
    rw [hfind] at hb
    rw [hlines] at hls
    cases hb
    cases hls
    cases hx
    exact ⟨⟨⟨user, hauth, l, howner⟩, mime, hmime⟩, by rw [htarget]⟩
  · rintro ⟨⟨⟨user, hauth, l, howner⟩, mime, hmime⟩, rfl⟩
    exact ⟨user, hauth, l, howner, file, rfl, mime, hmime, a, hfind, _, hlines, by rw [htarget]⟩

theorem answer_eq_ok {tally : Tally} : answer tally = .ok n ↔ tally.rowErrors = [] ∧ tally.count = n := by
  rw [answer]
  split
  · next h => simp [h]
  · next h => simp [h]

theorem uploadCsv_eq_ok {ledger account : Uuid} :
    uploadCsv lib db req auth ledger account (some file) = (.ok n, db') ↔
      ∃ x, readUpload lib db auth ledger account (some file) = .ok x ∧
        ∃ tally, storeAll lib req x.1 ({}, db) x.2 = .ok (tally, db') ∧
          tally.rowErrors = [] ∧ tally.count = n := by
  rw [uploadCsv]
  cases readUpload lib db auth ledger account (some file) with
  | error e => simp
  | ok x => simp [andThen_eq_ok, commit_eq_ok, answer_eq_ok, and_comm, and_assoc, and_left_comm]

theorem stored_nil : Stored req t db [] ({}, db) where
  tally := rfl
  rows := ⟨[], by rw [List.append_nil], .nil, rfl⟩

/-- A first upload stores a row for each line and a second one nothing, exactly if
- the upload is accepted,
- nothing is in the way of the rows,
- no line is taken for an earlier one, and
- every line is taken for some line of the text. -/
theorem complete_iff (hformat : sniffFormat file.text = some format)
    (hparse : parse lib format file.text .us = .ok lines)
    (haccount : ∃ a, db.books.accounts.find? (fun a => a.id = t.account) = some a ∧
      a.currency = t.currency)
    (hcurrency : ∀ l ∈ lines, InCurrency t l)
    (hempty : ∀ b ∈ db.bankStatementLines, b.accountId ≠ t.account) (req' : Request) :
    Complete lib db req req' auth t file lines ↔
      Accepted lib db auth t.ledger file ∧ Insertable lib req db 0 lines ∧
        lines.Pairwise (fun k l => ¬ TakenFor lib k l) ∧
        ∀ l ∈ lines, ∃ k ∈ lines, TakenFor lib k l := by
  have hids : t.account ∈ db.books.accountIds := by
    obtain ⟨a, hfind, -⟩ := haccount
    have hid : a.id = t.account := by simpa using List.find?_some hfind
    exact hid ▸ List.mem_map_of_mem (List.mem_of_find?_eq_some hfind)
  have hledger : Accepted lib db auth t.ledger file → db.HasLedger t.ledger := by
    rintro ⟨⟨user, -, l, howner⟩, -⟩
    have hfound := okOr_eq_ok.mp howner
    have hid : l.id = t.ledger ∧ l.ownerId = user := by simpa using List.find?_some hfound
    exact ⟨l, List.mem_of_find?_eq_some hfound, hid.1⟩
  constructor
  · rintro ⟨db', rows, hfirst, -, -, hsecond⟩
    obtain ⟨x, hread, tally, hrun, -, hcount⟩ := uploadCsv_eq_ok.mp hfirst
    obtain ⟨haccepted, rfl⟩ := (readUpload_eq_ok hformat hparse haccount).mp hread
    have hcount₁ : (tally, db').1.count = 0 + lines.length := hcount.trans (Nat.zero_add _).symm
    obtain ⟨⟨hpair, -⟩, hfits⟩ := (stored_nil.run_iff hempty (hledger haccepted) hids lines
      hcurrency).mp ⟨_, hrun, hcount₁⟩
    have hstored := stored_nil.run lines hcurrency hrun hcount₁
    refine ⟨haccepted, hfits, hpair, fun l hl => ?_⟩
    obtain ⟨stored, hdb, -⟩ := hstored.rows
    have haccount' : ∃ a, db'.books.accounts.find? (fun a => a.id = t.account) = some a ∧
        a.currency = t.currency := by
      rw [show db' = _ from hdb]
      exact haccount
    obtain ⟨x, hread, tally', hrun', -, hzero⟩ := uploadCsv_eq_ok.mp hsecond
    obtain ⟨-, rfl⟩ := (readUpload_eq_ok hformat hparse haccount').mp hread
    obtain ⟨hall, -⟩ := (storeAll_pass_iff lines hcurrency).mp ⟨hrun', hzero⟩
    exact (hstored.duplicate_iff hempty).mp (hall l hl).2
  · rintro ⟨haccepted, hfits, hpair, hknown⟩
    obtain ⟨⟨tally, db'⟩, hrun, hcount⟩ := (stored_nil.run_iff hempty (hledger haccepted) hids lines
      hcurrency).mpr ⟨⟨hpair, by simp⟩, hfits⟩
    have hstored := stored_nil.run lines hcurrency hrun hcount
    obtain ⟨rows, hdb, hrows, -⟩ := hstored.rows
    have hdb' : db' = { db with bankStatementLines := db.bankStatementLines ++ rows } := hdb
    have haccount' : ∃ a, db'.books.accounts.find? (fun a => a.id = t.account) = some a ∧
        a.currency = t.currency := by
      rw [hdb']
      exact haccount
    have haccepted' : Accepted lib db' auth t.ledger file := by
      rw [hdb']
      exact ⟨haccepted.owner, haccepted.type⟩
    have hdup : ∀ l ∈ lines, Searchable lib l ∧ Duplicate lib db' t.account l := fun l hl =>
      ⟨hfits.searchable l hl, (hstored.duplicate_iff hempty).mpr (hknown l hl)⟩
    obtain ⟨hrun', -⟩ := (@storeAll_pass_iff lib req' _ lines ({}, db') _ hcurrency).mpr
      ⟨hdup, rfl⟩
    refine ⟨db', rows, uploadCsv_eq_ok.mpr ⟨_, (readUpload_eq_ok hformat hparse haccount).mpr
      ⟨haccepted, rfl⟩, tally, hrun, ?_, hcount.trans (Nat.zero_add _)⟩, ?_, hrows,
      uploadCsv_eq_ok.mpr ⟨_, (readUpload_eq_ok hformat hparse haccount').mpr ⟨haccepted', rfl⟩, _,
        hrun', rfl, rfl⟩⟩
    · rw [show tally = _ from hstored.tally]
    · rw [hdb']

end

end

namespace Sample

open OpenAccounting.Sample

def asciiLibraries : Libraries where
  parseDate := Calendar.NaiveDate.parseYmd
  parseDecimal := Decimal.plain.parse
  isAlphanumeric := Char.isAlphanum
  toLowercase c := [c.toLower]
  lower := RustStr.toAsciiLowercase
  infer _ := none
  csvRecords _ := .ok []

def cashAccount : Target where
  ledger := ledgerId
  account := cash
  currency := "USD"

def file (text : String) : File where
  declared := "text/csv"
  filename := "statement.csv"
  text := text

def first (text : String) : Except Refused ℕ × Db :=
  uploadCsv asciiLibraries db (request 1) (some owner) ledgerId cash (some (file text))

/-- An MT940 statement with a payment and, after it, these lines. -/
def mt940 (more : String) : String :=
  ":20:REF01\n:61:2603100310C100,50\n:86:?20ACME GMBH?32INVOICE 42\n" ++ more

def payment : StatementLine where
  date := march 10
  amount := 201 / 2
  payee := "ACME GMBH INVOICE 42"
  memo := some "ACME GMBH INVOICE 42"
  externalId := some "REF01"

/-- The second payment of the statement. -/
def kiosk : StatementLine where
  date := march 11
  amount := -85 / 2
  payee := "KIOSK"
  memo := some "KIOSK"
  externalId := some "REF01"

/-- The characters of a statement.  Its text is long, and to evaluate it is quick on these only. -/
theorem toList_mt940 {first : List Char} (more : List Char)
    (hfirst : ":20:REF01\n:61:2603100310C100,50\n:86:?20ACME GMBH?32INVOICE 42\n".toList = first) :
    (mt940 (String.ofList more)).toList = first ++ more := by
  delta mt940
  exact String.toList_append.trans (congrArg₂ _ hfirst String.toList_ofList)

theorem lines_mt940 : RustStr.lines (mt940 ":20:REF02\n:61:260311D-42,50\n:86:?20KIOSK\n") =
    [":20:REF01", ":61:2603100310C100,50", ":86:?20ACME GMBH?32INVOICE 42", ":20:REF02",
      ":61:260311D-42,50", ":86:?20KIOSK"] := by
  have htext : (mt940 ":20:REF02\n:61:260311D-42,50\n:86:?20KIOSK\n").toList = _ :=
    toList_mt940 _ String.toList_ofList
  rw [RustStr.lines, htext]
  rfl

theorem lines_kiosk : RustStr.lines (mt940 ":61:260311D-42,50\n:86:?20KIOSK\n") =
    [":20:REF01", ":61:2603100310C100,50", ":86:?20ACME GMBH?32INVOICE 42", ":61:260311D-42,50",
      ":86:?20KIOSK"] := by
  have htext : (mt940 ":61:260311D-42,50\n:86:?20KIOSK\n").toList = _ :=
    toList_mt940 _ String.toList_ofList
  rw [RustStr.lines, htext]
  rfl

theorem sniffFormat_mt940 :
    sniffFormat (file (mt940 ":20:REF02\n:61:260311D-42,50\n:86:?20KIOSK\n")).text =
      some .mt940 := by
  have htext : (mt940 ":20:REF02\n:61:260311D-42,50\n:86:?20KIOSK\n").toList = _ :=
    toList_mt940 _ String.toList_ofList
  simp only [file, sniffFormat, sniffHead, containsAny, RustStr.contains, RustStr.startsWith,
    RustStr.toAsciiUppercase, RustStr.lines, String.toList_ofList, htext]
  decide +kernel

theorem sniffFormat_kiosk :
    sniffFormat (file (mt940 ":61:260311D-42,50\n:86:?20KIOSK\n")).text = some .mt940 := by
  have htext : (mt940 ":61:260311D-42,50\n:86:?20KIOSK\n").toList = _ :=
    toList_mt940 _ String.toList_ofList
  simp only [file, sniffFormat, sniffHead, containsAny, RustStr.contains, RustStr.startsWith,
    RustStr.toAsciiUppercase, RustStr.lines, String.toList_ofList, htext]
  decide +kernel

example : sniffFormat "!Type:Bank\n" = some .qif := by
  decide +kernel

theorem parse_mt940 :
    parse asciiLibraries .mt940 (mt940 ":20:REF02\n:61:260311D-42,50\n:86:?20KIOSK\n") .us =
      .ok [payment, { kiosk with externalId := some "REF02" }] := by
  rw [parse, Mt940.parse, lines_mt940]
  decide +kernel

theorem parse_kiosk : parse asciiLibraries .mt940 (mt940 ":61:260311D-42,50\n:86:?20KIOSK\n") .us =
    .ok [payment, kiosk] := by
  rw [parse, Mt940.parse, lines_kiosk]
  decide +kernel

end Sample

open OpenAccounting.Sample Sample in
/-- Two statements, each with a payment under its own reference. -/
theorem complete_iff_mt940 :
    Complete asciiLibraries db (request 1) (request 2) (some owner) cashAccount
      (file (mt940 ":20:REF02\n:61:260311D-42,50\n:86:?20KIOSK\n"))
      [payment, { kiosk with externalId := some "REF02" }] := by
  refine (complete_iff sniffFormat_mt940 parse_mt940 ⟨_, rfl, rfl⟩ (by decide) (by decide)
    (request 2)).mpr
    ⟨⟨⟨owner, rfl, _, rfl⟩, _, rfl⟩, ⟨?_, ?_, ?_, ?_, ?_⟩, ?_, ?_⟩
  · decide
  · decide
  · decide +kernel
  · intro i _ _ b hb
    cases hb
  · decide
  · decide +kernel
  · decide +kernel

/-- A payee that is not written as it is normalized is not found again. -/
example : ¬ TakenFor Sample.asciiLibraries
    { Sample.payment with payee := "ACME--GmbH", externalId := none }
    { Sample.payment with payee := "ACME--GmbH", externalId := none } := by
  decide +kernel

/-- A second payment of the statement is taken for the first one. -/
theorem secondPayment_dropped :
    (parse Sample.asciiLibraries .mt940 (Sample.mt940 ":61:260311D-42,50\n:86:?20KIOSK\n") .us).map
        (fun lines => lines.map StatementLine.amount) = .ok [201 / 2, -85 / 2] ∧
      (Sample.first (Sample.mt940 ":61:260311D-42,50\n:86:?20KIOSK\n")).1 = .ok 1 := by
  have hread : readUpload Sample.asciiLibraries OpenAccounting.Sample.db
      (some OpenAccounting.Sample.owner) OpenAccounting.Sample.ledgerId OpenAccounting.Sample.cash
      (some (Sample.file (Sample.mt940 ":61:260311D-42,50\n:86:?20KIOSK\n"))) =
      .ok (Sample.cashAccount, [.stmt Sample.payment, .stmt Sample.kiosk]) :=
    (readUpload_eq_ok (t := Sample.cashAccount) Sample.sniffFormat_kiosk Sample.parse_kiosk
      ⟨_, rfl, rfl⟩).mpr ⟨⟨⟨_, rfl, _, rfl⟩, _, rfl⟩, rfl⟩
  constructor
  · rw [Sample.parse_kiosk]
    rfl
  · rw [Sample.first, uploadCsv, hread]
    decide +kernel

end OpenAccounting.StatementUpload
