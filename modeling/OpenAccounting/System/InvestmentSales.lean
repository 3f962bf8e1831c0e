import OpenAccounting.Domain.InvestmentLot
import OpenAccounting.Lib.Threads
import OpenAccounting.System.JournalOps

/-!
# Sales of investment lots

Calls of `insert_lot` and `fifo_match` run interleaved.  Each iteration of a sell is two steps: it
selects the oldest lot with something left, and then inserts a disposal.  Nothing locks the lot in
between, and no constraint bounds the sum of its disposals.

A lot is never over-sold exactly when what other sells take from it between the two steps leaves
enough for the disposal (`Spared`).  Without other sells in between this is always so (`spared_of_unsold`).
-/

namespace OpenAccounting.InvestmentLots

open Commit Relational Rounding

/-- Where a call is. -/
inductive Place where
  | idle
  /-- `fifo_match` before the first statement of an iteration. -/
  | selecting (sale : Sale) (remaining : ℚ)
  /-- `fifo_match` with the lot of the iteration. -/
  | inserting (sale : Sale) (remaining : ℚ) (selected : Selected)

/-- One action: a call arrives, or goes on. -/
inductive Action where
  | insertLot (lot : InvestmentLot)
  | sell (sale : Sale)
  | select
  /-- The insert, with the id that is drawn for the disposal. -/
  | insert (id : Uuid)

/-- The head of the loop. -/
def Place.loop (sale : Sale) (remaining : ℚ) : Place :=
  if 0 < remaining then .selecting sale remaining else .idle

/-- The steps of the two functions. -/
def act (_ : ℕ) (db : Db) : Place → Action → Db × Place
  | .idle, .insertLot lot =>
    match insertLot db lot with
    | .ok db' => (db', .idle)
    | .error _ => (db, .idle)
  | .idle, .sell sale => (db, .loop sale sale.sellQty)
  | .selecting sale remaining, .select =>
    match select db sale with
    | some selected => (db, .inserting sale remaining selected)
    | none => (db, .idle)
  | .inserting sale remaining selected, .insert id =>
    match insertDisposal db (disposalRow id sale selected remaining) with
    | .ok db' => (db', .loop sale (remaining - selected.take remaining))
    | .error _ => (db, .idle)
  | place, _ => (db, place)

/-- Everything that is under way. -/
abbrev State := Threads.State ℕ Db Place

/-- A call takes its next action. -/
def step : State → ℕ × Action → State := Threads.step act

/-- No lot has been sold for more than it has. -/
def NotOversold (db : Db) : Prop := ∀ l ∈ db.investmentLots, sold db l.id ≤ l.qty

/-! ## The condition -/

/-- What the disposal takes of the lot is still available. -/
def Spared (db : Db) (selected : Selected) (remaining : ℚ) : Prop :=
  ∀ l ∈ db.investmentLots, l.id = selected.lotId →
    roundDp 8 (selected.take remaining) ≤ available db l

instance (db : Db) (selected : Selected) (remaining : ℚ) :
    Decidable (Spared db selected remaining) := by
  unfold Spared
  infer_instance

/-- A disposal that is inserted finds its lot spared. -/
def Undisturbed (s : State) : ℕ × Action → Prop
  | (n, .insert id) =>
    match s.place n with
    | .inserting sale remaining selected =>
      (insertDisposal s.shared (disposalRow id sale selected remaining)).isOk →
        Spared s.shared selected remaining
    | .idle | .selecting .. => True
  | _ => True

/-! ## Steps -/

/-- The keys of the two tables. -/
structure Keyed (db : Db) : Prop where
  lots : (db.investmentLots.map InvestmentLot.id).Nodup
  lot_fk : ∀ d ∈ db.investmentDisposals, d.lotId ∈ db.investmentLots.map InvestmentLot.id

theorem sold_concat (db : Db) (d : InvestmentDisposal) (lot : Uuid) :
    sold { db with investmentDisposals := db.investmentDisposals ++ [d] } lot =
      sold db lot + if d.lotId = lot then d.qty else 0 := by
  rw [sold, sold, List.filter_append, List.map_append, List.sum_append]
  by_cases hd : d.lotId = lot
  · simp [hd]
  · simp [hd]

theorem insertLot_keyed {db db' : Db} (hkeyed : Keyed db) {lot : InvestmentLot}
    (h : insertLot db lot = .ok db') : Keyed db' := by
  obtain ⟨k, -, -, hfresh, rfl⟩ := insertLot_ok h
  refine ⟨nodup_map_concat.mpr ⟨hkeyed.lots, hfresh⟩, fun d hd => ?_⟩
  rw [List.map_append]
  exact List.mem_append_left _ (hkeyed.lot_fk d hd)

theorem insertLot_notOversold {db db' : Db} (hkeyed : Keyed db) (hsold : NotOversold db)
    {lot : InvestmentLot} (h : insertLot db lot = .ok db') : NotOversold db' := by
  obtain ⟨k, -, hpos, hfresh, rfl⟩ := insertLot_ok h
  rw [NotOversold, List.forall_mem_append, List.forall_mem_singleton]
  refine ⟨hsold, ?_⟩
  have hnone : db.investmentDisposals.filter (fun d => d.lotId = k.id) = [] := by
    rw [List.filter_eq_nil_iff]
    intro d hd
    obtain ⟨j, hj, hid⟩ := List.mem_map.mp (hkeyed.lot_fk d hd)
    simpa [← hid] using hfresh j hj
  show ((db.investmentDisposals.filter fun d => d.lotId = k.id).map _).sum ≤ k.qty
  rw [hnone]
  exact hpos.le

theorem insertDisposal_keyed {db db' : Db} (hkeyed : Keyed db) {d : InvestmentDisposal}
    (h : insertDisposal db d = .ok db') : Keyed db' := by
  obtain ⟨k, hlot, -, ⟨l, hl, hid⟩, rfl⟩ := insertDisposal_ok h
  refine ⟨hkeyed.lots, ?_⟩
  rw [List.forall_mem_append, List.forall_mem_singleton, hlot, ← hid]
  exact ⟨hkeyed.lot_fk, List.mem_map_of_mem hl⟩

/-- A disposal oversells no lot exactly if what it takes is still available. -/
theorem insertDisposal_notOversold_iff {db db' : Db} (hsold : NotOversold db) {id : Uuid}
    {sale : Sale}
    {selected : Selected} {remaining : ℚ}
    (h : insertDisposal db (disposalRow id sale selected remaining) = .ok db') :
    NotOversold db' ↔ Spared db selected remaining := by
  obtain ⟨k, hlot, hqty, -, rfl⟩ := insertDisposal_ok h
  rw [NotOversold, Spared]
  refine forall₂_congr fun l hl => ?_
  rw [sold_concat, hlot, hqty, available]
  show sold db l.id + (if selected.lotId = l.id then roundDp 8 (selected.take remaining) else 0) ≤
    l.qty ↔ _
  by_cases hid : l.id = selected.lotId
  · rw [if_pos hid.symm]
    constructor
    · intro hle _
      linarith
    · intro hspared
      have := hspared hid
      linarith
  · rw [if_neg (Ne.symm hid), add_zero]
    exact ⟨fun _ heq => absurd heq hid, fun _ => hsold l hl⟩

theorem spared_of_unsold {db : Db} {selected : Selected} {remaining : ℚ}
    (hscale : HasScale 8 selected.available)
    (hsame : ∀ l ∈ db.investmentLots, l.id = selected.lotId → available db l = selected.available) :
    Spared db selected remaining := by
  intro l hl hid
  have htake : selected.take remaining ≤ selected.available := by
    unfold Selected.take
    split
    · exact le_rfl
    · next hmore => exact le_of_not_ge hmore
  rw [hsame l hl hid]
  exact roundDp_le hscale htake

/-- An action leaves the database alone, inserts a lot, or inserts the disposal of an iteration. -/
theorem act_cases (n : ℕ) (db : Db) (place : Place) (a : Action) :
    ((act n db place a).1 = db ∧ ∀ sale remaining selected id,
        place = .inserting sale remaining selected → a = .insert id →
          ¬ (insertDisposal db (disposalRow id sale selected remaining)).isOk) ∨
      (∃ lot, a = .insertLot lot ∧ insertLot db lot = .ok (act n db place a).1) ∨
      ∃ sale remaining selected id, place = .inserting sale remaining selected ∧ a = .insert id ∧
        insertDisposal db (disposalRow id sale selected remaining) = .ok (act n db place a).1 := by
  unfold act
  split
  · split
    · next db' hinsert => exact Or.inr (Or.inl ⟨_, rfl, hinsert⟩)
    · exact Or.inl ⟨rfl, fun _ _ _ _ hplace => by cases hplace⟩
  · exact Or.inl ⟨rfl, fun _ _ _ _ hplace => by cases hplace⟩
  · split <;> exact Or.inl ⟨rfl, fun _ _ _ _ hplace => by cases hplace⟩
  · split
    · next db' hinsert => exact Or.inr (Or.inr ⟨_, _, _, _, rfl, rfl, hinsert⟩)
    · next e hinsert =>
        refine Or.inl ⟨rfl, fun _ _ _ _ hplace haction => ?_⟩
        cases hplace
        cases haction
        rw [hinsert]
        simp [Except.isOk, Except.toBool]
  · next hother =>
      refine Or.inl ⟨rfl, fun _ _ _ _ hplace haction => ?_⟩
      exact absurd haction (hother _ _ _ _ hplace)

/-- A step oversells no lot exactly if it is undisturbed. -/
theorem step_notOversold_iff {s : State} (hkeyed : Keyed s.shared) (h : NotOversold s.shared)
    (m : ℕ × Action) : NotOversold (step s m).shared ↔ Undisturbed s m := by
  obtain ⟨n, a⟩ := m
  show NotOversold (act n s.shared (s.place n) a).1 ↔ Undisturbed s (n, a)
  rcases act_cases n s.shared (s.place n) a with
    ⟨hsame, hrefused⟩ | ⟨lot, rfl, hinsert⟩ | ⟨sale, remaining, selected, id, hplace, rfl, hinsert⟩
  · rw [hsame]
    refine ⟨fun _ => ?_, fun _ => h⟩
    cases a with
    | insert id =>
      cases hplace : s.place n with
      | idle | selecting => simp [Undisturbed, hplace]
      | inserting sale remaining selected =>
        simp only [Undisturbed, hplace]
        exact fun hok => absurd hok (hrefused sale remaining selected id hplace rfl)
    | insertLot | sell | select => trivial
  · exact ⟨fun _ => trivial, fun _ => insertLot_notOversold hkeyed h hinsert⟩
  · have hok : (insertDisposal s.shared (disposalRow id sale selected remaining)).isOk := by
      rw [hinsert]
      rfl
    simp only [Undisturbed, hplace]
    rw [hplace] at hinsert
    exact (insertDisposal_notOversold_iff h hinsert).trans
      ⟨fun hspared _ => hspared, fun hspared => hspared hok⟩

theorem step_keyed {s : State} (hkeyed : Keyed s.shared) (m : ℕ × Action) :
    Keyed (step s m).shared := by
  obtain ⟨n, a⟩ := m
  show Keyed (act n s.shared (s.place n) a).1
  rcases act_cases n s.shared (s.place n) a with ⟨hsame, -⟩ | ⟨lot, -, hinsert⟩ |
    ⟨sale, remaining, selected, id, -, -, hinsert⟩
  · rw [hsame]
    exact hkeyed
  · exact insertLot_keyed hkeyed hinsert
  · exact insertDisposal_keyed hkeyed hinsert

/-! ## Runs -/

/-- No call is under way, and no lot is over-sold. -/
structure Fresh (s : State) : Prop where
  idle : ∀ n, s.place n = .idle
  keyed : Keyed s.shared
  notOversold : NotOversold s.shared

/-- In an interleaving no lot is ever over-sold exactly when each disposal that is inserted finds
its lot spared. -/
theorem notOversold_iff_undisturbed {s : State} {actions : List (ℕ × Action)} (h : Fresh s) :
    (∀ s' ∈ Runs.visited step s actions, NotOversold s'.shared) ↔
      Runs.Meets step Undisturbed s actions :=
  Runs.forall_visited_iff_meets (P := fun s : State => NotOversold s.shared)
    (Q := fun s : State => Keyed s.shared) (fun _ m hkeyed => step_keyed hkeyed m)
    (fun _ m hkeyed hsold => step_notOversold_iff hkeyed hsold m) h.keyed h.notOversold

instance (s : State) : (m : ℕ × Action) → Decidable (Undisturbed s m)
  | (_, .insertLot _) | (_, .sell _) | (_, .select) => inferInstanceAs (Decidable True)
  | (n, .insert id) =>
    match hplace : s.place n with
    | .inserting sale remaining selected => decidable_of_iff
        ((insertDisposal s.shared (disposalRow id sale selected remaining)).isOk →
          Spared s.shared selected remaining) (by rw [Undisturbed, hplace])
    | .idle | .selecting .. => .isTrue (by rw [Undisturbed, hplace]; trivial)

namespace Sample

open OpenAccounting.Sample

/-- The purchase and the sales of the shares. -/
def trade : Transaction where
  id := 81
  ledgerId := ledgerId
  txnDate := march 2
  description := "Shares"
  currency := "USD"
  kind := .standard
  createdBy := owner

def lot : InvestmentLot where
  id := 82
  accountId := cash
  acquiredAt := march 2
  qty := 100
  unitCost := 5
  currency := "USD"
  sourceTxnId := trade.id

theorem trade_fresh : trade.id ∉ OpenAccounting.Sample.db.books.txnIds := by decide

def start : State where
  shared :=
    { OpenAccounting.Sample.db with
      books := OpenAccounting.Sample.db.books.addTxn trade trade_fresh
      investmentLots := [lot] }
  place _ := .idle

theorem start_fresh : Fresh start where
  idle _ := rfl
  keyed := ⟨List.nodup_singleton _, by simp [start, OpenAccounting.Sample.db]⟩
  notOversold := by
    unfold NotOversold
    decide

def sale : Sale where
  accountId := cash
  sellQty := 80
  unitProceeds := 6
  disposedAt := march 9
  sourceTxnId := trade.id

/-- Two sells select the lot before one of them inserts its disposal. -/
def overlapping : List (ℕ × Action) :=
  [(0, .sell sale), (1, .sell sale), (0, .select), (1, .select), (0, .insert 83), (1, .insert 84)]

/-- The second sell comes afterwards and gets what is left. -/
def inTurn : List (ℕ × Action) :=
  [(0, .sell sale), (0, .select), (0, .insert 83), (1, .sell sale), (1, .select), (1, .insert 84),
    (1, .select)]

end Sample

/-- Of 100 shares 160 are sold. -/
theorem overlapping_oversold :
    Fresh Sample.start ∧
      sold (Runs.exec step Sample.start Sample.overlapping).shared Sample.lot.id = 160 ∧
      ¬ NotOversold (Runs.exec step Sample.start Sample.overlapping).shared := by
  refine ⟨Sample.start_fresh, by decide +kernel, ?_⟩
  unfold NotOversold
  decide +kernel

theorem notOversold_iff_undisturbed_inTurn :
    NotOversold (Runs.exec step Sample.start Sample.inTurn).shared := by
  have hcalm : Runs.Meets step Undisturbed Sample.start Sample.inTurn := by
    refine ⟨trivial, trivial, ?_, trivial, trivial, ?_, trivial, trivial⟩ <;> decide +kernel
  exact (notOversold_iff_undisturbed Sample.start_fresh).mpr hcalm _ (Runs.exec_mem_visited _ _)

end OpenAccounting.InvestmentLots
