import OpenAccounting.Handlers.Access
import OpenAccounting.Lib.CostLayers
import OpenAccounting.Lib.Relational
import Mathlib.Data.String.Basic
import Mathlib.Order.Bounds.Basic

/-!
# Inventory

`purchase` and `adjust` of `handlers/inventory.rs`.  A purchase adds stock and a cost
layer and books the cost against cash.  An adjustment sets the stock and books the
difference: under FIFO a reduction consumes the oldest layers first, otherwise the
running average applies.

Both handlers check the ledger of the path and then find and update the item by its id
alone.
-/

namespace OpenAccounting

open Calendar Commit Relational Rounding

/-- `ORDER BY code NULLS LAST`. -/
def Account.codeKey (a : Account) : ℕ ×ₗ String :=
  toLex (if a.code.isNone then 1 else 0, a.code.getD "")

namespace Inventory

/-- The form of a purchase.  A field may be missing, and its text may not parse.  The
unit cost comes with its text. -/
structure PurchaseForm where
  quantity : Option (Option ℤ)
  unitCost : Option (Option (ℚ × String))

/-- `AdjustmentForm`, with its date as the parser leaves it. -/
structure AdjustmentForm where
  quantity : ℤ
  reason : String
  adjustmentDate : Option NaiveDate

/-- `SELECT … FROM inventory_items WHERE id = $1`. -/
def findItem (db : Db) (item : Uuid) : Option InventoryItem :=
  db.inventoryItems.find? fun i => i.id = item

/-- `UPDATE inventory_items SET … WHERE id = $1`. -/
def updateItem (db : Db) (item : Uuid) (f : InventoryItem → InventoryItem) : Db :=
  { db with inventoryItems := updateWhere (fun i => i.id = item) f db.inventoryItems }

/-! ## Purchase -/

/-- The cost layer of a purchase. -/
def layerRow (req : Request) (item : Uuid) (quantity : ℤ) (unitCost : ℚ) : InventoryLayer where
  id := req.rowId 0
  itemId := item
  quantity := quantity
  unitCost := unitCost
  remaining := quantity
  purchaseDate := req.today
  createdAt := req.now

/-- `SELECT COALESCE(SUM(remaining * unit_cost), 0) … WHERE remaining > 0`. -/
def layerTotal (db : Db) (item : Uuid) : ℚ :=
  ((db.inventoryLayers.filter fun l => l.itemId = item ∧ 0 < l.remaining).map
    fun l => (l.remaining : ℚ) * l.unitCost).sum

/-- The statements of a purchase on the item and its layers. -/
def receive (db : Db) (req : Request) (item : Uuid) (quantity : ℤ) (unitCost : ℚ) :
    Except SqlError Db := do
  ensure (∀ i ∈ db.inventoryItems, i.id = item → FitsI32 (i.quantityOnHand + quantity))
    .integerOutOfRange
  let db := updateItem db item fun i =>
    { i with quantityOnHand := i.quantityOnHand + quantity, updatedAt := req.now }
  let cost ← okOr (amountColumn unitCost) .numericFieldOverflow
  ensure (∀ l ∈ db.inventoryLayers, l.id ≠ req.rowId 0) (.uniqueViolation "inventory_layers_pkey")
  let db := { db with inventoryLayers := db.inventoryLayers ++ [layerRow req item quantity cost] }
  -- The new average cost.
  let total := layerTotal db item
  let found ← okOr (findItem db item) .rowNotFound
  let average := if 0 < found.quantityOnHand then total / found.quantityOnHand else 0
  let average ← okOr (amountColumn average) .numericFieldOverflow
  .ok (updateItem db item fun i => { i with unitCost := average })

/-- The account that pays: an asset account with cash or bank in its name, or else the
first asset account. -/
def cashAccount (db : Db) (ledger : Uuid) : Option Account :=
  let assets := orderBy Account.codeKey
    (db.books.accounts.filter fun a => a.ledgerId = ledger ∧ a.type = .asset)
  (assets.find? fun a => a.nameContains "cash" || a.nameContains "bank").or assets.head?

/-- The entry of a purchase or an adjustment. -/
def entryRow (req : Request) (user : Uuid) (ledger : Ledger) (date : NaiveDate)
    (description : String) : Transaction where
  id := req.txnId 0
  ledgerId := ledger.id
  txnDate := date
  description := description
  currency := ledger.baseCurrency
  kind := .standard
  createdBy := user
  createdAt := req.now

/-- The two postings of the entry. -/
def entryPostings (req : Request) (debit credit : Uuid) (amount : ℚ) : List PostingRow :=
  [{ id := req.postingId 0 0, transactionId := req.txnId 0, accountId := debit, amount := amount,
     direction := .debit },
    { id := req.postingId 0 1, transactionId := req.txnId 0, accountId := credit, amount := amount,
      direction := .credit }]

def purchase (db : Db) (req : Request) (auth : Option Uuid) (ledger item : Uuid)
    (form : PurchaseForm) : Except AppError Unit × Db :=
  commit db do
    let user ← okOr auth .unauthorized
    let l ← db.ensureWriter user ledger
    let quantity ← okOr form.quantity (.validation "Missing quantity")
    let quantity ← okOr quantity (.validation "Invalid quantity")
    let unitCost ← okOr form.unitCost (.validation "Missing unit_cost")
    let unitCost ← okOr unitCost (.validation "Invalid cost")
    let found ← okOr (findItem db item) .notFound
    let db ← mapError .db (receive db req item quantity unitCost.1)
    let cash ← okOr (cashAccount db ledger) .notFound
    let db ← mapError .db (db.insertEntry
      (entryRow req user l req.today
        ("Inventory purchase: qty " ++ toString quantity ++ " @ " ++ unitCost.2))
      (entryPostings req found.assetAccountId cash.id (unitCost.1 * quantity)))
    .ok ((), db)

/-! ## Adjustment -/

/-- The layers with stock, oldest first. -/
def openLayers (db : Db) (item : Uuid) : List InventoryLayer :=
  orderBy (fun l => toLex (l.purchaseDate, l.createdAt))
    (db.inventoryLayers.filter fun l => l.itemId = item ∧ 0 < l.remaining)

/-- The loop over the layers: what is still needed, and the cost taken so far. -/
def consume : List InventoryLayer → ℤ → ℚ → Db → Except SqlError (ℚ × Db)
  | [], _, cogs, db => .ok (cogs, db)
  | layer :: layers, need, cogs, db =>
    if need = 0 then .ok (cogs, db)
    else do
      let take := min layer.remaining need
      ensure (∀ l ∈ db.inventoryLayers, l.id = layer.id → FitsI32 (l.remaining - take))
        .integerOutOfRange
      consume layers (need - take) (cogs + take * layer.unitCost)
        { db with
          inventoryLayers := updateWhere (fun l => l.id = layer.id)
            (fun l => { l with remaining := l.remaining - take }) db.inventoryLayers }

/-- The change of the stock's value, with the layers it consumes. -/
def costDiff (db : Db) (ledger : Ledger) (item : InventoryItem) (quantity : ℤ) :
    Except SqlError (ℚ × Db) :=
  if ledger.inventoryMethod = .fifo ∧ quantity < 0 then do
    let (cogs, db) ← consume (openLayers db item.id) (wrapI32 (-quantity)) 0 db
    .ok (-cogs, db)
  else .ok (quantity * item.unitCost, db)

/-- An increase debits the stock account, a decrease credits it. -/
def adjustPostings (req : Request) (item : InventoryItem) (diff : ℚ) : List PostingRow :=
  if 0 < diff then entryPostings req item.assetAccountId item.cogsAccountId diff
  else if diff < 0 then entryPostings req item.cogsAccountId item.assetAccountId |diff|
  else []

/-- What an adjustment writes to the item. -/
def adjustItem (req : Request) (newQty : ℤ) (i : InventoryItem) : InventoryItem :=
  { i with quantityOnHand := newQty, updatedAt := req.now }

def adjust (db : Db) (req : Request) (auth : Option Uuid) (ledger item : Uuid)
    (form : AdjustmentForm) : Except AppError Unit × Db :=
  commit db do
    let user ← okOr auth .unauthorized
    let l ← db.ensureWriter user ledger
    let date ← okOr form.adjustmentDate (.validation "Invalid date")
    let found ← okOr (findItem db item) .notFound
    let newQty := wrapI32 (found.quantityOnHand + form.quantity)
    ensure (0 ≤ newQty) (.validation "Cannot reduce below 0")
    let (diff, db) ← mapError .db (costDiff db l found form.quantity)
    let db := updateItem db item (adjustItem req newQty)
    let db ← mapError .db (db.insertEntry
      (entryRow req user l date ("Inventory adjustment: " ++ form.reason))
      (adjustPostings req found diff))
    .ok ((), db)

/-- What `adjust` has read when its database transaction begins. -/
structure AdjustRead where
  user : Uuid
  ledger : Ledger
  date : NaiveDate
  found : InventoryItem
  newQty : ℤ

/-- `adjust` up to its database transaction. -/
def readAdjust (db : Db) (auth : Option Uuid) (ledger item : Uuid) (form : AdjustmentForm) :
    Except AppError AdjustRead := do
  let user ← okOr auth .unauthorized
  let l ← db.ensureWriter user ledger
  let date ← okOr form.adjustmentDate (.validation "Invalid date")
  let found ← okOr (findItem db item) .notFound
  let newQty := wrapI32 (found.quantityOnHand + form.quantity)
  ensure (0 ≤ newQty) (.validation "Cannot reduce below 0")
  .ok ⟨user, l, date, found, newQty⟩

/-- The database transaction of `adjust`. -/
def writeAdjust (db : Db) (req : Request) (item : Uuid) (form : AdjustmentForm)
    (read : AdjustRead) : Except AppError (Unit × Db) := do
  let (diff, db) ← mapError .db (costDiff db read.ledger read.found form.quantity)
  let db := updateItem db item (adjustItem req read.newQty)
  let db ← mapError .db (db.insertEntry
    (entryRow req read.user read.ledger read.date ("Inventory adjustment: " ++ form.reason))
    (adjustPostings req read.found diff))
  .ok ((), db)

/-! ## What they do -/

theorem adjust_eq (db : Db) (req : Request) (auth : Option Uuid) (ledger item : Uuid)
    (form : AdjustmentForm) : adjust db req auth ledger item form =
      commit db (readAdjust db auth ledger item form >>= writeAdjust db req item form) := by
  simp only [adjust, readAdjust, writeAdjust, bind_assoc, ok_bind]

/-- What a purchase writes to the item. -/
def receiveItem (req : Request) (quantity : ℤ) (average : ℚ) (i : InventoryItem) :
    InventoryItem :=
  { i with
    quantityOnHand := i.quantityOnHand + quantity
    updatedAt := req.now
    unitCost := average }

variable {db db' : Db} {item ledger : Uuid} {quantity : ℤ} {req : Request}
  {layers : List InventoryLayer} {auth : Option Uuid} {form : AdjustmentForm}

theorem receive_spec {unitCost : ℚ} (h : receive db req item quantity unitCost = .ok db') :
    ∃ average layers, db' = { db with
      inventoryItems :=
        updateWhere (fun i => i.id = item) (receiveItem req quantity average) db.inventoryItems
      inventoryLayers := layers } := by
  simp only [receive, bind_eq_ok, okOr_eq_ok, ensure_eq_ok] at h
  obtain ⟨-, -, cost, -, -, -, found, -, average, -, h⟩ := h
  cases h
  refine ⟨average, db.inventoryLayers ++ [layerRow req item quantity cost], ?_⟩
  simp only [updateItem]
  rw [updateWhere_updateWhere]
  · rfl
  · exact fun _ hi => hi

theorem consume_spec {need : ℤ} {cogs : ℚ} {r : ℚ × Db} (h : consume layers need cogs db = .ok r) :
    ∃ rest, r.2 = { db with inventoryLayers := rest } := by
  induction layers generalizing need cogs db with
  | nil =>
    cases h
    exact ⟨db.inventoryLayers, rfl⟩
  | cons layer layers ih =>
    rw [consume] at h
    split at h
    · cases h
      exact ⟨db.inventoryLayers, rfl⟩
    · rw [bind_eq_ok] at h
      obtain ⟨-, -, h⟩ := h
      obtain ⟨rest, hrest⟩ := ih h
      exact ⟨rest, hrest⟩

theorem costDiff_spec {ledger : Ledger} {item : InventoryItem} {r : ℚ × Db}
    (h : costDiff db ledger item quantity = .ok r) :
    ∃ rest, r.2 = { db with inventoryLayers := rest } := by
  rw [costDiff] at h
  split at h
  · rw [bind_eq_ok] at h
    obtain ⟨r', hconsume, h⟩ := h
    cases h
    obtain ⟨rest, hrest⟩ := consume_spec hconsume
    exact ⟨rest, hrest⟩
  · cases h
    exact ⟨db.inventoryLayers, rfl⟩

theorem entryPostings_transactionId {debit credit : Uuid} {amount : ℚ} :
    ∀ r ∈ entryPostings req debit credit amount, r.transactionId = req.txnId 0 := by
  simp [entryPostings]

theorem adjustPostings_transactionId {item : InventoryItem} {diff : ℚ} :
    ∀ r ∈ adjustPostings req item diff, r.transactionId = req.txnId 0 := by
  intro r hr
  rw [adjustPostings] at hr
  split at hr
  · exact entryPostings_transactionId r hr
  · split at hr
    · exact entryPostings_transactionId r hr
    · cases hr

/-- An accepted purchase: the item's row and an entry of the ledger of the path.  Nothing
is bought for nothing. -/
theorem purchase_ok {form : PurchaseForm}
    (h : purchase db req auth ledger item form = (.ok (), db')) :
    ∃ quantity average layers t ps b', form.quantity = some (some quantity) ∧ quantity ≠ 0 ∧
      t.ledgerId = ledger ∧ Books.Posts db.books b' t ps ∧ db' = { db with
        books := b'
        inventoryItems :=
          updateWhere (fun i => i.id = item) (receiveItem req quantity average) db.inventoryItems
        inventoryLayers := layers } := by
  rw [purchase, commit_eq_ok] at h
  simp only [bind_eq_ok, okOr_eq_ok, mapError_eq_ok] at h
  obtain ⟨user, -, l, hl, oq, hform, quantity, rfl, oc, -, cost, -, found, -, db₂, hreceive,
    cash, -, db₃, hentry, h⟩ := h
  cases h
  obtain ⟨average, layers, rfl⟩ := receive_spec hreceive
  obtain ⟨-, b', ps, rfl, hposts, hstored, -⟩ :=
    Db.insertEntry_spec (fun r hr => entryPostings_transactionId r hr) hentry
  have hid : l.id = ledger := by
    simpa using List.find?_some (Db.ensureWriter_related hl).1
  refine ⟨quantity, average, layers, _, ps, b', hform, ?_, hid, hposts, rfl⟩
  rintro rfl
  -- A total of zero does not pass the `CHECK` of a posting.
  cases hstored with
  | @cons _ p _ _ hp _ =>
    have hamount : p.amount = roundDp 4 (cost.1 * ((0 : ℤ) : ℚ)) := hp.amount
    have hpos := p.amount_pos
    rw [hamount, Int.cast_zero, mul_zero, roundDp_of_hasScale ⟨0, by simp⟩] at hpos
    exact lt_irrefl 0 hpos

theorem readAdjust_ok {read : AdjustRead} (h : readAdjust db auth ledger item form = .ok read) :
    findItem db item = some read.found ∧ db.findLedger ledger = some read.ledger ∧
      read.newQty = wrapI32 (read.found.quantityOnHand + form.quantity) ∧ 0 ≤ read.newQty := by
  simp only [readAdjust, bind_eq_ok, okOr_eq_ok, ensure_eq_ok] at h
  obtain ⟨user, -, l, hl, date, -, found, hfound, -, hqty, h⟩ := h
  cases h
  exact ⟨hfound, (Db.ensureWriter_related hl).1, rfl, hqty⟩

/-- The transaction of an adjustment writes the item's row, its layers and an entry. -/
theorem writeAdjust_ok {read : AdjustRead} {u : Unit}
    (h : writeAdjust db req item form read = .ok (u, db')) :
    ∃ layers t ps b', t.ledgerId = read.ledger.id ∧ Books.Posts db.books b' t ps ∧
      db' = { db with
        books := b'
        inventoryItems :=
          updateWhere (fun i => i.id = item) (adjustItem req read.newQty) db.inventoryItems
        inventoryLayers := layers } := by
  simp only [writeAdjust, bind_eq_ok, mapError_eq_ok] at h
  obtain ⟨⟨diff, db₂⟩, hdiff, db₃, hentry, h⟩ := h
  cases h
  obtain ⟨layers, rfl⟩ : ∃ layers, db₂ = { db with inventoryLayers := layers } :=
    costDiff_spec hdiff
  obtain ⟨-, b', ps, rfl, hposts, -, -⟩ :=
    Db.insertEntry_spec (fun r hr => adjustPostings_transactionId r hr) hentry
  exact ⟨layers, _, ps, b', rfl, hposts, rfl⟩

/-- An accepted adjustment: the item's row and an entry of the ledger of the path. -/
theorem adjust_ok (h : adjust db req auth ledger item form = (.ok (), db')) :
    ∃ found layers t ps b', findItem db item = some found ∧ t.ledgerId = ledger ∧
      Books.Posts db.books b' t ps ∧ db' = { db with
        books := b'
        inventoryItems := updateWhere (fun i => i.id = item)
          (adjustItem req (wrapI32 (found.quantityOnHand + form.quantity))) db.inventoryItems
        inventoryLayers := layers } := by
  rw [adjust_eq, commit_eq_ok, bind_eq_ok] at h
  obtain ⟨read, hread, hwrite⟩ := h
  obtain ⟨hfound, hledger, hqty, -⟩ := readAdjust_ok hread
  obtain ⟨layers, t, ps, b', ht, hposts, rfl⟩ := writeAdjust_ok hwrite
  have hid : read.ledger.id = ledger := by simpa using List.find?_some hledger
  exact ⟨read.found, layers, t, ps, b', hfound, ht.trans hid, hposts, by rw [hqty]⟩

/-! ## Layers -/

/-- Quantity and unit cost of a layer. -/
def costs (l : InventoryLayer) : ℤ × ℚ := (l.remaining, l.unitCost)

/-- The layer has stock of the item. -/
def Open (item : Uuid) (l : InventoryLayer) : Prop := l.itemId = item ∧ 0 < l.remaining

instance (item : Uuid) (l : InventoryLayer) : Decidable (Open item l) := by
  unfold Open
  infer_instance

/-- When a layer was bought. -/
def layerKey (l : InventoryLayer) : NaiveDate ×ₗ ℤ := toLex (l.purchaseDate, l.createdAt)

/-- The layers of the item stand in the order of their purchase. -/
def InPurchaseOrder (item : Uuid) (rows : List InventoryLayer) : Prop :=
  (rows.filter fun l => l.itemId = item).Pairwise fun a b => layerKey a ≤ layerKey b

/-- The row of a layer after the loop has taken `need` from the layers. -/
def drain : List InventoryLayer → ℤ → InventoryLayer → InventoryLayer
  | [], _, l => l
  | layer :: layers, need, l =>
    if need = 0 then l
    else drain layers (need - min layer.remaining need)
      (if l.id = layer.id then { l with remaining := l.remaining - min layer.remaining need }
        else l)

theorem consume_eq {need : ℤ} {cogs : ℚ} {r : ℚ × Db} (h : consume layers need cogs db = .ok r) :
    r = (cogs + CostLayers.drawn (layers.map costs) need,
      { db with inventoryLayers := db.inventoryLayers.map (drain layers need) }) := by
  induction layers generalizing need cogs db with
  | nil =>
    cases h
    simp [CostLayers.drawn, drain]
  | cons layer layers ih =>
    rw [consume] at h
    split at h
    · next hneed =>
        cases h
        subst hneed
        simp [CostLayers.drawn, drain]
    · next hneed =>
        rw [bind_eq_ok] at h
        obtain ⟨-, -, h⟩ := h
        rw [ih h, List.map_cons, CostLayers.drawn, if_neg hneed, updateWhere, List.map_map,
          add_assoc]
        congr 2
        refine List.map_congr_left fun l _ => ?_
        simp only [Function.comp_apply, drain, if_neg hneed]

theorem drain_eq (layers : List InventoryLayer) (need : ℤ) (l : InventoryLayer) :
    ∃ left, drain layers need l = { l with remaining := left } := by
  induction layers generalizing need l with
  | nil => exact ⟨l.remaining, rfl⟩
  | cons layer layers ih =>
    rw [drain]
    split
    · exact ⟨l.remaining, rfl⟩
    · obtain ⟨left, hleft⟩ := ih (need - min layer.remaining need)
        (if l.id = layer.id then { l with remaining := l.remaining - min layer.remaining need }
          else l)
      refine ⟨left, ?_⟩
      rw [hleft]
      split <;> rfl

theorem drain_of_not_mem {l : InventoryLayer} (h : ∀ layer ∈ layers, l.id ≠ layer.id) (need : ℤ) :
    drain layers need l = l := by
  induction layers generalizing need with
  | nil => rfl
  | cons layer layers ih =>
    rw [drain, if_neg (h layer List.mem_cons_self),
      ih fun m hm => h m (List.mem_cons_of_mem _ hm)]
    split <;> rfl

theorem map_costs_drain (hkeyed : (layers.map InventoryLayer.id).Nodup) (need : ℤ) :
    (layers.map (drain layers need)).map costs = CostLayers.draw (layers.map costs) need := by
  induction layers generalizing need with
  | nil => rfl
  | cons layer layers ih =>
    rw [List.map_cons, List.nodup_cons] at hkeyed
    obtain ⟨hfirst, hrest⟩ := hkeyed
    have hne : ∀ l ∈ layers, layer.id ≠ l.id :=
      fun l hl heq => hfirst (heq ▸ List.mem_map_of_mem hl)
    rw [List.map_cons, List.map_cons, List.map_cons, CostLayers.draw]
    by_cases hneed : need = 0
    · rw [if_pos hneed]
      subst hneed
      have hsame : ∀ l, drain (layer :: layers) 0 l = l := fun l => by rw [drain, if_pos rfl]
      simp [hsame]
    · rw [if_neg hneed, ← ih hrest]
      congr 1
      · let left : InventoryLayer :=
          { layer with remaining := layer.remaining - min layer.remaining need }
        have hleft : ∀ l ∈ layers, left.id ≠ l.id := hne
        rw [drain, if_neg hneed, if_pos rfl, drain_of_not_mem hleft]
        rfl
      · congr 1
        refine List.map_congr_left fun l hl => ?_
        rw [drain, if_neg hneed, if_neg (hne l hl).symm]
        rfl

/-- In the order of purchase the open layers are in the order of the table. -/
theorem openLayers_eq (h : InPurchaseOrder item db.inventoryLayers) :
    openLayers db item = db.inventoryLayers.filter fun l => Open item l := by
  rw [openLayers, orderBy]
  refine List.Pairwise.insertionSort_eq ?_
  refine h.sublist ?_
  have hfilter : db.inventoryLayers.filter (fun l => decide (l.itemId = item ∧ 0 < l.remaining)) =
      (db.inventoryLayers.filter fun l => l.itemId = item).filter fun l => 0 < l.remaining := by
    rw [List.filter_filter]
    refine List.filter_congr fun l _ => ?_
    simp [and_comm]
  rw [hfilter]
  exact List.filter_sublist

theorem openLayers_drain {need : ℤ} (horder : InPurchaseOrder item db.inventoryLayers)
    (hkeyed : (db.inventoryLayers.map InventoryLayer.id).Nodup)
    (h : db'.inventoryLayers = db.inventoryLayers.map (drain (openLayers db item) need)) :
    InPurchaseOrder item db'.inventoryLayers ∧
      (openLayers db' item).map costs =
        CostLayers.remaining (CostLayers.draw ((openLayers db item).map costs) need) := by
  have hsame := drain_eq (openLayers db item) need
  have hmem : ∀ l ∈ db.inventoryLayers, l.itemId = item → ¬ 0 < l.remaining →
      drain (openLayers db item) need l = l := by
    intro l hl hid hempty
    refine drain_of_not_mem (fun layer hlayer heq => hempty ?_) need
    rw [openLayers_eq horder, List.mem_filter] at hlayer
    rw [List.inj_on_of_nodup_map hkeyed hl hlayer.1 heq]
    exact (of_decide_eq_true hlayer.2).2
  have hordered : InPurchaseOrder item db'.inventoryLayers := by
    rw [InPurchaseOrder, h, List.filter_map, List.pairwise_map]
    have hids : (fun l : InventoryLayer => decide (l.itemId = item)) ∘
        drain (openLayers db item) need = fun l => decide (l.itemId = item) := by
      funext l
      obtain ⟨left, hleft⟩ := hsame l
      rw [Function.comp_apply, hleft]
    rw [hids]
    refine horder.imp fun {a b} hab => ?_
    obtain ⟨lefta, ha⟩ := hsame a
    obtain ⟨leftb, hb⟩ := hsame b
    rw [ha, hb]
    exact hab
  refine ⟨hordered, ?_⟩
  have hopen : (openLayers db item).Sublist db.inventoryLayers := by
    rw [openLayers_eq horder]
    exact List.filter_sublist
  rw [← map_costs_drain (hkeyed.sublist (hopen.map _)), CostLayers.remaining, List.filter_map,
    List.filter_map, openLayers_eq hordered, h, List.filter_map]
  congr 2
  -- A row that is open after the sale was open before it.
  conv_rhs => rw [openLayers_eq horder]
  rw [List.filter_filter]
  refine List.filter_congr fun l hl => ?_
  obtain ⟨left, hleft⟩ := hsame l
  have hstays : Open item (drain (openLayers db item) need l) → 0 < l.remaining := by
    rintro ⟨hid, hpos⟩
    by_contra hempty
    rw [hleft] at hid
    rw [hmem l hl hid hempty] at hpos
    exact hempty hpos
  rw [← openLayers_eq horder, Function.comp_apply, Function.comp_apply, Function.comp_apply,
    Bool.eq_iff_iff, Bool.and_eq_true, decide_eq_true_iff, decide_eq_true_iff, decide_eq_true_iff]
  rw [hleft] at hstays ⊢
  exact ⟨fun hnew => ⟨hnew.2, hnew.1, hstays hnew⟩, fun hold => ⟨hold.2.1, hold.1⟩⟩

/-- The cost of a change: under FIFO a reduction draws it from the layers. -/
theorem costDiff_cases {ledger : Ledger} {item : InventoryItem} {diff : ℚ}
    (h : costDiff db ledger item quantity = .ok (diff, { db with inventoryLayers := layers })) :
    (ledger.inventoryMethod = .fifo ∧ quantity < 0 ∧
        diff = -CostLayers.drawn ((openLayers db item.id).map costs) (wrapI32 (-quantity)) ∧
        layers = db.inventoryLayers.map (drain (openLayers db item.id) (wrapI32 (-quantity)))) ∨
      (¬ (ledger.inventoryMethod = .fifo ∧ quantity < 0) ∧ diff = quantity * item.unitCost ∧
        layers = db.inventoryLayers) := by
  rw [costDiff] at h
  split at h
  · next hmethod =>
      rw [bind_eq_ok] at h
      obtain ⟨r, hconsume, h⟩ := h
      rw [consume_eq hconsume, zero_add] at h
      injection h with h
      rw [Prod.mk.injEq] at h
      exact .inl ⟨hmethod.1, hmethod.2, h.1.symm, congrArg Db.inventoryLayers h.2.symm⟩
  · next hmethod =>
      injection h with h
      rw [Prod.mk.injEq] at h
      exact .inr ⟨hmethod, h.1.symm, congrArg Db.inventoryLayers h.2.symm⟩

/-! ## What they do to the layers -/

/-- The database after a purchase is received: the item has the quantity and a new average, and
there is one more layer. -/
structure Received (db db' : Db) (req : Request) (item : Uuid) (quantity : ℤ) (unitCost stored : ℚ)
    (found : InventoryItem) (average : ℚ) : Prop where
  cost_stored : amountColumn unitCost = some stored
  layer_fresh : ∀ l ∈ db.inventoryLayers, l.id ≠ req.rowId 0
  stock_fits : ∀ i ∈ db.inventoryItems, i.id = item → FitsI32 (i.quantityOnHand + quantity)
  item_found : findItem db item = some found
  average_stored : amountColumn (if 0 < found.quantityOnHand + quantity then
    layerTotal
      { db with inventoryLayers := db.inventoryLayers ++ [layerRow req item quantity stored] }
      item / ((found.quantityOnHand + quantity : ℤ) : ℚ) else 0) = some average
  items_eq : db'.inventoryItems =
    updateWhere (fun i => i.id = item) (receiveItem req quantity average) db.inventoryItems
  layers_eq : db'.inventoryLayers = db.inventoryLayers ++ [layerRow req item quantity stored]
  ledgers_eq : db'.ledgers = db.ledgers

theorem receive_received {unitCost : ℚ} (h : receive db req item quantity unitCost = .ok db') :
    ∃ stored found average, Received db db' req item quantity unitCost stored found average := by
  simp only [receive, bind_eq_ok, okOr_eq_ok, ensure_eq_ok] at h
  obtain ⟨-, hfits, stored, hstored, -, hfresh, found', hfound', average, haverage, h⟩ := h
  cases h
  let add : InventoryItem → InventoryItem :=
    fun i => { i with quantityOnHand := i.quantityOnHand + quantity, updatedAt := req.now }
  have hupdated : (updateWhere (fun i : InventoryItem => i.id = item) add db.inventoryItems).find?
      (fun i => i.id = item) = some found' := hfound'
  rw [find?_updateWhere (f := add) fun _ => rfl, Option.map_eq_some_iff] at hupdated
  obtain ⟨found, hfound, rfl⟩ := hupdated
  have hid : found.id = item := (mem_of_find?_key hfound).2
  rw [if_pos hid] at haverage
  refine ⟨stored, found, average, hstored, hfresh, hfits, hfound, haverage, ?_, rfl, rfl⟩
  simp only [updateItem]
  rw [updateWhere_updateWhere]
  · rfl
  · exact fun _ hi => hi

theorem purchase_received {form : PurchaseForm}
    (h : purchase db req auth ledger item form = (.ok (), db')) :
    ∃ quantity unitCost stored found average, form.quantity = some (some quantity) ∧
      form.unitCost = some (some unitCost) ∧
      Received db db' req item quantity unitCost.1 stored found average := by
  rw [purchase, commit_eq_ok] at h
  simp only [bind_eq_ok, okOr_eq_ok, mapError_eq_ok] at h
  obtain ⟨user, -, l, -, _, hquantity, quantity, rfl, _, hcost, cost, rfl, found, -, db₂, hreceive,
    cash, -, db₃, hentry, h⟩ := h
  cases h
  obtain ⟨stored, found', average, hreceived⟩ := receive_received hreceive
  obtain ⟨-, b', ps, rfl, -⟩ :=
    Db.insertEntry_spec (fun r hr => entryPostings_transactionId r hr) hentry
  exact ⟨quantity, cost, stored, found', average, hquantity, hcost, { hreceived with }⟩

/-- The debits that were posted to an account. -/
def postedTo (account : Uuid) (db db' : Db) : ℚ :=
  Posting.sumOn .debit ((db'.books.postings.drop db.books.postings.length).filter
    fun p => p.accountId = account)

theorem sumOn_adjustPostings {item : InventoryItem} {diff : ℚ} {ps : List Posting}
    (hstored : List.Forall₂ PostingRow.Stored (adjustPostings req item diff) ps)
    (hdiff : diff ≤ 0) (hscale : HasScale 4 diff) :
    Posting.sumOn .debit (ps.filter fun p => p.accountId = item.cogsAccountId) = -diff := by
  rw [adjustPostings, if_neg (not_lt.mpr hdiff)] at hstored
  split at hstored
  · next hneg =>
      simp only [entryPostings] at hstored
      obtain ⟨debit, rest, hdebit, hrest, rfl⟩ := List.forall₂_cons_left_iff.mp hstored
      obtain ⟨credit, none, hcredit, hnone, rfl⟩ := List.forall₂_cons_left_iff.mp hrest
      cases hnone
      have hamount : debit.amount = -diff := by
        rw [hdebit.amount, roundDp_of_hasScale hscale.abs, abs_of_neg hneg]
      have haccount : debit.accountId = item.cogsAccountId := hdebit.accountId
      have hside : debit.direction = .debit := hdebit.direction
      have hother : credit.direction = .credit := hcredit.direction
      rw [List.filter_cons_of_pos (by simpa using haccount), Posting.sumOn_cons, if_pos hside,
        hamount, List.filter_cons]
      split
      · simp [hother]
      · simp
  · next hzero =>
      cases hstored
      have : diff = 0 := le_antisymm hdiff (not_lt.mp hzero)
      simp [this]

/-- The database after a reduction. -/
structure Reduced (db db' : Db) (req : Request) (item : Uuid) (quantity : ℤ) (ledger : Ledger)
    (found : InventoryItem) (diff : ℚ) (layers : List InventoryLayer) : Prop where
  item_found : findItem db item = some found
  covered : 0 ≤ wrapI32 (found.quantityOnHand + quantity)
  diff_eq : costDiff db ledger found quantity = .ok (diff, { db with inventoryLayers := layers })
  items_eq : db'.inventoryItems = updateWhere (fun i => i.id = item)
    (adjustItem req (wrapI32 (found.quantityOnHand + quantity))) db.inventoryItems
  layers_eq : db'.inventoryLayers = layers
  ledgers_eq : db'.ledgers = db.ledgers
  posted : diff ≤ 0 → HasScale 4 diff → postedTo found.cogsAccountId db db' = -diff

theorem adjust_reduced (h : adjust db req auth ledger item form = (.ok (), db')) :
    ∃ l found diff layers, db.findLedger ledger = some l ∧
      Reduced db db' req item form.quantity l found diff layers := by
  rw [adjust_eq, commit_eq_ok, bind_eq_ok] at h
  obtain ⟨read, hread, hwrite⟩ := h
  obtain ⟨hfound, hledger, hqty, hpos⟩ := readAdjust_ok hread
  simp only [writeAdjust, bind_eq_ok, mapError_eq_ok] at hwrite
  obtain ⟨⟨diff, db₂⟩, hdiff, db₃, hentry, hwrite⟩ := hwrite
  cases hwrite
  obtain ⟨layers, rfl⟩ : ∃ layers, db₂ = { db with inventoryLayers := layers } :=
    costDiff_spec hdiff
  obtain ⟨-, b', ps, rfl, hposts, hstored, -⟩ :=
    Db.insertEntry_spec (fun r hr => adjustPostings_transactionId r hr) hentry
  refine ⟨read.ledger, read.found, diff, layers, hledger, hfound, hqty ▸ hpos, hdiff,
    by rw [← hqty]; rfl, rfl, rfl, fun hneg hscale => ?_⟩
  rw [postedTo, hposts.postings]
  show Posting.sumOn _ (((db.books.postings ++ ps).drop db.books.postings.length).filter _) = _
  rw [List.drop_left, sumOn_adjustPostings hstored hneg hscale]

end Inventory

end OpenAccounting
