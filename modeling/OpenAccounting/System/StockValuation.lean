import OpenAccounting.Domain.InventoryValuation
import OpenAccounting.System.StockMovements

/-!
# Stock valuation

Purchases and sales run one after the other, on any items and through any ledgers.  For one item the
costs that its sales have posted are compared with the value that `valuate` gives its movements.

A layer keeps four decimals of a unit cost, the valuation all of them, so a purchase at a finer
cost sets the two apart (`ExactCosts`).  Otherwise the open layers under FIFO are the layers of the
valuation, and the two agree.  Under the running average a sale leaves the layers alone, and the
next purchase divides the cost of everything ever bought by what is on hand.  So they agree exactly
when a sale finds nothing sold before the last purchase (`NothingSold`), or nothing that has cost
anything.
-/

namespace OpenAccounting.InventoryValuation

open Calendar Commit Inventory Relational Rounding

/-- The database, the movements of one item, what its sales have posted to its cost account, and how
much of that was posted before its last purchase. -/
structure Valued where
  db : Db
  movements : List Movement := []
  cogs : ℚ := 0
  soldBefore : ℚ := 0

/-- One request.  The quantity of an adjustment is an `i32`. -/
inductive Action where
  | purchase (req : Request) (auth : Option Uuid) (ledger item : Uuid) (form : PurchaseForm)
  | adjust (req : Request) (auth : Option Uuid) (ledger item : Uuid) (form : AdjustmentForm)
      (fits : FitsI32 form.quantity)

def cost (form : PurchaseForm) : ℚ := ((form.unitCost.bind id).map Prod.fst).getD 0

/-- The debits that a request has posted to the cost account of the item. -/
def posted (item : Uuid) (db db' : Db) : ℚ :=
  (findItem db item).elim 0 fun i => postedTo i.cogsAccountId db db'

/-- A request and, if it succeeds on the item, the movement. -/
def step (item : Uuid) (s : Valued) : Action → Valued
  | .purchase req auth ledger other form =>
    match Inventory.purchase s.db req auth ledger other form with
    | (.error _, db) => { s with db := db }
    | (.ok _, db) =>
      if other = item then
        { s with
          db := db
          movements := s.movements ++ [⟨form.amount, cost form⟩]
          soldBefore := s.cogs }
      else { s with db := db }
  | .adjust req auth ledger other form _ =>
    match Inventory.adjust s.db req auth ledger other form with
    | (.error _, db) => { s with db := db }
    | (.ok _, db) =>
      if other = item then
        { s with
          db := db
          movements := s.movements ++ [⟨form.quantity, 0⟩]
          cogs := s.cogs + posted item s.db db }
      else { s with db := db }

/-- The stock has the quantity of the valuation, and the sales have cost what the purchases have
cost without its value. -/
def Agrees (method : InventoryMethod) (item : Uuid) (s : Valued) : Prop :=
  match valuate method s.movements with
  | .ok (quantity, value) =>
    StockIs s.db item quantity ∧ s.cogs = purchaseCost s.movements - value
  | .error _ => False

/-! ## The condition -/

/-- Something is bought, not before the item's other layers, and under the running average the
division comes out even. -/
structure InOrder (method : InventoryMethod) (item : Uuid) (db : Db) (req : Request)
    (form : PurchaseForm) : Prop where
  amount_pos : 0 < form.amount
  cost_nonneg : 0 ≤ cost form
  latest : ∀ l ∈ db.inventoryLayers, l.itemId = item → layerKey l ≤ toLex (req.today, req.now)
  average_exact : method = .average → ∀ i ∈ db.inventoryItems, i.id = item →
    HasScale 4 ((layerTotal db item + form.amount * cost form) /
      ((i.quantityOnHand + form.amount : ℤ) : ℚ))

/-- The requests on the item are purchases in the order of their dates and sales, under the method,
and divisions are exact. -/
def Ordinary (method : InventoryMethod) (item : Uuid) (s : Valued) : Action → Prop
  | .purchase req auth ledger other form => other = item →
      (Inventory.purchase s.db req auth ledger other form).1.isOk →
        InOrder method item s.db req form
  | .adjust _ _ ledger other form _ => other = item →
      form.quantity < 0 ∧ ∀ l ∈ s.db.ledgers, l.id = ledger → l.inventoryMethod = method

/-- What a purchase of the item costs a piece fits the column of its layer. -/
def ExactCosts (item : Uuid) (s : Valued) : Action → Prop
  | .purchase req auth ledger other form => other = item →
      (Inventory.purchase s.db req auth ledger other form).1.isOk → HasScale 4 (cost form)
  | .adjust .. => True

/-- A sale at the running average finds that what was sold before the last purchase had cost
nothing. -/
def NothingSold (method : InventoryMethod) (item : Uuid) (s : Valued) : Action → Prop
  | .purchase .. => True
  | .adjust req auth ledger other form _ => method = .average → other = item →
      (Inventory.adjust s.db req auth ledger other form).1.isOk → s.soldBefore = 0

/-! ## Requests on other items -/

variable {item other : Uuid} {db db' : Db} {req : Request} {quantity : ℤ}

structure SameStock (item : Uuid) (db db' : Db) : Prop where
  items_eq : db'.inventoryItems.filter (fun i => i.id = item) =
    db.inventoryItems.filter fun i => i.id = item
  layers_eq : db'.inventoryLayers.filter (fun l => l.itemId = item) =
    db.inventoryLayers.filter fun l => l.itemId = item

theorem SameStock.forall_items (h : SameStock item db db') {P : InventoryItem → Prop} :
    (∀ i ∈ db'.inventoryItems, i.id = item → P i) ↔ ∀ i ∈ db.inventoryItems, i.id = item → P i := by
  have hfilter : ∀ d : Db, (∀ i ∈ d.inventoryItems, i.id = item → P i) ↔
      ∀ i ∈ d.inventoryItems.filter (fun i => i.id = item), P i := by
    simp [List.mem_filter]
  rw [hfilter, hfilter, h.items_eq]

theorem SameStock.forall_layers (h : SameStock item db db') {P : InventoryLayer → Prop} :
    (∀ l ∈ db'.inventoryLayers, l.itemId = item → P l) ↔
      ∀ l ∈ db.inventoryLayers, l.itemId = item → P l := by
  have hfilter : ∀ d : Db, (∀ l ∈ d.inventoryLayers, l.itemId = item → P l) ↔
      ∀ l ∈ d.inventoryLayers.filter (fun l => l.itemId = item), P l := by
    simp [List.mem_filter]
  rw [hfilter, hfilter, h.layers_eq]

theorem SameStock.open_eq (h : SameStock item db db') :
    (db'.inventoryLayers.filter fun l => l.itemId = item ∧ 0 < l.remaining) =
      db.inventoryLayers.filter fun l => l.itemId = item ∧ 0 < l.remaining := by
  have hfilter : ∀ d : Db, (d.inventoryLayers.filter fun l => l.itemId = item ∧ 0 < l.remaining) =
      (d.inventoryLayers.filter fun l => l.itemId = item).filter fun l => 0 < l.remaining := by
    intro d
    rw [List.filter_filter]
    refine List.filter_congr fun l _ => ?_
    simp [and_comm]
  rw [hfilter, hfilter, h.layers_eq]

theorem SameStock.openLayers (h : SameStock item db db') :
    openLayers db' item = openLayers db item := by
  rw [Inventory.openLayers, Inventory.openLayers, h.open_eq]

theorem SameStock.layerTotal (h : SameStock item db db') :
    layerTotal db' item = layerTotal db item := by
  rw [Inventory.layerTotal, Inventory.layerTotal, h.open_eq]

theorem filter_updateWhere_other {items : List InventoryItem} {f : InventoryItem → InventoryItem}
    (hf : ∀ i, (f i).id = i.id) (hne : other ≠ item) :
    (updateWhere (fun i => i.id = other) f items).filter (fun i => i.id = item) =
      items.filter fun i => i.id = item := by
  refine filter_updateWhere_of_not fun i _ hid => ?_
  rw [hf, hid]
  exact ⟨hne, hne⟩

variable {average diff stored : ℚ} {found : InventoryItem} {layers : List InventoryLayer}
  {ledger : Ledger} {form : PurchaseForm} {total : ℤ × ℚ}

theorem received_sameStock {unitCost : ℚ}
    (h : Received db db' req other quantity unitCost stored found average) (hne : other ≠ item) :
    SameStock item db db' where
  items_eq := by
    rw [h.items_eq]
    exact filter_updateWhere_other (fun _ => rfl) hne
  layers_eq := by
    rw [h.layers_eq, List.filter_append, List.filter_singleton]
    simp [layerRow, hne]

theorem received_keyed {unitCost : ℚ}
    (h : Received db db' req item quantity unitCost stored found average)
    (hkeyed : (db.inventoryLayers.map InventoryLayer.id).Nodup) :
    (db'.inventoryLayers.map InventoryLayer.id).Nodup := by
  rw [h.layers_eq]
  exact nodup_map_concat.mpr ⟨hkeyed, h.layer_fresh⟩

theorem map_drain_other (hkeyed : (db.inventoryLayers.map InventoryLayer.id).Nodup)
    (hne : other ≠ item)
    (need : ℤ) {l : InventoryLayer} (hl : l ∈ db.inventoryLayers) (hid : l.itemId = item) :
    drain (openLayers db other) need l = l := by
  refine drain_of_not_mem (fun layer hlayer heq => hne ?_) need
  rw [Inventory.openLayers, mem_orderBy, List.mem_filter, decide_eq_true_iff] at hlayer
  rw [← hlayer.2.1, ← hid, List.inj_on_of_nodup_map hkeyed hl hlayer.1 heq]

/-- The layers after an adjustment are the layers before it, drawn from or not. -/
theorem reduced_layers (h : Reduced db db' req item quantity ledger found diff layers) :
    ∃ draw : InventoryLayer → InventoryLayer, layers = db.inventoryLayers.map draw ∧
      (draw = id ∨ draw = drain (openLayers db item) (wrapI32 (-quantity))) := by
  have hid : found.id = item := (mem_of_find?_key h.item_found).2
  rcases costDiff_cases h.diff_eq with ⟨-, -, -, hlayers⟩ | ⟨-, -, hlayers⟩
  · rw [hid] at hlayers
    exact ⟨_, hlayers, .inr rfl⟩
  · exact ⟨id, by rw [hlayers, List.map_id], .inl rfl⟩

theorem reduced_sameStock (h : Reduced db db' req other quantity ledger found diff layers)
    (hkeyed : (db.inventoryLayers.map InventoryLayer.id).Nodup) (hne : other ≠ item) :
    SameStock item db db' := by
  refine ⟨?_, ?_⟩
  · rw [h.items_eq]
    exact filter_updateWhere_other (fun _ => rfl) hne
  · obtain ⟨draw, hlayers, hdraw⟩ := reduced_layers h
    rw [h.layers_eq, hlayers]
    rcases hdraw with rfl | rfl
    · rw [List.map_id]
    · have hids : (fun l : InventoryLayer => decide (l.itemId = item)) ∘
          drain (openLayers db other) (wrapI32 (-quantity)) =
        fun l => decide (l.itemId = item) := by
        funext l
        obtain ⟨left, hleft⟩ := drain_eq (openLayers db other) (wrapI32 (-quantity)) l
        rw [Function.comp_apply, hleft]
      rw [List.filter_map, hids]
      refine (List.map_congr_left fun l hl => ?_).trans (List.map_id _)
      rw [List.mem_filter, decide_eq_true_iff] at hl
      exact map_drain_other hkeyed hne _ hl.1 hl.2

theorem reduced_keyed (h : Reduced db db' req item quantity ledger found diff layers)
    (hkeyed : (db.inventoryLayers.map InventoryLayer.id).Nodup) :
    (db'.inventoryLayers.map InventoryLayer.id).Nodup := by
  obtain ⟨draw, hlayers, hdraw⟩ := reduced_layers h
  have hids : InventoryLayer.id ∘ draw = InventoryLayer.id := by
    funext l
    rcases hdraw with rfl | rfl
    · rfl
    · obtain ⟨left, hleft⟩ := drain_eq (openLayers db item) (wrapI32 (-quantity)) l
      rw [Function.comp_apply, hleft]
  rw [h.layers_eq, hlayers, List.map_map, hids]
  exact hkeyed

/-! ## FIFO -/

/-- The item's layers in the order of their sale. -/
def stockLayers (db : Db) (item : Uuid) : CostLayers.Layers := (openLayers db item).map costs

/-- The open layers of the item are the layers of the valuation. -/
structure FifoKept (item : Uuid) (s : Valued) : Prop where
  ordered : InPurchaseOrder item s.db.inventoryLayers
  exact : ∀ l ∈ s.db.inventoryLayers, l.itemId = item → 0 ≤ l.unitCost ∧ HasScale 4 l.unitCost
  movements : s.movements.foldlM moveFifo [] = .ok (stockLayers s.db item)
  stock : StockIs s.db item (CostLayers.quantity (stockLayers s.db item))
  fits : FitsI32 (CostLayers.quantity (stockLayers s.db item))
  cogs : s.cogs = purchaseCost s.movements - CostLayers.value (stockLayers s.db item)

theorem FifoKept.agrees {s : Valued} (h : FifoKept item s) : Agrees .fifo item s := by
  simp only [Agrees, valuate, valuateFifo, h.movements, bind, Except.bind, onHand,
    wrapI32_of_fits h.fits]
  exact ⟨h.stock, h.cogs⟩

theorem FifoKept.sameStock {s : Valued} (h : FifoKept item s) (hsame : SameStock item s.db db') :
    FifoKept item { s with db := db' } := by
  have hlayers : stockLayers db' item = stockLayers s.db item := by
    rw [stockLayers, stockLayers, hsame.openLayers]
  refine ⟨?_, hsame.forall_layers.mpr h.exact, ?_, ?_, ?_, ?_⟩
  · rw [InPurchaseOrder, hsame.layers_eq]
    exact h.ordered
  · rw [hlayers]
    exact h.movements
  · rw [hlayers]
    exact hsame.forall_items.mpr h.stock
  · rw [hlayers]
    exact h.fits
  · rw [hlayers]
    exact h.cogs

theorem stockLayers_nonneg {l : ℤ × ℚ} (hl : l ∈ stockLayers db item) :
    ∃ layer ∈ db.inventoryLayers, layer.itemId = item ∧ 0 < layer.remaining ∧ costs layer = l := by
  obtain ⟨layer, hlayer, rfl⟩ := List.mem_map.mp hl
  rw [Inventory.openLayers, mem_orderBy, List.mem_filter, decide_eq_true_iff] at hlayer
  exact ⟨layer, hlayer.1, hlayer.2.1, hlayer.2.2, rfl⟩

theorem hasScale_drawn {layers : CostLayers.Layers} (h : ∀ l ∈ layers, HasScale 4 l.2) (need : ℤ) :
    HasScale 4 (CostLayers.drawn layers need) := by
  induction layers generalizing need with
  | nil => exact hasScale_zero 4
  | cons l layers ih =>
    rw [CostLayers.drawn]
    split
    · exact hasScale_zero 4
    · exact ((h l List.mem_cons_self).int_mul _).add
        (ih (fun m hm => h m (List.mem_cons_of_mem _ hm)) _)

/-- A purchase of an exact unit cost is the last layer on both sides. -/
theorem FifoKept.purchase {s : Valued} (h : FifoKept item s)
    (horder : InOrder .fifo item s.db req form) (hexact : HasScale 4 (cost form))
    (hreceived : Received s.db db' req item form.amount (cost form) stored found average) :
    FifoKept item { s with
      db := db'
      movements := s.movements ++ [⟨form.amount, cost form⟩]
      soldBefore := s.cogs } := by
  have hstored : stored = cost form := numeric_of_hasScale hexact hreceived.cost_stored
  have hdb : db'.inventoryLayers =
      s.db.inventoryLayers ++ [layerRow req item form.amount (cost form)] := by
    rw [hreceived.layers_eq, hstored]
  have hordered : InPurchaseOrder item db'.inventoryLayers := by
    rw [InPurchaseOrder, hdb, List.filter_append, List.pairwise_append]
    refine ⟨h.ordered, by simp [layerRow], fun a ha b hb => ?_⟩
    rw [List.mem_filter, decide_eq_true_iff] at ha
    obtain rfl : b = layerRow req item form.amount (cost form) := by
      simpa [layerRow] using (List.mem_filter.mp hb).1
    exact horder.latest a ha.1 ha.2
  have hlayers : stockLayers db' item = stockLayers s.db item ++ [(form.amount, cost form)] := by
    have hopen : Open item (layerRow req item form.amount (cost form)) := ⟨rfl, horder.amount_pos⟩
    rw [stockLayers, stockLayers, openLayers_eq hordered, openLayers_eq h.ordered, hdb,
      List.filter_append, List.map_append, List.filter_cons_of_pos (by simpa using hopen)]
    rfl
  have hquantity : CostLayers.quantity (stockLayers db' item) =
      CostLayers.quantity (stockLayers s.db item) + form.amount := by
    rw [hlayers]
    simp
  have hfound := mem_of_find?_key hreceived.item_found
  refine ⟨hordered, ?_, ?_, ?_, ?_, ?_⟩
  · rw [hdb, List.forall_mem_append, List.forall_mem_singleton]
    exact ⟨h.exact, fun _ => ⟨horder.cost_nonneg, hexact⟩⟩
  · rw [foldlM_concat h.movements, moveFifo_purchase _ horder.amount_pos, hlayers]
  · rw [hquantity, StockIs, hreceived.items_eq]
    refine (forall_stock_updateWhere (f := receiveItem req form.amount average)
      (P := fun q => q = _) fun _ => rfl).mpr fun i hi hid => ?_
    rw [← h.stock i hi hid]
    rfl
  · rw [hquantity, ← h.stock found hfound.1 hfound.2]
    exact hreceived.stock_fits found hfound.1 hfound.2
  · rw [purchaseCost_purchase horder.amount_pos, hlayers, CostLayers.value_append, h.cogs]
    simp

theorem posted_eq (h : Reduced db db' req item quantity ledger found diff layers)
    (hdiff : diff ≤ 0) (hscale : HasScale 4 diff) : posted item db db' = -diff := by
  rw [posted, h.item_found]
  exact h.posted hdiff hscale

theorem wrapI32_onHand {stock : ℤ} (hfits : FitsI32 stock) (hquantity : FitsI32 quantity)
    (hnonneg : 0 ≤ stock) (hcovered : 0 ≤ wrapI32 (stock + quantity)) :
    wrapI32 (stock + quantity) = stock + quantity ∧ 0 ≤ stock + quantity := by
  have heq := wrapI32_add hfits hquantity hnonneg hcovered
  exact ⟨heq, heq ▸ hcovered⟩

/-- A sale takes of the layers what the valuation takes. -/
theorem FifoKept.sale {s : Valued} (h : FifoKept item s)
    (hkeyed : (s.db.inventoryLayers.map InventoryLayer.id).Nodup) (hneg : quantity < 0)
    (hfits : FitsI32 quantity) (hmethod : ledger.inventoryMethod = .fifo)
    (hreduced : Reduced s.db db' req item quantity ledger found diff layers) :
    FifoKept item { s with
      db := db'
      movements := s.movements ++ [⟨quantity, 0⟩]
      cogs := s.cogs + posted item s.db db' } := by
  have hfound := mem_of_find?_key hreduced.item_found
  have hstock := h.stock found hfound.1 hfound.2
  have hpos : ∀ l ∈ stockLayers s.db item, 0 ≤ l.1 := by
    intro l hl
    obtain ⟨layer, -, -, hpos, rfl⟩ := stockLayers_nonneg hl
    exact hpos.le
  have hcosts : ∀ l ∈ stockLayers s.db item, (0 ≤ l.1 ∧ 0 ≤ l.2) ∧ HasScale 4 l.2 := by
    intro l hl
    obtain ⟨layer, hmem, hid, -, rfl⟩ := stockLayers_nonneg hl
    exact ⟨⟨hpos _ hl, (h.exact layer hmem hid).1⟩, (h.exact layer hmem hid).2⟩
  have hcovered := hreduced.covered
  rw [hstock] at hcovered
  obtain ⟨hleft, hcovered⟩ := wrapI32_onHand h.fits hfits (CostLayers.quantity_nonneg hpos) hcovered
  obtain ⟨hneed, -⟩ := wrapI32_sale hneg h.fits hcovered
  obtain ⟨-, -, hdiff, hlayers⟩ | ⟨hnot, -⟩ := costDiff_cases hreduced.diff_eq
  swap
  · exact absurd ⟨hmethod, hneg⟩ hnot
  rw [hneed, hfound.2] at hdiff hlayers
  obtain ⟨hordered, hopen⟩ :=
    openLayers_drain h.ordered hkeyed (hreduced.layers_eq.trans hlayers)
  have hdrawn : 0 ≤ CostLayers.drawn (stockLayers s.db item) (-quantity) :=
    CostLayers.drawn_nonneg (fun l hl => (hcosts l hl).1) (by omega)
  have hposted : posted item s.db db' = CostLayers.drawn (stockLayers s.db item) (-quantity) := by
    rw [posted_eq hreduced (by rw [hdiff]; exact neg_nonpos.mpr hdrawn)
      (by rw [hdiff]; exact (hasScale_drawn (fun l hl => (hcosts l hl).2) _).neg), hdiff, neg_neg]
    rfl
  have hopen : stockLayers db' item =
    CostLayers.remaining (CostLayers.draw (stockLayers s.db item) (-quantity)) := hopen
  have hdraw := CostLayers.draw_nonneg hpos (-quantity)
  have hquantity : CostLayers.quantity (stockLayers db' item) =
      CostLayers.quantity (stockLayers s.db item) + quantity := by
    rw [hopen, CostLayers.quantity_remaining hdraw,
      CostLayers.quantity_draw hpos (by omega) (by omega)]
    omega
  refine ⟨hordered, ?_, ?_, ?_, ?_, ?_⟩
  · rw [hreduced.layers_eq, hlayers, List.forall_mem_map]
    intro l hl
    obtain ⟨left, hleft⟩ := drain_eq (openLayers s.db item) (-quantity) l
    rw [hleft]
    exact h.exact l hl
  · rw [foldlM_concat h.movements, moveFifo_sale hneg h.fits hcovered, hopen]
  · rw [hquantity, StockIs, hreduced.items_eq]
    refine (forall_stock_updateWhere (f := adjustItem req _) (P := fun q => q = _)
      fun _ => rfl).mpr fun i hi hid => ?_
    show wrapI32 (found.quantityOnHand + quantity) = _
    rw [hstock, hleft]
  · rw [hquantity, ← hleft]
    exact fitsI32_wrapI32 _
  · rw [purchaseCost_sale hneg, hposted, hopen, CostLayers.value_remaining hdraw,
      CostLayers.value_draw, h.cogs]
    ring

/-! ## The running average -/

/-- The layers keep everything that was bought, and the average is their cost over what was on hand
after the last purchase.  The valuation has the same average but for what was sold before. -/
structure AverageKept (item : Uuid) (s : Valued) (total : ℤ × ℚ) : Prop where
  movements : s.movements.foldlM moveAverage (0, 0) = .ok total
  stock : StockIs s.db item total.1
  fits : FitsI32 total.1
  nonneg : 0 ≤ total.1
  bought : layerTotal s.db item = purchaseCost s.movements
  bought_nonneg : 0 ≤ purchaseCost s.movements
  average : ∀ i ∈ s.db.inventoryItems, i.id = item → 0 < total.1 →
    0 ≤ i.unitCost ∧ HasScale 4 i.unitCost ∧
      ∃ onHand : ℚ, 0 < onHand ∧ total.2 * onHand = (i.unitCost * onHand - s.soldBefore) * total.1

theorem AverageKept.agrees_iff {s : Valued} (h : AverageKept item s total) :
    Agrees .average item s ↔ s.cogs = purchaseCost s.movements - total.2 := by
  simp only [Agrees, valuate, valuateAverage, h.movements]
  exact and_iff_right h.stock

theorem AverageKept.sameStock {s : Valued} (h : AverageKept item s total)
    (hsame : SameStock item s.db db') : AverageKept item { s with db := db' } total where
  movements := h.movements
  stock := hsame.forall_items.mpr h.stock
  fits := h.fits
  nonneg := h.nonneg
  bought := hsame.layerTotal.trans h.bought
  bought_nonneg := h.bought_nonneg
  average := hsame.forall_items.mpr h.average

theorem layerTotal_concat (req : Request) (hpos : 0 < quantity) (unitCost : ℚ) :
    layerTotal { db with
      inventoryLayers := db.inventoryLayers ++ [layerRow req item quantity unitCost] } item =
        layerTotal db item + quantity * unitCost := by
  rw [Inventory.layerTotal, Inventory.layerTotal, List.filter_append, List.map_append,
    List.sum_append]
  simp [layerRow, hpos]

/-- A purchase averages as the valuation does, but for what was sold before. -/
theorem AverageKept.purchase {s : Valued} (h : AverageKept item s total)
    (hcogs : s.cogs = purchaseCost s.movements - total.2)
    (horder : InOrder .average item s.db req form) (hexact : HasScale 4 (cost form))
    (hreceived : Received s.db db' req item form.amount (cost form) stored found average) :
    AverageKept item { s with
      db := db'
      movements := s.movements ++ [⟨form.amount, cost form⟩]
      soldBefore := s.cogs } (total.1 + form.amount, total.2 + form.amount * cost form) := by
  have hpos := horder.amount_pos
  have hfound := mem_of_find?_key hreceived.item_found
  have hstock := h.stock found hfound.1 hfound.2
  have hnonneg := h.nonneg
  have honHand : 0 < total.1 + form.amount := by omega
  have hstored : stored = cost form := numeric_of_hasScale hexact hreceived.cost_stored
  have hfits : FitsI32 (total.1 + form.amount) := by
    rw [← hstock]
    exact hreceived.stock_fits found hfound.1 hfound.2
  have htotal : layerTotal s.db item + form.amount * cost form =
      purchaseCost (s.movements ++ [⟨form.amount, cost form⟩]) := by
    rw [h.bought, purchaseCost_purchase hpos]
  have hbought : 0 ≤ purchaseCost (s.movements ++ [⟨form.amount, cost form⟩]) := by
    have hamount : (0 : ℚ) < form.amount := by exact_mod_cast hpos
    rw [purchaseCost_purchase hpos]
    exact add_nonneg h.bought_nonneg (mul_nonneg hamount.le horder.cost_nonneg)
  have hdivides := horder.average_exact rfl found hfound.1 hfound.2
  have haverage := hreceived.average_stored
  rw [hstock] at hdivides haverage
  rw [if_pos honHand, hstored, layerTotal_concat req hpos] at haverage
  have haverage : average = _ := numeric_of_hasScale hdivides haverage
  have hquotient : (0 : ℚ) < ((total.1 + form.amount : ℤ) : ℚ) := by exact_mod_cast honHand
  refine ⟨?_, ?_, hfits, honHand.le, ?_, hbought, ?_⟩
  · rw [foldlM_concat h.movements, moveAverage_purchase hpos hfits]
  · rw [StockIs, hreceived.items_eq]
    refine (forall_stock_updateWhere (f := receiveItem req form.amount average)
      (P := fun q => q = _) fun _ => rfl).mpr fun i hi hid => ?_
    rw [← h.stock i hi hid]
    rfl
  · rw [← htotal, ← layerTotal_concat req hpos, Inventory.layerTotal, hreceived.layers_eq, hstored]
    rfl
  · rw [hreceived.items_eq]
    refine (forall_updateWhere (f := receiveItem req form.amount average) fun _ => Iff.rfl).mpr
      fun i _ _ _ => ?_
    show 0 ≤ average ∧ HasScale 4 average ∧ _
    rw [haverage]
    refine ⟨?_, hdivides, _, hquotient, ?_⟩
    · rw [htotal]
      exact div_nonneg hbought hquotient.le
    · show (total.2 + form.amount * cost form) * _ =
        ((layerTotal s.db item + form.amount * cost form) / _ * _ - s.cogs) * _
      rw [div_mul_cancel₀ _ hquotient.ne', hcogs, h.bought]
      ring

/-- A sale keeps the average, and agrees with the valuation exactly when nothing that was sold
before the last purchase has cost anything. -/
theorem AverageKept.sale {s : Valued} (h : AverageKept item s total)
    (hcogs : s.cogs = purchaseCost s.movements - total.2) (hneg : quantity < 0)
    (hfits : FitsI32 quantity) (hmethod : ledger.inventoryMethod = .average)
    (hreduced : Reduced s.db db' req item quantity ledger found diff layers) :
    let next : Valued := { s with
      db := db'
      movements := s.movements ++ [⟨quantity, 0⟩]
      cogs := s.cogs + posted item s.db db' }
    (∃ rest, AverageKept item next rest) ∧ (Agrees .average item next ↔ s.soldBefore = 0) := by
  intro next
  have hfound := mem_of_find?_key hreduced.item_found
  have hstock := h.stock found hfound.1 hfound.2
  have hcovered := hreduced.covered
  rw [hstock] at hcovered
  obtain ⟨hleft, hcovered⟩ := wrapI32_onHand h.fits hfits h.nonneg hcovered
  have hpos : 0 < total.1 := by omega
  have htotal : (0 : ℚ) < total.1 := by exact_mod_cast hpos
  have hquantity : (quantity : ℚ) < 0 := by exact_mod_cast hneg
  obtain ⟨hfifo, -⟩ | ⟨-, hdiff, hlayers⟩ := costDiff_cases hreduced.diff_eq
  · rw [hmethod] at hfifo
    cases hfifo
  obtain ⟨hcost, hscale, onHand, honHand, hshare⟩ := h.average found hfound.1 hfound.2 hpos
  have hposted : posted item s.db db' = -(quantity * found.unitCost) := by
    rw [posted_eq hreduced (by rw [hdiff]; exact mul_nonpos_of_nonpos_of_nonneg hquantity.le hcost)
      (by rw [hdiff]; exact hscale.int_mul _), hdiff]
  have hnext : AverageKept item next
      (total.1 + quantity, total.2 + quantity * (total.2 / total.1)) := by
    refine ⟨?_, ?_, ?_, hcovered, ?_, ?_, ?_⟩
    · rw [foldlM_concat h.movements, moveAverage_sale hneg h.fits hcovered]
    · rw [StockIs, hreduced.items_eq]
      refine (forall_stock_updateWhere (f := adjustItem req _) (P := fun q => q = _)
        fun _ => rfl).mpr fun i hi hid => ?_
      show wrapI32 (found.quantityOnHand + quantity) = _
      rw [hstock, hleft]
    · rw [← hleft]
      exact fitsI32_wrapI32 _
    · rw [purchaseCost_sale hneg, ← h.bought, Inventory.layerTotal, hreduced.layers_eq, hlayers]
      rfl
    · rw [purchaseCost_sale hneg]
      exact h.bought_nonneg
    · rw [hreduced.items_eq]
      refine (forall_updateWhere (f := adjustItem req _) fun _ => Iff.rfl).mpr fun i hi hid _ => ?_
      obtain ⟨hcost, hscale, onHand, honHand, hshare⟩ := h.average i hi hid hpos
      refine ⟨hcost, hscale, onHand, honHand, ?_⟩
      show (total.2 + quantity * (total.2 / total.1)) * onHand =
        (i.unitCost * onHand - s.soldBefore) * ((total.1 + quantity : ℤ) : ℚ)
      have hscaled : (total.2 + quantity * (total.2 / total.1)) * onHand =
          total.2 * onHand * (total.1 + quantity) / total.1 := by
        field_simp
      rw [hscaled, hshare]
      push_cast
      field_simp
  refine ⟨⟨_, hnext⟩, hnext.agrees_iff.trans ?_⟩
  show s.cogs + posted item s.db db' =
    purchaseCost (s.movements ++ [⟨quantity, 0⟩]) - (total.2 + quantity * (total.2 / total.1)) ↔ _
  rw [purchaseCost_sale hneg, hposted, hcogs]
  have hshift : purchaseCost s.movements - total.2 + -(quantity * found.unitCost) =
      purchaseCost s.movements - (total.2 + quantity * (total.2 / total.1)) ↔
        found.unitCost * total.1 = total.2 := by
    rw [← eq_div_iff htotal.ne']
    refine Iff.trans ?_ (mul_right_inj' hquantity.ne)
    constructor
    · intro heq
      linarith
    · intro heq
      linarith
  rw [hshift]
  constructor
  · intro hsame
    have hzero : s.soldBefore * total.1 = 0 := by
      rw [← hsame] at hshare
      linarith
    exact (mul_eq_zero.mp hzero).resolve_right htotal.ne'
  · intro hzero
    rw [hzero, sub_zero] at hshare
    refine mul_right_cancel₀ honHand.ne' ?_
    linarith

/-! ## Steps -/

/-- What holds in every run whose sales agree so far. -/
structure Kept (method : InventoryMethod) (item : Uuid) (s : Valued) : Prop where
  keyed : (s.db.inventoryLayers.map InventoryLayer.id).Nodup
  fifo : method = .fifo → FifoKept item s
  average : method = .average → ∃ total, AverageKept item s total

variable {method : InventoryMethod} {s : Valued}

theorem Kept.sameStock (h : Kept method item s) (hagrees : Agrees method item s)
    (hsame : SameStock item s.db db') (hkeyed : (db'.inventoryLayers.map InventoryLayer.id).Nodup) :
    Kept method item { s with db := db' } ∧ Agrees method item { s with db := db' } := by
  refine ⟨⟨hkeyed, fun hmethod => (h.fifo hmethod).sameStock hsame, fun hmethod => ?_⟩, ?_⟩
  · obtain ⟨total, htotal⟩ := h.average hmethod
    exact ⟨total, htotal.sameStock hsame⟩
  · rw [Agrees] at hagrees ⊢
    cases hvaluate : valuate method s.movements with
    | error e => simp [hvaluate] at hagrees
    | ok r =>
      simp only [hvaluate] at hagrees ⊢
      exact ⟨hsame.forall_items.mpr hagrees.1, hagrees.2⟩

theorem Kept.purchase (h : Kept method item s) (hagrees : Agrees method item s)
    (horder : InOrder method item s.db req form) (hexact : HasScale 4 (cost form))
    (hreceived : Received s.db db' req item form.amount (cost form) stored found average) :
    let next : Valued := { s with
      db := db'
      movements := s.movements ++ [⟨form.amount, cost form⟩]
      soldBefore := s.cogs }
    Kept method item next ∧ Agrees method item next := by
  intro next
  have hkeyed := received_keyed hreceived h.keyed
  cases method with
  | fifo =>
    have hnext : FifoKept item next := (h.fifo rfl).purchase horder hexact hreceived
    exact ⟨⟨hkeyed, fun _ => hnext, nofun⟩, hnext.agrees⟩
  | average =>
    obtain ⟨total, htotal⟩ := h.average rfl
    have hcogs := htotal.agrees_iff.mp hagrees
    have hnext : AverageKept item next _ := htotal.purchase hcogs horder hexact hreceived
    refine ⟨⟨hkeyed, nofun, fun _ => ⟨_, hnext⟩⟩, hnext.agrees_iff.mpr ?_⟩
    show s.cogs = _
    rw [purchaseCost_purchase horder.amount_pos, hcogs]
    ring

theorem Kept.sale (h : Kept method item s) (hagrees : Agrees method item s) (hneg : quantity < 0)
    (hfits : FitsI32 quantity) (hmethod : ledger.inventoryMethod = method)
    (hreduced : Reduced s.db db' req item quantity ledger found diff layers) :
    let next : Valued := { s with
      db := db'
      movements := s.movements ++ [⟨quantity, 0⟩]
      cogs := s.cogs + posted item s.db db' }
    Kept method item next ∧
      (Agrees method item next ↔ (method = .average → s.soldBefore = 0)) := by
  intro next
  have hkeyed := reduced_keyed hreduced h.keyed
  cases method with
  | fifo =>
    have hnext : FifoKept item next := (h.fifo rfl).sale h.keyed hneg hfits hmethod hreduced
    exact ⟨⟨hkeyed, fun _ => hnext, nofun⟩, fun _ => nofun, fun _ => hnext.agrees⟩
  | average =>
    obtain ⟨total, htotal⟩ := h.average rfl
    have hcogs := htotal.agrees_iff.mp hagrees
    obtain ⟨hnext, hiff⟩ := htotal.sale hcogs hneg hfits hmethod hreduced
    exact ⟨⟨hkeyed, nofun, fun _ => hnext⟩, hiff.trans (by simp)⟩

/-- A step keeps the agreement, but for a sale at the running average of which something had been
sold before the last purchase. -/
theorem step_kept (h : Kept method item s) (hagrees : Agrees method item s) {a : Action}
    (hordinary : Ordinary method item s a) (hexact : ExactCosts item s a) :
    Kept method item (step item s a) ∧
      (Agrees method item (step item s a) ↔ NothingSold method item s a) := by
  cases a with
  | purchase req auth ledger other form =>
    simp only [step, NothingSold, iff_true]
    cases hresult : Inventory.purchase s.db req auth ledger other form with
    | mk answer db' =>
      cases answer with
      | error e =>
        rcases commit_eq hresult with ⟨-, rfl⟩ | ⟨u, hok, -⟩
        · exact ⟨h, hagrees⟩
        · cases hok
      | ok u =>
        obtain ⟨quantity, unitCost, stored, found, average, hquantity, hcost, hreceived⟩ :=
          purchase_received hresult
        have hamount : form.amount = quantity := by
          rw [PurchaseForm.amount, hquantity]
          rfl
        have hunit : cost form = unitCost.1 := by
          rw [cost, hcost]
          rfl
        rw [← hamount, ← hunit] at hreceived
        by_cases hitem : other = item
        · subst hitem
          have hok : (Inventory.purchase s.db req auth ledger other form).1.isOk := by
            rw [hresult]
            rfl
          simp only [if_pos]
          exact h.purchase hagrees (hordinary rfl hok) (hexact rfl hok) hreceived
        · simp only [if_neg hitem]
          exact h.sameStock hagrees (received_sameStock hreceived hitem)
            (received_keyed hreceived h.keyed)
  | adjust req auth ledger other form fits =>
    simp only [step, NothingSold]
    cases hresult : Inventory.adjust s.db req auth ledger other form with
    | mk answer db' =>
      cases answer with
      | error e =>
        rcases commit_eq hresult with ⟨-, rfl⟩ | ⟨u, hok, -⟩
        · exact ⟨h, fun _ _ _ hok => (by cases hok), fun _ => hagrees⟩
        · cases hok
      | ok u =>
        obtain ⟨l, found, diff, layers, hledger, hreduced⟩ := adjust_reduced hresult
        by_cases hitem : other = item
        · subst hitem
          obtain ⟨hneg, hmethod⟩ := hordinary rfl
          have hl := mem_of_find?_key hledger
          obtain ⟨hkept, hiff⟩ :=
            h.sale hagrees hneg fits (hmethod l hl.1 hl.2) hreduced
          simp only [if_pos]
          exact ⟨hkept, hiff.trans ⟨fun hsold hmethod _ _ => hsold hmethod,
            fun hsold hmethod => hsold hmethod trivial rfl⟩⟩
        · simp only [if_neg hitem]
          obtain ⟨hkept, hagrees⟩ := h.sameStock hagrees
            (reduced_sameStock hreduced h.keyed hitem) (reduced_keyed hreduced h.keyed)
          exact ⟨hkept, fun _ _ heq => absurd heq hitem, fun _ => hagrees⟩

/-! ## Runs -/

/-- Nothing has been bought or sold of the item. -/
structure Fresh (item : Uuid) (s : Valued) : Prop where
  keyed : (s.db.inventoryLayers.map InventoryLayer.id).Nodup
  none_bought : ∀ l ∈ s.db.inventoryLayers, l.itemId ≠ item
  none_onHand : StockIs s.db item 0
  movements : s.movements = []
  cogs : s.cogs = 0

theorem Fresh.open_eq (h : Fresh item s) :
    (s.db.inventoryLayers.filter fun l => l.itemId = item ∧ 0 < l.remaining) = [] := by
  rw [List.filter_eq_nil_iff]
  intro l hl
  simp [h.none_bought l hl]

/-- An item without movements is kept, and agrees. -/
theorem Fresh.kept (h : Fresh item s) : Kept method item s ∧ Agrees method item s := by
  have hlayers : stockLayers s.db item = [] := by
    rw [stockLayers, Inventory.openLayers, h.open_eq]
    rfl
  have hfifo : FifoKept item s := by
    refine ⟨?_, fun l hl hid => absurd hid (h.none_bought l hl), ?_, ?_, ?_, ?_⟩
    · have hnone : s.db.inventoryLayers.filter (fun l => l.itemId = item) = [] := by
        rw [List.filter_eq_nil_iff]
        intro l hl
        simp [h.none_bought l hl]
      rw [InPurchaseOrder, hnone]
      exact List.Pairwise.nil
    · rw [h.movements, hlayers]
      rfl
    · rw [hlayers]
      exact h.none_onHand
    · rw [hlayers]
      decide
    · rw [hlayers, h.movements, h.cogs]
      simp [purchaseCost]
  have haverage : AverageKept item s (0, 0) := by
    refine ⟨?_, h.none_onHand, by decide, le_rfl, ?_, ?_,
      fun _ _ _ hpos => absurd hpos (lt_irrefl 0)⟩
    · rw [h.movements]
      rfl
    · rw [Inventory.layerTotal, h.open_eq, h.movements]
      rfl
    · rw [h.movements]
      exact le_rfl
  refine ⟨⟨h.keyed, fun _ => hfifo, fun _ => ⟨_, haverage⟩⟩, ?_⟩
  cases method with
  | fifo => exact hfifo.agrees
  | average =>
    rw [haverage.agrees_iff, h.cogs, h.movements]
    simp [purchaseCost]

/-- From an item without stock on, the sales cost what the valuation says as long as every unit
cost fits its column and every sale at the running average finds that nothing had been sold before
the last purchase.  Where the unit costs fit, they do so exactly then. -/
theorem agrees_iff_nothingSold {actions : List Action} (h : Fresh item s)
    (hordinary : Runs.Meets (step item) (Ordinary method item) s actions) :
    (Runs.Meets (step item) (fun s a => ExactCosts item s a ∧ NothingSold method item s a) s
        actions → ∀ s' ∈ Runs.visited (step item) s actions, Agrees method item s') ∧
      (Runs.Meets (step item) (ExactCosts item) s actions →
        ((∀ s' ∈ Runs.visited (step item) s actions, Agrees method item s') ↔
          Runs.Meets (step item) (NothingSold method item) s actions)) := by
  have hiff : Runs.Meets (step item) (ExactCosts item) s actions →
      ((∀ s' ∈ Runs.visited (step item) s actions, Agrees method item s') ↔
        Runs.Meets (step item) (NothingSold method item) s actions) := fun hexact =>
    Runs.forall_visited_iff_meets_of_meets (P := Agrees method item) (Q := Kept method item)
      (fun _ _ hkept hagrees hD => (step_kept hkept hagrees hD.1 hD.2).1)
      (fun _ _ hkept hagrees hD => (step_kept hkept hagrees hD.1 hD.2).2) h.kept.1 h.kept.2
      (hordinary.and hexact)
  exact ⟨fun hmeets => (hiff (hmeets.imp fun _ _ h => h.1)).mpr (hmeets.imp fun _ _ h => h.2), hiff⟩

instance (method : InventoryMethod) (item : Uuid) (s : Valued) : Decidable (Agrees method item s) :=
  match hvaluate : valuate method s.movements with
  | .ok (quantity, value) => decidable_of_iff
      (StockIs s.db item quantity ∧ s.cogs = purchaseCost s.movements - value) (by
        rw [Agrees, hvaluate])
  | .error _ => .isFalse (by rw [Agrees, hvaluate]; exact id)

instance (method : InventoryMethod) (item : Uuid) (db : Db) (req : Request) (form : PurchaseForm) :
    Decidable (InOrder method item db req form) :=
  decidable_of_iff
    (0 < form.amount ∧ 0 ≤ cost form ∧
      (∀ l ∈ db.inventoryLayers, l.itemId = item → layerKey l ≤ toLex (req.today, req.now)) ∧
      (method = .average → ∀ i ∈ db.inventoryItems, i.id = item →
        HasScale 4 ((layerTotal db item + form.amount * cost form) /
          ((i.quantityOnHand + form.amount : ℤ) : ℚ))))
    ⟨fun ⟨hamount, hcost, hlatest, haverage⟩ => ⟨hamount, hcost, hlatest, haverage⟩,
      fun h => ⟨h.amount_pos, h.cost_nonneg, h.latest, h.average_exact⟩⟩

instance (method : InventoryMethod) (item : Uuid) (s : Valued) :
    (a : Action) → Decidable (Ordinary method item s a)
  | .purchase req auth ledger other form => inferInstanceAs (Decidable (other = item →
      (Inventory.purchase s.db req auth ledger other form).1.isOk →
        InOrder method item s.db req form))
  | .adjust _ _ ledger other form _ => inferInstanceAs (Decidable (other = item →
      form.quantity < 0 ∧ ∀ l ∈ s.db.ledgers, l.id = ledger → l.inventoryMethod = method))

instance (item : Uuid) (s : Valued) : (a : Action) → Decidable (ExactCosts item s a)
  | .purchase req auth ledger other form => inferInstanceAs (Decidable (other = item →
      (Inventory.purchase s.db req auth ledger other form).1.isOk → HasScale 4 (cost form)))
  | .adjust .. => inferInstanceAs (Decidable True)

instance (method : InventoryMethod) (item : Uuid) (s : Valued) :
    (a : Action) → Decidable (NothingSold method item s a)
  | .purchase .. => inferInstanceAs (Decidable True)
  | .adjust req auth ledger other form _ => inferInstanceAs (Decidable (method = .average →
      other = item → (Inventory.adjust s.db req auth ledger other form).1.isOk → s.soldBefore = 0))

namespace Sample

open OpenAccounting.Sample

/-- An item that was just created. -/
def widget : InventoryItem where
  id := 71
  ledgerId := ledgerId
  assetAccountId := cash
  cogsAccountId := sales
  incomeAccountId := sales
  quantityOnHand := 0
  unitCost := 0

/-- The item is in a ledger under the method. -/
def start (method : InventoryMethod) : Valued where
  db := { OpenAccounting.Sample.db with
    ledgers := [{ id := ledgerId, ownerId := owner, inventoryMethod := method }]
    inventoryItems := [widget] }

theorem start_fresh (method : InventoryMethod) : Fresh widget.id (start method) where
  keyed := List.nodup_nil
  none_bought := by cases method <;> decide
  none_onHand := by cases method <;> decide
  movements := rfl
  cogs := rfl

def buy (seed : ℕ) (quantity : ℤ) (unitCost : ℚ) : Action :=
  .purchase (request seed) (some owner) ledgerId widget.id
    { quantity := some (some quantity), unitCost := some (some (unitCost, "")) }

def sellFive (seed : ℕ) : Action :=
  .adjust (request seed) (some owner) ledgerId widget.id
    { quantity := -5, reason := "Sold", adjustmentDate := some (march 15) } (by decide)

/-- Everything is bought before the first sale. -/
def boughtFirst : List Action := [buy 1 10 2, buy 2 10 4, sellFive 3, sellFive 4]

/-- The second purchase comes after a sale. -/
def boughtBetween : List Action := [buy 1 10 2, sellFive 2, buy 3 5 4, sellFive 4]

/-- A piece costs five hundred-thousandths more than the column keeps. -/
def boughtFiner : List Action := [buy 1 10 1.00005, sellFive 2, sellFive 3]

end Sample

/-- The five pieces that are sold last have cost 20, where the valuation says 15: what was sold
first is in the average once more. -/
theorem boughtBetween_not_agrees :
    Fresh Sample.widget.id (Sample.start .average) ∧
      Runs.Meets (step Sample.widget.id) (Ordinary .average Sample.widget.id) (Sample.start .average)
        Sample.boughtBetween ∧
      (Runs.exec (step Sample.widget.id) (Sample.start .average) Sample.boughtBetween).cogs = 30 ∧
      valuate .average (Runs.exec (step Sample.widget.id) (Sample.start .average)
        Sample.boughtBetween).movements = .ok (5, 15) ∧
      ¬ Agrees .average Sample.widget.id
        (Runs.exec (step Sample.widget.id) (Sample.start .average) Sample.boughtBetween) := by
  refine ⟨Sample.start_fresh _, ⟨?_, ?_, ?_, ?_, trivial⟩, ?_, ?_, ?_⟩ <;> decide +kernel

/-- Under FIFO the ten pieces have cost 10.001, where they were bought for 10.0005: the layer has
rounded their unit cost. -/
theorem boughtFiner_not_agrees :
    Fresh Sample.widget.id (Sample.start .fifo) ∧
      Runs.Meets (step Sample.widget.id) (Ordinary .fifo Sample.widget.id) (Sample.start .fifo)
        Sample.boughtFiner ∧
      (Runs.exec (step Sample.widget.id) (Sample.start .fifo) Sample.boughtFiner).cogs = 10.001 ∧
      valuate .fifo (Runs.exec (step Sample.widget.id) (Sample.start .fifo)
        Sample.boughtFiner).movements = .ok (0, 0) ∧
      ¬ Agrees .fifo Sample.widget.id
        (Runs.exec (step Sample.widget.id) (Sample.start .fifo) Sample.boughtFiner) := by
  refine ⟨Sample.start_fresh _, ⟨?_, ?_, ?_, trivial⟩, ?_, ?_, ?_⟩ <;> decide +kernel

theorem agrees_iff_nothingSold_boughtFirst :
    Agrees .average Sample.widget.id
      (Runs.exec (step Sample.widget.id) (Sample.start .average) Sample.boughtFirst) := by
  have hordinary : Runs.Meets (step Sample.widget.id) (Ordinary .average Sample.widget.id)
      (Sample.start .average) Sample.boughtFirst := by
    refine ⟨?_, ?_, ?_, ?_, trivial⟩ <;> decide +kernel
  have hmeets : Runs.Meets (step Sample.widget.id)
      (fun s a => ExactCosts Sample.widget.id s a ∧ NothingSold .average Sample.widget.id s a)
      (Sample.start .average) Sample.boughtFirst := by
    refine ⟨?_, ?_, ?_, ?_, trivial⟩ <;> decide +kernel
  exact (agrees_iff_nothingSold (Sample.start_fresh _) hordinary).1 hmeets _
    (Runs.exec_mem_visited _ _)

end OpenAccounting.InventoryValuation
