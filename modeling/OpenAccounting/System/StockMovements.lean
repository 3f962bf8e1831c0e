import OpenAccounting.Handlers.Inventory
import OpenAccounting.Lib.Threads
import OpenAccounting.System.JournalOps

/-!
# Stock movements

Requests of `purchase` and `adjust` on one item run interleaved.  A purchase is one step.  An
adjustment reads the item first and then writes, in a transaction of its own, the stock it has
computed from what it read.

Nothing is lost as long as the write finds the stock that was read (`Unmoved`), and this is exactly
what it takes.  A purchase may also have a negative quantity, if its unit cost is negative too, and
then nothing stops it from taking more than there is.
-/

namespace OpenAccounting.Inventory

open Calendar Commit Relational Rounding

/-- The database, and the sum of the quantities of the requests that have succeeded. -/
structure Stock where
  db : Db
  moved : ℤ := 0

/-- Where a request is. -/
inductive Place where
  | idle
  /-- `adjust` with what it has read. -/
  | adjusting (form : AdjustmentForm) (read : AdjustRead)

/-- One action: a purchase, or an adjustment that reads or writes.  The quantity of its form is an
`i32`. -/
inductive Action where
  | purchase (req : Request) (auth : Option Uuid) (ledger : Uuid) (form : PurchaseForm)
  | adjust (auth : Option Uuid) (ledger : Uuid) (form : AdjustmentForm)
      (fits : FitsI32 form.quantity)
  | write (req : Request)

def PurchaseForm.amount (form : PurchaseForm) : ℤ := (form.quantity.bind id).getD 0

/-- What a request with the quantity makes of the stock, if it succeeds. -/
def Stock.after (s : Stock) (quantity : ℤ) : Except AppError Unit × Db → Stock
  | (.ok _, db) => ⟨db, s.moved + quantity⟩
  | (.error _, db) => ⟨db, s.moved⟩

/-- The steps of the two handlers. -/
def act (item : Uuid) (_ : ℕ) (s : Stock) : Place → Action → Stock × Place
  | .idle, .purchase req auth ledger form =>
    (s.after form.amount (purchase s.db req auth ledger item form), .idle)
  | .idle, .adjust auth ledger form _ =>
    match readAdjust s.db auth ledger item form with
    | .ok read => (s, .adjusting form read)
    | .error _ => (s, .idle)
  | .adjusting form read, .write req =>
    (s.after form.quantity (commit s.db (writeAdjust s.db req item form read)), .idle)
  | place, _ => (s, place)

/-- Everything that is under way. -/
abbrev State := Threads.State ℕ Stock Place

/-- A request takes its next action. -/
def step (item : Uuid) : State → ℕ × Action → State := Threads.step (act item)

/-- The stock of the item is the initial one with all movements, and not negative. -/
def Exact (item : Uuid) (initial : ℤ) (s : Stock) : Prop :=
  ∀ i ∈ s.db.inventoryItems, i.id = item →
    i.quantityOnHand = initial + s.moved ∧ 0 ≤ i.quantityOnHand

def StockIs (db : Db) (item : Uuid) (quantity : ℤ) : Prop :=
  ∀ i ∈ db.inventoryItems, i.id = item → i.quantityOnHand = quantity

instance (db : Db) (item : Uuid) (quantity : ℤ) : Decidable (StockIs db item quantity) := by
  unfold StockIs
  infer_instance

/-- The purchase leaves no negative stock. -/
def Covers (db : Db) (item : Uuid) (quantity : ℤ) : Prop :=
  ∀ i ∈ db.inventoryItems, i.id = item → 0 ≤ i.quantityOnHand + quantity

instance (db : Db) (item : Uuid) (quantity : ℤ) : Decidable (Covers db item quantity) := by
  unfold Covers
  infer_instance

/-- An adjustment that is written finds the stock it has read, and a purchase that succeeds leaves
no negative stock. -/
def Unmoved (item : Uuid) (s : State) : ℕ × Action → Prop
  | (n, .write req) =>
    match s.place n with
    | .idle => True
    | .adjusting form read =>
      (writeAdjust s.shared.db req item form read).isOk →
        StockIs s.shared.db item read.found.quantityOnHand
  | (n, .purchase req auth ledger form) =>
    match s.place n with
    | .idle => (purchase s.shared.db req auth ledger item form).1.isOk →
        Covers s.shared.db item form.amount
    | .adjusting .. => True
  | (_, .adjust ..) => True

instance (item : Uuid) (s : State) : (m : ℕ × Action) → Decidable (Unmoved item s m)
  | (_, .adjust ..) => inferInstanceAs (Decidable True)
  | (n, .purchase req auth ledger form) =>
    match hplace : s.place n with
    | .idle => decidable_of_iff ((purchase s.shared.db req auth ledger item form).1.isOk →
        Covers s.shared.db item form.amount) (by rw [Unmoved, hplace])
    | .adjusting .. => .isTrue (by rw [Unmoved, hplace]; trivial)
  | (n, .write req) =>
    match hplace : s.place n with
    | .idle => .isTrue (by rw [Unmoved, hplace]; trivial)
    | .adjusting form read => decidable_of_iff
        ((writeAdjust s.shared.db req item form read).isOk →
          StockIs s.shared.db item read.found.quantityOnHand) (by rw [Unmoved, hplace])

/-! ## Steps -/

/-- What a request holds. -/
def Place.Backed : Place → Prop
  | .idle => True
  | .adjusting form read => FitsI32 form.quantity ∧ FitsI32 read.found.quantityOnHand ∧
      read.newQty = wrapI32 (read.found.quantityOnHand + form.quantity) ∧ 0 ≤ read.newQty

/-- The stock of the item is an integer of 32 bits. -/
def Stock.Fits (item : Uuid) (s : Stock) : Prop :=
  ∀ i ∈ s.db.inventoryItems, i.id = item → FitsI32 i.quantityOnHand

/-- What holds whatever the requests do. -/
structure Sane (item : Uuid) (s : State) : Prop where
  fits : s.shared.Fits item
  places : ∀ n, (s.place n).Backed

theorem wrapI32_add_inj {m m' n : ℤ} (hm : FitsI32 m) (hm' : FitsI32 m')
    (heq : wrapI32 (m + n) = m' + n) : m = m' := by
  unfold FitsI32 at hm hm'
  unfold wrapI32 at heq
  omega

variable {item : Uuid} {initial : ℤ} {s : Stock}

/-- A purchase fails and writes nothing, or adds its quantity to the stock. -/
theorem purchase_cases (db : Db) (req : Request) (auth : Option Uuid) (ledger item : Uuid)
    (form : PurchaseForm) :
    (∃ e, purchase db req auth ledger item form = (.error e, db)) ∨
      ∃ db' average, purchase db req auth ledger item form = (.ok (), db') ∧
        db'.inventoryItems = updateWhere (fun i => i.id = item)
          (receiveItem req form.amount average) db.inventoryItems ∧
        ∀ i ∈ db.inventoryItems, i.id = item → FitsI32 (i.quantityOnHand + form.amount) := by
  cases h : purchase db req auth ledger item form with
  | mk answer db' =>
    cases answer with
    | error e =>
      rcases commit_eq h with ⟨-, rfl⟩ | ⟨_, h, -⟩
      · exact Or.inl ⟨e, rfl⟩
      · cases h
    | ok u =>
      right
      obtain ⟨quantity, average, layers, -, -, b', hform, -, -, -, rfl⟩ := purchase_ok h
      have hamount : form.amount = quantity := by
        rw [PurchaseForm.amount, hform]
        rfl
      refine ⟨_, average, rfl, by rw [hamount], ?_⟩
      simp only [purchase, commit_eq_ok, bind_eq_ok, okOr_eq_ok, mapError_eq_ok, receive,
        ensure_eq_ok] at h
      obtain ⟨-, -, -, -, oq, hoq, q, rfl, -, -, -, -, -, -, -, ⟨-, hfits, -⟩, -⟩ := h
      rw [hform] at hoq
      cases hoq
      rwa [hamount]

theorem forall_stock_updateWhere {items : List InventoryItem} {f : InventoryItem → InventoryItem}
    (hf : ∀ i, (f i).id = i.id) {P : ℤ → Prop} :
    (∀ i ∈ updateWhere (fun i => i.id = item) f items, i.id = item → P i.quantityOnHand) ↔
      ∀ i ∈ items, i.id = item → P (f i).quantityOnHand :=
  forall_updateWhere (p := fun i : InventoryItem => i.id = item) (P := fun i => P i.quantityOnHand)
    fun i => by rw [hf]

/-- A successful purchase keeps the stock exact exactly when it leaves none that is negative. -/
theorem purchase_exact_iff (h : Exact item initial s) {db' : Db} {req : Request} {quantity : ℤ}
    {average : ℚ} (hitems : db'.inventoryItems = updateWhere (fun i => i.id = item)
      (receiveItem req quantity average) s.db.inventoryItems) :
    Exact item initial ⟨db', s.moved + quantity⟩ ↔ Covers s.db item quantity := by
  rw [Exact, hitems]
  refine (forall_stock_updateWhere (f := receiveItem req quantity average)
    (P := fun q => q = initial + (s.moved + quantity) ∧ 0 ≤ q) fun _ => rfl).trans ?_
  refine forall₃_congr fun i hi hid => ?_
  have hstock := (h i hi hid).1
  show i.quantityOnHand + quantity = initial + (s.moved + quantity) ∧
    0 ≤ i.quantityOnHand + quantity ↔
    0 ≤ i.quantityOnHand + quantity
  refine and_iff_right ?_
  omega

/-- A successful write keeps the stock exact exactly when it finds the stock that was read. -/
theorem write_exact_iff (hfits : s.Fits item) (h : Exact item initial s) {form : AdjustmentForm}
    {read : AdjustRead}
    (hread : (Place.adjusting form read).Backed) {db' : Db} {req : Request}
    (hitems : db'.inventoryItems = updateWhere (fun i => i.id = item)
      (adjustItem req read.newQty) s.db.inventoryItems) :
    Exact item initial ⟨db', s.moved + form.quantity⟩ ↔
      StockIs s.db item read.found.quantityOnHand := by
  obtain ⟨hform, hfound, hqty, hpos⟩ := hread
  rw [Exact, hitems]
  refine (forall_stock_updateWhere (f := adjustItem req read.newQty)
    (P := fun q => q = initial + (s.moved + form.quantity) ∧ 0 ≤ q) fun _ => rfl).trans ?_
  refine forall₃_congr fun i hi hid => ?_
  obtain ⟨hstock, hnonneg⟩ := h i hi hid
  show read.newQty = initial + (s.moved + form.quantity) ∧ 0 ≤ read.newQty ↔
    i.quantityOnHand = read.found.quantityOnHand
  rw [← add_assoc, ← hstock, and_iff_left hpos, hqty]
  constructor
  · intro heq
    exact (wrapI32_add_inj hfound (hfits i hi hid) heq).symm
  · intro heq
    rw [← heq]
    exact wrapI32_add (hfits i hi hid) hform hnonneg (by rw [heq, ← hqty]; exact hpos)

theorem write_cases (db : Db) (req : Request) (item : Uuid) (form : AdjustmentForm)
    (read : AdjustRead) :
    (∃ e, commit db (writeAdjust db req item form read) = (.error e, db)) ∧
        ¬ (writeAdjust db req item form read).isOk ∨
      ∃ db', commit db (writeAdjust db req item form read) = (.ok (), db') ∧
        (writeAdjust db req item form read).isOk ∧
        db'.inventoryItems = updateWhere (fun i => i.id = item) (adjustItem req read.newQty)
          db.inventoryItems := by
  cases h : writeAdjust db req item form read with
  | error e => exact Or.inl ⟨⟨e, rfl⟩, by simp [Except.isOk, Except.toBool]⟩
  | ok r =>
    obtain ⟨u, db'⟩ := r
    obtain ⟨layers, -, -, b', -, -, rfl⟩ := writeAdjust_ok h
    exact Or.inr ⟨_, rfl, rfl, rfl⟩

/-- An action keeps the stock exact exactly when it meets the condition. -/
theorem step_exact_iff {s : State} (hs : Sane item s) (h : Exact item initial s.shared)
    (m : ℕ × Action) : Exact item initial (step item s m).shared ↔ Unmoved item s m := by
  obtain ⟨n, a⟩ := m
  show Exact item initial (act item n s.shared (s.place n) a).1 ↔ Unmoved item s (n, a)
  have hbacked := hs.places n
  cases a with
  | purchase req auth ledger form =>
    cases hplace : s.place n with
    | adjusting form' read => simp [act, Unmoved, hplace, h]
    | idle =>
      simp only [act, Unmoved, hplace]
      rcases purchase_cases s.shared.db req auth ledger item form with
        ⟨e, hresult⟩ | ⟨db', average, hresult, hitems, -⟩
      · rw [hresult]
        exact ⟨fun _ hok => (by cases hok), fun _ => h⟩
      · rw [hresult]
        exact (purchase_exact_iff h hitems).trans ⟨fun hcovers _ => hcovers, fun hok => hok rfl⟩
  | adjust auth ledger form fits =>
    refine ⟨fun _ => trivial, fun _ => ?_⟩
    cases hplace : s.place n with
    | adjusting form' read => exact h
    | idle =>
      simp only [act]
      split <;> exact h
  | write req =>
    cases hplace : s.place n with
    | idle => simp [act, Unmoved, hplace, h]
    | adjusting form read =>
      rw [hplace] at hbacked
      simp only [act, Unmoved, hplace]
      rcases write_cases s.shared.db req item form read with
        ⟨⟨e, hresult⟩, hrefused⟩ | ⟨db', hresult, hok, hitems⟩
      · rw [hresult]
        exact ⟨fun _ hok => absurd hok hrefused, fun _ => h⟩
      · rw [hresult]
        exact (write_exact_iff hs.fits h hbacked hitems).trans
          ⟨fun hfinds _ => hfinds, fun hfinds => hfinds hok⟩

/-- The stock and what the requests hold stay in range. -/
theorem act_sane (hfits : s.Fits item) (n : ℕ) {place : Place} (hplace : place.Backed)
    (a : Action) :
    (act item n s place a).1.Fits item ∧ (act item n s place a).2.Backed := by
  cases place with
  | idle =>
    cases a with
    | write req => exact ⟨hfits, trivial⟩
    | purchase req auth ledger form =>
      refine ⟨?_, trivial⟩
      simp only [act]
      rcases purchase_cases s.db req auth ledger item form with
        ⟨e, hresult⟩ | ⟨db', average, hresult, hitems, hnew⟩
      · rw [hresult]
        exact hfits
      · rw [hresult, Stock.after, Stock.Fits, hitems]
        exact (forall_stock_updateWhere (f := receiveItem req form.amount average)
          (P := FitsI32)
          fun _ => rfl).mpr hnew
    | adjust auth ledger form fits =>
      simp only [act]
      cases hread : readAdjust s.db auth ledger item form with
      | error e => exact ⟨hfits, trivial⟩
      | ok read =>
        obtain ⟨hfound, -, hqty, hpos⟩ := readAdjust_ok hread
        obtain ⟨hmem, hid⟩ := mem_of_find?_key hfound
        exact ⟨hfits, fits, hfits _ hmem hid, hqty, hpos⟩
  | adjusting form read =>
    cases a with
    | purchase req auth ledger form => exact ⟨hfits, hplace⟩
    | adjust auth ledger form fits => exact ⟨hfits, hplace⟩
    | write req =>
      refine ⟨?_, trivial⟩
      simp only [act]
      rcases write_cases s.db req item form read with
        ⟨⟨e, hresult⟩, -⟩ | ⟨db', hresult, -, hitems⟩
      · rw [hresult]
        exact hfits
      · rw [hresult, Stock.after, Stock.Fits, hitems]
        refine (forall_stock_updateWhere (f := adjustItem req read.newQty) (P := FitsI32)
          fun _ => rfl).mpr fun _ _ _ => ?_
        show FitsI32 read.newQty
        rw [hplace.2.2.1]
        exact fitsI32_wrapI32 _

theorem step_sane {s : State} (hs : Sane item s) (m : ℕ × Action) : Sane item (step item s m) := by
  obtain ⟨n, a⟩ := m
  obtain ⟨hfits, hnext⟩ := act_sane hs.fits n (hs.places n) a
  refine ⟨hfits, fun k => ?_⟩
  by_cases hk : k = n
  · subst hk
    simpa [step, Threads.step] using hnext
  · simpa [step, Threads.step, hk] using hs.places k

/-! ## Runs -/

/-- No request is under way or has been made, and the item has the initial stock. -/
structure Fresh (item : Uuid) (initial : ℤ) (s : State) : Prop where
  idle : ∀ n, s.place n = .idle
  unmoved : s.shared.moved = 0
  stock : StockIs s.shared.db item initial
  nonneg : 0 ≤ initial
  fits : FitsI32 initial

/-- In an interleaving the stock of the item is at any time the initial one with the quantities of
all requests that have succeeded, and not negative, exactly when each adjustment is written on the
stock it has read and no purchase takes more than there is. -/
theorem exact_iff_unmoved {s : State} {actions : List (ℕ × Action)} (h : Fresh item initial s) :
    (∀ s' ∈ Runs.visited (step item) s actions, Exact item initial s'.shared) ↔
      Runs.Meets (step item) (Unmoved item) s actions := by
  have hsane : Sane item s := by
    refine ⟨fun i hi hid => ?_, fun n => by rw [h.idle]; trivial⟩
    rw [h.stock i hi hid]
    exact h.fits
  have hexact : Exact item initial s.shared := by
    intro i hi hid
    rw [h.stock i hi hid, h.unmoved, add_zero]
    exact ⟨rfl, h.nonneg⟩
  exact Runs.forall_visited_iff_meets (P := fun s : State => Exact item initial s.shared)
    (fun _ m hs => step_sane hs m) (fun _ m hs hexact => step_exact_iff hs hexact m) hsane hexact

namespace Sample

open OpenAccounting.Sample

def widget : InventoryItem where
  id := 71
  ledgerId := ledgerId
  assetAccountId := cash
  cogsAccountId := sales
  incomeAccountId := sales
  quantityOnHand := 10
  unitCost := 2

def start : State where
  shared := { db := { OpenAccounting.Sample.db with inventoryItems := [widget] } }
  place _ := .idle

theorem start_fresh : Fresh widget.id 10 start where
  idle _ := rfl
  unmoved := rfl
  stock := by decide
  nonneg := by decide
  fits := by decide

def threeSold : AdjustmentForm where
  quantity := -3
  reason := "Sold"
  adjustmentDate := some (march 14)

def fiveBought : PurchaseForm where
  quantity := some (some 5)
  unitCost := some (some (2, "2"))

theorem threeSold_fits : FitsI32 threeSold.quantity := by decide

/-- The purchase comes between the two steps of the sale. -/
def overlapping : List (ℕ × Action) :=
  [(0, .adjust (some owner) ledgerId threeSold threeSold_fits),
    (1, .purchase (request 1) (some owner) ledgerId fiveBought), (0, .write (request 2))]

def inTurn : List (ℕ × Action) :=
  [(1, .purchase (request 1) (some owner) ledgerId fiveBought),
    (0, .adjust (some owner) ledgerId threeSold threeSold_fits), (0, .write (request 2))]

end Sample

/-- The purchase is lost: both requests have succeeded, and the stock is that of the sale alone. -/
theorem overlapping_not_exact :
    Fresh Sample.widget.id 10 Sample.start ∧
      (Runs.exec (step Sample.widget.id) Sample.start Sample.overlapping).shared.moved = 2 ∧
      StockIs (Runs.exec (step Sample.widget.id) Sample.start Sample.overlapping).shared.db
        Sample.widget.id 7 ∧
      ¬ Exact Sample.widget.id 10
        (Runs.exec (step Sample.widget.id) Sample.start Sample.overlapping).shared := by
  refine ⟨Sample.start_fresh, by decide +kernel, by decide +kernel, ?_⟩
  unfold Exact
  decide +kernel

theorem exact_iff_unmoved_inTurn :
    Exact Sample.widget.id 10
      (Runs.exec (step Sample.widget.id) Sample.start Sample.inTurn).shared := by
  have hcalm : Runs.Meets (step Sample.widget.id) (Unmoved Sample.widget.id) Sample.start
      Sample.inTurn := by
    refine ⟨?_, trivial, ?_, trivial⟩ <;> decide +kernel
  exact (exact_iff_unmoved Sample.start_fresh).mpr hcalm _ (Runs.exec_mem_visited _ _)

end OpenAccounting.Inventory
