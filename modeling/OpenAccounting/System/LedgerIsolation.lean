import OpenAccounting.Handlers.FixedAssets
import OpenAccounting.Handlers.Taxes
import OpenAccounting.Jobs.Automation
import OpenAccounting.System.JournalOps

/-!
# One ledger's users and another ledger's rows

Every ledger is a tenant.  A handler authorizes the user on the ledger of the path, so
what it writes has to stay inside that ledger whatever ids the request carries.

The reversal and the bulk actions name the ledger in every statement.  The deletion of a
budget, the toggle of a tax rate, the inventory and depreciation handlers and the
`categorize_transaction` action find their row by id alone.  An accepted request of
theirs leaves the rows of the other ledgers alone exactly when the id belongs to the
ledger of the path, or when it writes to the row what the row holds already.
-/

namespace OpenAccounting

open Calendar Commit Relational

/-! ## The rows of a ledger -/

namespace Books

def transactionsIn (b : Books) (ledger : Uuid) : List Transaction :=
  b.transactions.filter fun t => t.ledgerId = ledger

/-- The posting belongs to a transaction of the ledger. -/
def InLedger (b : Books) (ledger : Uuid) (p : Posting) : Prop :=
  ∃ h ∈ b.header p.transactionId, h.ledgerId = ledger

instance (b : Books) (ledger : Uuid) : DecidablePred (b.InLedger ledger) := by
  unfold InLedger
  infer_instance

def postingsIn (b : Books) (ledger : Uuid) : List Posting :=
  b.postings.filter fun p => b.InLedger ledger p

end Books

/-- The rows that belong to one ledger. -/
structure LedgerRows where
  transactions : List Transaction
  postings : List Posting
  budgets : List Budget
  taxRates : List TaxRate
  inventoryItems : List InventoryItem
  fixedAssets : List FixedAsset
deriving DecidableEq

def Db.rowsOf (db : Db) (ledger : Uuid) : LedgerRows where
  transactions := db.books.transactionsIn ledger
  postings := db.books.postingsIn ledger
  budgets := db.budgets.filter fun b => b.ledgerId = ledger
  taxRates := db.taxRates.filter fun r => r.ledgerId = ledger
  inventoryItems := db.inventoryItems.filter fun i => i.ledgerId = ledger
  fixedAssets := db.fixedAssets.filter fun a => a.ledgerId = ledger

/-- Every row of every ledger but `ledger` is as it was. -/
def Db.Isolated (db db' : Db) (ledger : Uuid) : Prop :=
  ∀ other, other ≠ ledger → db'.rowsOf other = db.rowsOf other

/-- The books of every ledger but `ledger` are as they were. -/
def Books.Isolated (b b' : Books) (ledger : Uuid) : Prop :=
  ∀ other, other ≠ ledger →
    b'.transactionsIn other = b.transactionsIn other ∧ b'.postingsIn other = b.postingsIn other

theorem Db.Isolated.refl (db : Db) (ledger : Uuid) : db.Isolated db ledger := fun _ _ => rfl

theorem Db.Isolated.trans {db₁ db₂ db₃ : Db} {ledger : Uuid} (h : db₁.Isolated db₂ ledger)
    (h' : db₂.Isolated db₃ ledger) : db₁.Isolated db₃ ledger :=
  fun other hne => (h' other hne).trans (h other hne)

/-! ## Writes to the books of one ledger -/

namespace Books

theorem Isolated.refl (b : Books) (ledger : Uuid) : b.Isolated b ledger := fun _ _ => ⟨rfl, rfl⟩

theorem Isolated.trans {b₁ b₂ b₃ : Books} {ledger : Uuid} (h : b₁.Isolated b₂ ledger)
    (h' : b₂.Isolated b₃ ledger) : b₁.Isolated b₃ ledger :=
  fun other hne => ⟨(h' other hne).1.trans (h other hne).1, (h' other hne).2.trans (h other hne).2⟩

theorem Posts.isolated {b b' : Books} {t : Transaction} {ps : List Posting} {ledger : Uuid}
    (h : Posts b b' t ps) (ht : t.ledgerId = ledger) : b.Isolated b' ledger := by
  intro other hne
  constructor
  · rw [transactionsIn, h.transactions, List.filter_append]
    have hnew : [t].filter (fun t => decide (t.ledgerId = other)) = [] := by
      simp [ht, Ne.symm hne]
    rw [hnew, List.append_nil, transactionsIn]
  · have hnew : ps.filter (fun p => decide (b'.InLedger other p)) = [] := by
      rw [List.filter_eq_nil_iff]
      intro p hp
      have hout : ¬ b'.InLedger other p := by
        rw [InLedger, h.header, if_pos (h.owned p hp)]
        simp [Transaction.header, ht, Ne.symm hne]
      simpa using hout
    rw [postingsIn, h.postings, List.filter_append, hnew, List.append_nil, postingsIn]
    refine List.filter_congr ?_
    intro p hp
    have hold : p.transactionId ≠ t.id := fun heq => h.fresh (heq ▸ b.posting_txn_fk p hp)
    have hsame : b'.InLedger other p ↔ b.InLedger other p := by
      rw [InLedger, h.header, if_neg hold, InLedger]
    exact decide_eq_decide.mpr hsame

theorem mapTxns_isolated {b : Books} {f : Transaction → Transaction} {hf : ∀ t, (f t).id = t.id}
    {ledger : Uuid} (hledger : ∀ t, (f t).ledgerId = t.ledgerId)
    (hother : ∀ t, t.ledgerId ≠ ledger → f t = t) : b.Isolated (b.mapTxns f hf) ledger := by
  intro other hne
  constructor
  · show (b.transactions.map f).filter _ = _
    rw [List.filter_map, transactionsIn]
    have hsame : (fun t : Transaction => decide (t.ledgerId = other)) ∘ f =
        fun t => decide (t.ledgerId = other) := by
      funext t
      simp [hledger]
    rw [hsame]
    conv_rhs => rw [← List.map_id (b.transactions.filter _)]
    refine List.map_congr_left ?_
    intro t ht
    have hin : t.ledgerId = other := by simpa using (List.mem_filter.mp ht).2
    exact hother t (hin ▸ hne)
  · show b.postings.filter _ = _
    rw [postingsIn]
    refine List.filter_congr ?_
    intro p _
    have hsame : (b.mapTxns f hf).InLedger other p ↔ b.InLedger other p := by
      rw [InLedger, Db.header_mapTxns, InLedger, header]
      cases b.findTxn p.transactionId with
      | none => simp
      | some t => simp [Transaction.header, hledger]
    exact decide_eq_decide.mpr hsame

end Books

/-- Isolation, table by table. -/
theorem Db.isolated_iff {db db' : Db} {ledger : Uuid} :
    db.Isolated db' ledger ↔ db.books.Isolated db'.books ledger ∧
      (∀ other, other ≠ ledger → db'.budgets.filter (fun b => decide (b.ledgerId = other)) =
        db.budgets.filter (fun b => decide (b.ledgerId = other))) ∧
      (∀ other, other ≠ ledger → db'.taxRates.filter (fun r => decide (r.ledgerId = other)) =
        db.taxRates.filter (fun r => decide (r.ledgerId = other))) ∧
      (∀ other, other ≠ ledger → db'.inventoryItems.filter (fun i => decide (i.ledgerId = other)) =
        db.inventoryItems.filter (fun i => decide (i.ledgerId = other))) ∧
      (∀ other, other ≠ ledger → db'.fixedAssets.filter (fun a => decide (a.ledgerId = other)) =
        db.fixedAssets.filter (fun a => decide (a.ledgerId = other))) := by
  simp only [Db.Isolated, Db.rowsOf, LedgerRows.mk.injEq, Books.Isolated]
  constructor
  · intro h
    exact ⟨fun o ho => ⟨(h o ho).1, (h o ho).2.1⟩, fun o ho => (h o ho).2.2.1,
      fun o ho => (h o ho).2.2.2.1, fun o ho => (h o ho).2.2.2.2.1, fun o ho => (h o ho).2.2.2.2.2⟩
  · rintro ⟨hbooks, hbudgets, htaxes, hitems, hassets⟩ o ho
    exact ⟨(hbooks o ho).1, (hbooks o ho).2, hbudgets o ho, htaxes o ho, hitems o ho, hassets o ho⟩

theorem Db.isolated_of_books {db : Db} {b' : Books} {ledger : Uuid}
    (h : db.books.Isolated b' ledger) : db.Isolated { db with books := b' } ledger :=
  Db.isolated_iff.mpr ⟨h, fun _ _ => rfl, fun _ _ => rfl, fun _ _ => rfl, fun _ _ => rfl⟩

/-! ## The operations -/

/-- An operation that a user of a ledger starts with ids of their choice. -/
inductive TenantOp where
  | deleteBudget (budget : Uuid)
  | toggleTax (rate : Uuid)
  | purchase (item : Uuid) (form : Inventory.PurchaseForm)
  | adjust (item : Uuid) (form : Inventory.AdjustmentForm)
  | calculateDepreciation (asset : Uuid)
  | reverse (txn : Uuid)
  | bulk (form : TransactionsBulk.BulkForm)
  /-- A rule of the ledger fires, with whatever the event carries. -/
  | automation (rule : Uuid) (eventType : String) (action : Automation.Action)

namespace TenantOp

/-- Whether the operation was accepted, and the database after it. -/
def run (db : Db) (req : Request) (auth : Option Uuid) (ledger : Uuid) : TenantOp → Bool × Db
  | .deleteBudget budget => (Budgets.delete db auth ledger budget).map Except.isOk id
  | .toggleTax rate => (Taxes.toggle db auth ledger rate).map Except.isOk id
  | .purchase item form => (Inventory.purchase db req auth ledger item form).map Except.isOk id
  | .adjust item form => (Inventory.adjust db req auth ledger item form).map Except.isOk id
  | .calculateDepreciation asset =>
    (FixedAssets.calculateDepreciation db req auth ledger asset).map Except.isOk id
  | .reverse txn => (TransactionsEdit.reverse db req auth ledger txn).map Except.isOk id
  | .bulk form => (TransactionsBulk.bulkAction db req auth ledger form).map Except.isOk id
  | .automation rule eventType action =>
    (Automation.run db req
      { ruleId := .ok rule, ledgerId := .ok ledger, eventType := .ok eventType,
        action := .ok action }).map Except.isOk id

/-- The id names no row of another ledger, or the row already holds what is written. -/
def Spares (db : Db) (req : Request) (ledger : Uuid) : TenantOp → Prop
  | .deleteBudget budget => ∀ b ∈ db.budgets, b.id = budget → b.ledgerId = ledger
  | .toggleTax rate => ∀ r ∈ db.taxRates, r.id = rate → r.ledgerId = ledger
  | .purchase item _ => ∀ i ∈ db.inventoryItems, i.id = item → i.ledgerId = ledger
  | .adjust item form =>
    ∀ found ∈ Inventory.findItem db item, ∀ i ∈ db.inventoryItems, i.id = item →
      i.ledgerId = ledger ∨
        Inventory.adjustItem req (Rounding.wrapI32 (found.quantityOnHand + form.quantity)) i = i
  | .calculateDepreciation asset =>
    ∀ found ∈ FixedAssets.findAsset db asset, ∀ proposed ∈ FixedAssets.proposedCharge found,
      ∀ total ∈ amountColumn (FixedAssets.depreciated found proposed).1,
        ∀ a ∈ db.fixedAssets, a.id = asset → a.ledgerId = ledger ∨
          FixedAssets.chargeAsset req total (FixedAssets.depreciated found proposed).2 a = a
  | .reverse _ => True
  | .bulk _ => True
  | .automation rule _ action =>
    (db.automationRules.find? fun r => r.id = rule).map (·.isEnabled) = some true →
      ∀ name txn, action = .categorizeTransaction (.ok name) (some txn) →
        ∀ p ∈ db.books.postings, Automation.Uncategorized txn p → db.books.InLedger ledger p

/-! ## Updates by id -/

/-- An update of rows by their id stays within the ledger exactly when it changes no row
of another one. -/
theorem updateWhere_isolated_iff {ρ : Type} (ledgerOf : ρ → Uuid) {p : ρ → Prop}
    [DecidablePred p] {f : ρ → ρ} (hf : ∀ row, ledgerOf (f row) = ledgerOf row) (rows : List ρ)
    (ledger : Uuid) :
    (∀ other, other ≠ ledger →
      (updateWhere p f rows).filter (fun row => decide (ledgerOf row = other)) =
        rows.filter (fun row => decide (ledgerOf row = other))) ↔
      ∀ row ∈ rows, p row → ledgerOf row = ledger ∨ f row = row := by
  have hfilter : ∀ other, (updateWhere p f rows).filter (fun row => decide (ledgerOf row = other)) =
      rows.filter (fun row => decide (ledgerOf row = other)) ↔
        ∀ row ∈ rows, ledgerOf row = other → p row → f row = row :=
    fun other => filter_updateWhere_eq_iff (q := fun row => ledgerOf row = other) (by simp [hf]) rows
  simp only [hfilter]
  constructor
  · intro h row hrow hp
    by_cases hledger : ledgerOf row = ledger
    · exact Or.inl hledger
    · exact Or.inr (h _ hledger row hrow rfl hp)
  · intro h other hne row hrow hother hp
    rcases h row hrow hp with hledger | hsame
    · exact absurd (hother.symm.trans hledger) hne
    · exact hsame

/-- The operation is isolated when it is refused, and when it is accepted exactly if it
spares the other ledgers. -/
def Judged (db : Db) (req : Request) (auth : Option Uuid) (ledger : Uuid) (op : TenantOp) : Prop :=
  ((run db req auth ledger op).1 = false → db.Isolated (run db req auth ledger op).2 ledger) ∧
    ((run db req auth ledger op).1 = true →
      (db.Isolated (run db req auth ledger op).2 ledger ↔ op.Spares db req ledger))

variable {db : Db} {ledger : Uuid}

theorem judged_of_commit {req : Request} {auth : Option Uuid} {op : TenantOp}
    {body : Except AppError (Unit × Db)}
    (hrun : run db req auth ledger op = (commit db body).map Except.isOk id)
    (hok : ∀ db', commit db body = (.ok (), db') →
      (db.Isolated db' ledger ↔ op.Spares db req ledger)) :
    Judged db req auth ledger op := by
  rw [Judged, hrun]
  cases hbody : body with
  | error e => exact ⟨fun _ => Db.Isolated.refl db ledger, fun h => nomatch h⟩
  | ok r => exact ⟨fun h => (nomatch h), fun _ => hok r.2 (commit_eq_ok.mpr hbody)⟩

theorem judged_deleteBudget (db : Db) (req : Request) (auth : Option Uuid) (ledger budget : Uuid) :
    Judged db req auth ledger (.deleteBudget budget) := by
  refine judged_of_commit rfl ?_
  intro db' h
  obtain rfl := Budgets.delete_ok h
  rw [Db.isolated_iff, Spares]
  constructor
  · rintro ⟨-, hbudgets, -, -, -⟩ b hb hid
    by_contra hledger
    exact filter_deleteWhere_eq_iff.mp (hbudgets b.ledgerId hledger) b hb rfl hid
  · intro hspares
    refine ⟨Books.Isolated.refl db.books ledger, ?_, fun _ _ => rfl, fun _ _ => rfl, fun _ _ => rfl⟩
    intro other hne
    refine filter_deleteWhere_eq_iff.mpr ?_
    intro b hb hother hid
    exact hne (hother.symm.trans (hspares b hb hid))

theorem judged_toggleTax (db : Db) (req : Request) (auth : Option Uuid) (ledger rate : Uuid) :
    Judged db req auth ledger (.toggleTax rate) := by
  refine judged_of_commit rfl ?_
  intro db' h
  obtain rfl := Taxes.toggle_ok h
  have hiff := updateWhere_isolated_iff TaxRate.ledgerId (p := fun r => r.id = rate)
    (f := fun r => { r with isActive := !r.isActive }) (fun _ => rfl) db.taxRates ledger
  rw [Db.isolated_iff, Spares]
  constructor
  · rintro ⟨-, -, htaxes, -, -⟩ r hr hid
    rcases hiff.mp htaxes r hr hid with hledger | hsame
    · exact hledger
    · have hactive := congrArg TaxRate.isActive hsame
      simp at hactive
  · intro hspares
    exact ⟨Books.Isolated.refl db.books ledger, fun _ _ => rfl,
      hiff.mpr fun r hr hid => Or.inl (hspares r hr hid), fun _ _ => rfl, fun _ _ => rfl⟩

theorem judged_purchase (db : Db) (req : Request) (auth : Option Uuid) (ledger item : Uuid)
    (form : Inventory.PurchaseForm) : Judged db req auth ledger (.purchase item form) := by
  refine judged_of_commit rfl ?_
  intro db' h
  obtain ⟨quantity, average, layers, t, ps, b', -, hquantity, ht, hposts, rfl⟩ :=
    Inventory.purchase_ok h
  have hiff := updateWhere_isolated_iff InventoryItem.ledgerId (p := fun i => i.id = item)
    (f := Inventory.receiveItem req quantity average) (fun _ => rfl) db.inventoryItems ledger
  rw [Db.isolated_iff, Spares]
  constructor
  · rintro ⟨-, -, -, hitems, -⟩ i hi hid
    rcases hiff.mp hitems i hi hid with hledger | hsame
    · exact hledger
    · have hstock : i.quantityOnHand + quantity = i.quantityOnHand :=
        congrArg InventoryItem.quantityOnHand hsame
      omega
  · intro hspares
    exact ⟨hposts.isolated ht, fun _ _ => rfl, fun _ _ => rfl,
      hiff.mpr fun i hi hid => Or.inl (hspares i hi hid), fun _ _ => rfl⟩

theorem judged_adjust (db : Db) (req : Request) (auth : Option Uuid) (ledger item : Uuid)
    (form : Inventory.AdjustmentForm) : Judged db req auth ledger (.adjust item form) := by
  refine judged_of_commit rfl ?_
  intro db' h
  obtain ⟨found, layers, t, ps, b', hfound, ht, hposts, rfl⟩ := Inventory.adjust_ok h
  have hiff := updateWhere_isolated_iff InventoryItem.ledgerId (p := fun i => i.id = item)
    (f := Inventory.adjustItem req (Rounding.wrapI32 (found.quantityOnHand + form.quantity)))
    (fun _ => rfl) db.inventoryItems ledger
  rw [Db.isolated_iff, Spares]
  constructor
  · rintro ⟨-, -, -, hitems, -⟩ found' hfound'
    obtain rfl : found = found' := Option.some.inj (hfound.symm.trans hfound')
    exact hiff.mp hitems
  · intro hspares
    exact ⟨hposts.isolated ht, fun _ _ => rfl, fun _ _ => rfl, hiff.mpr (hspares found hfound),
      fun _ _ => rfl⟩

theorem judged_calculateDepreciation (db : Db) (req : Request) (auth : Option Uuid)
    (ledger asset : Uuid) : Judged db req auth ledger (.calculateDepreciation asset) := by
  refine judged_of_commit rfl ?_
  intro db' h
  obtain ⟨found, proposed, total, hfound, hproposed, htotal, rfl⟩ :=
    FixedAssets.calculateDepreciation_ok h
  have hiff := updateWhere_isolated_iff FixedAsset.ledgerId (p := fun a => a.id = asset)
    (f := FixedAssets.chargeAsset req total (FixedAssets.depreciated found proposed).2)
    (fun _ => rfl) db.fixedAssets ledger
  rw [Db.isolated_iff, Spares]
  constructor
  · rintro ⟨-, -, -, -, hassets⟩ found' hfound' proposed' hproposed' total' htotal'
    obtain rfl : found = found' := Option.some.inj (hfound.symm.trans hfound')
    obtain rfl : proposed = proposed' := Option.some.inj (hproposed.symm.trans hproposed')
    obtain rfl : total = total' := Option.some.inj (htotal.symm.trans htotal')
    exact hiff.mp hassets
  · intro hspares
    exact ⟨Books.Isolated.refl db.books ledger, fun _ _ => rfl, fun _ _ => rfl, fun _ _ => rfl,
      hiff.mpr (hspares found hfound proposed hproposed total htotal)⟩

/-! ## The operations that name the ledger -/

theorem reverse_isolated (db : Db) (req : Request) (auth : Option Uuid) (ledger txn : Uuid) :
    db.Isolated (TransactionsEdit.reverse db req auth ledger txn).2 ledger := by
  rcases TransactionsEdit.reverse_cases db req auth ledger txn with
    h | ⟨original, t, ps, b', -, -, -, ht, h, hposts, -⟩
  · rw [h]
    exact Db.Isolated.refl db ledger
  · rw [h]
    exact Db.isolated_of_books (hposts.isolated (congrArg Header.ledgerId ht))

theorem attachTag_rowsOf (db : Db) (ledger tag txn other : Uuid) :
    (TransactionsBulk.attachTag db ledger tag txn).rowsOf other = db.rowsOf other := by
  rw [TransactionsBulk.attachTag]
  split <;> rfl

theorem foldl_rowsOf {f : Db → Uuid → Db} (hf : ∀ db txn other, (f db txn).rowsOf other = db.rowsOf other)
    (ids : List Uuid) (db : Db) (other : Uuid) : (ids.foldl f db).rowsOf other = db.rowsOf other := by
  induction ids generalizing db with
  | nil => rfl
  | cons txn ids ih => rw [List.foldl_cons, ih, hf]

theorem tagAction_rowsOf {db' : Db} {req : Request} {ids : List Uuid} {value : Option String}
    (h : TransactionsBulk.tagAction db req ledger ids value = .ok db') (other : Uuid) :
    db'.rowsOf other = db.rowsOf other := by
  simp only [TransactionsBulk.tagAction, bind_eq_ok] at h
  obtain ⟨name, -, ⟨tag, db₁⟩, hupsert, h⟩ := h
  cases h
  have hrows : db₁.rowsOf other = db.rowsOf other := by
    rw [TransactionsBulk.upsertTag] at hupsert
    split at hupsert
    · cases hupsert
      rfl
    · rw [bind_eq_ok] at hupsert
      obtain ⟨-, -, hupsert⟩ := hupsert
      cases hupsert
      rfl
  rw [foldl_rowsOf (fun db txn other => attachTag_rowsOf db ledger tag txn other), hrows]

theorem untagAction_rowsOf {db' : Db} {ids : List Uuid} {value : Option String}
    (h : TransactionsBulk.untagAction db ledger ids value = .ok db') (other : Uuid) :
    db'.rowsOf other = db.rowsOf other := by
  simp only [TransactionsBulk.untagAction, bind_eq_ok] at h
  obtain ⟨name, -, g, -, h⟩ := h
  cases h
  refine foldl_rowsOf ?_ ids db other
  intro _ _ _
  rfl

theorem setContacts_isolated {contact : Uuid} :
    ∀ (ids : List Uuid) (db : Db),
      db.Isolated (TransactionsBulk.setContacts ledger contact db ids).2 ledger
  | [], db => Db.Isolated.refl db ledger
  | id :: ids, db => by
    rw [TransactionsBulk.setContacts]
    cases hset : TransactionsBulk.setContact db ledger contact id with
    | error e => exact Db.Isolated.refl db ledger
    | ok db₁ =>
      obtain ⟨hf, rfl⟩ := Db.updateTransactions_spec hset
      refine Db.Isolated.trans (Db.isolated_of_books (Books.mapTxns_isolated ?_ ?_))
        (setContacts_isolated ids _)
      · intro t
        split <;> rfl
      · intro t ht
        simp [ht]

theorem deleteAction_isolated {db' : Db} {req : Request} {user : Uuid} {ids : List Uuid}
    (h : TransactionsBulk.deleteAction db req user ledger ids = .ok db') :
    db.Isolated db' ledger := by
  rw [TransactionsBulk.deleteAction, mapError_eq_ok] at h
  obtain ⟨b', rfl, hb'⟩ := TransactionsBulk.reverseAll_invariant
    (P := fun b => db.books.Isolated b ledger)
    (fun hb _ _ ht hposts _ => hb.trans (hposts.isolated (congrArg Header.ledgerId ht)))
    (Books.Isolated.refl db.books ledger) h
  exact Db.isolated_of_books hb'

theorem commit_map_isolated {body : Except AppError Db}
    (h : ∀ db', body = .ok db' → db.Isolated db' ledger) :
    db.Isolated (commit db (body.map fun db' => ((), db'))).2 ledger := by
  rcases TransactionsBulk.commit_map_cases db body with hsame | ⟨db', hok, hdb'⟩
  · rw [hsame]
    exact Db.Isolated.refl db ledger
  · rw [hdb']
    exact h db' hok

theorem bulk_isolated (db : Db) (req : Request) (auth : Option Uuid) (ledger : Uuid)
    (form : TransactionsBulk.BulkForm) :
    db.Isolated (TransactionsBulk.bulkAction db req auth ledger form).2 ledger := by
  rcases TransactionsBulk.bulkAction_cases db req auth ledger form with h | ⟨user, -, -, h⟩
  · rw [h]
    exact Db.Isolated.refl db ledger
  · rw [h, TransactionsBulk.runAction]
    cases form.action with
    | tag => exact commit_map_isolated fun db' hok other _ => tagAction_rowsOf hok other
    | untag => exact commit_map_isolated fun db' hok other _ => untagAction_rowsOf hok other
    | contact =>
      dsimp only
      rw [TransactionsBulk.contactAction]
      split
      · exact Db.Isolated.refl db ledger
      · exact setContacts_isolated form.txnIds db
    | delete => exact commit_map_isolated fun db' hok => deleteAction_isolated hok
    | other name => exact Db.Isolated.refl db ledger

/-! ## Automation -/

theorem inLedger_or {b : Books} {p : Posting} (hp : p ∈ b.postings) (ledger : Uuid) :
    b.InLedger ledger p ∨ ∃ other, other ≠ ledger ∧ b.InLedger other p := by
  obtain ⟨t, ht, hid⟩ := List.mem_map.mp (b.posting_txn_fk p hp)
  have hheader : b.header p.transactionId = some t.header := hid ▸ Books.header_of_mem ht
  by_cases hledger : t.ledgerId = ledger
  · exact Or.inl ⟨t.header, hheader, hledger⟩
  · exact Or.inr ⟨t.ledgerId, hledger, t.header, hheader, rfl⟩

theorem inLedger_unique {b : Books} {p : Posting} {other : Uuid} (h : b.InLedger ledger p)
    (h' : b.InLedger other p) : ledger = other := by
  obtain ⟨head, hhead, rfl⟩ := h
  obtain ⟨head', hhead', rfl⟩ := h'
  rw [Option.some.inj (hhead.symm.trans hhead')]

/-- Categorizing a transaction stays within the ledger exactly when the postings it
touches do. -/
theorem categorize_isolated_iff {b : Books} {txn center : Uuid} :
    b.Isolated (b.mapPostings (Automation.withCostCenter txn center)
        (Automation.withCostCenter_transactionId txn center)
        (Automation.withCostCenter_accountId txn center)) ledger ↔
      ∀ p ∈ b.postings, Automation.Uncategorized txn p → b.InLedger ledger p := by
  have hiff : ∀ other, _ ↔ ∀ p ∈ b.postings, b.InLedger other p → Automation.Uncategorized txn p →
      { p with costCenterId := some center } = p :=
    fun other => filter_updateWhere_eq_iff (p := Automation.Uncategorized txn)
      (q := b.InLedger other) (f := fun p => { p with costCenterId := some center })
      (fun _ => Iff.rfl) b.postings
  constructor
  · intro h p hp huncat
    rcases inLedger_or hp ledger with hin | ⟨other, hne, hother⟩
    · exact hin
    · have hsame := (hiff other).mp (h other hne).2 p hp hother huncat
      have hcenter := congrArg Posting.costCenterId hsame
      rw [huncat.2] at hcenter
      cases hcenter
  · intro h other hne
    refine ⟨rfl, (hiff other).mpr ?_⟩
    intro p hp hother huncat
    exact absurd (inLedger_unique hother (h p hp huncat)) hne

/-- An automation is isolated exactly if it spares the other ledgers. -/
theorem judged_automation (db : Db) (req : Request) (auth : Option Uuid) (ledger rule : Uuid)
    (eventType : String) (action : Automation.Action) :
    Judged db req auth ledger (.automation rule eventType action) := by
  by_cases henabled : (db.automationRules.find? fun r => r.id = rule).map (·.isEnabled) = some true
  · have hrun : run db req auth ledger (.automation rule eventType action) =
        (Automation.perform db req ledger action).map Except.isOk id := by
      show (if _ then _ else _ : Except Automation.JobError Unit × Db).map Except.isOk id = _
      rw [if_pos henabled]
    rw [Judged, hrun]
    rcases Automation.perform_cases db req ledger action with
      ⟨centers, hdb, hother⟩ | ⟨name, txn, center, centers, rfl, hperform⟩
    · have hiso : db.Isolated (Automation.perform db req ledger action).2 ledger := by
        rw [hdb]
        exact fun _ _ => rfl
      refine ⟨fun _ => hiso, fun hok => ⟨fun _ => ?_, fun _ => hiso⟩⟩
      intro _ name txn haction
      have hanswer : (Automation.perform db req ledger action).1 = .ok () := by
        cases hres : (Automation.perform db req ledger action).1 with
        | ok u => rfl
        | error e => simp [Prod.map, hres, Except.isOk, Except.toBool] at hok
      exact absurd haction (hother hanswer name txn)
    · rw [hperform]
      refine ⟨(fun h => by cases h), fun _ => ?_⟩
      rw [Db.isolated_iff, Spares]
      constructor
      · rintro ⟨hbooks, -⟩ _ name' txn' haction
        cases haction
        exact categorize_isolated_iff.mp hbooks
      · intro hspares
        exact ⟨categorize_isolated_iff.mpr (hspares henabled name txn rfl), fun _ _ => rfl,
          fun _ _ => rfl, fun _ _ => rfl, fun _ _ => rfl⟩
  · have hrun : run db req auth ledger (.automation rule eventType action) = (true, db) := by
      show (if _ then _ else _ : Except Automation.JobError Unit × Db).map Except.isOk id = _
      rw [if_neg henabled]
      rfl
    rw [Judged, hrun]
    refine ⟨(fun h => by cases h), fun _ => ⟨fun _ hon => absurd hon henabled, fun _ => ?_⟩⟩
    exact Db.Isolated.refl db ledger

/-! ## All operations -/

/-- A refused operation changes no row of another ledger.  An accepted one spares the
other ledgers exactly when the id it was given belongs to the ledger of the path, or when
there was nothing to change in the row. -/
theorem isolated_iff_spares (db : Db) (req : Request) (auth : Option Uuid) (ledger : Uuid)
    (op : TenantOp) :
    ((run db req auth ledger op).1 = false → db.Isolated (run db req auth ledger op).2 ledger) ∧
      ((run db req auth ledger op).1 = true →
        (db.Isolated (run db req auth ledger op).2 ledger ↔ op.Spares db req ledger)) := by
  cases op with
  | deleteBudget budget => exact judged_deleteBudget db req auth ledger budget
  | toggleTax rate => exact judged_toggleTax db req auth ledger rate
  | purchase item form => exact judged_purchase db req auth ledger item form
  | adjust item form => exact judged_adjust db req auth ledger item form
  | calculateDepreciation asset => exact judged_calculateDepreciation db req auth ledger asset
  | reverse txn =>
    have hiso := reverse_isolated db req auth ledger txn
    exact ⟨fun _ => hiso, fun _ => ⟨fun _ => trivial, fun _ => hiso⟩⟩
  | bulk form =>
    have hiso := bulk_isolated db req auth ledger form
    exact ⟨fun _ => hiso, fun _ => ⟨fun _ => trivial, fun _ => hiso⟩⟩
  | automation rule eventType action =>
    exact judged_automation db req auth ledger rule eventType action

/-- Ledger `1` of user `1` and ledger `2` of user `2`, with a budget. -/
def twoLedgers : Db where
  users := [{ id := 1 }, { id := 2 }]
  ledgers := [{ id := 1, ownerId := 1 }, { id := 2, ownerId := 2 }]
  budgets := [{ id := 5, ledgerId := 2, accountId := 9, amount := 100 }]

/-- User `1` deletes the budget of ledger `2` through ledger `1`. -/
theorem deleteBudget_not_isolated :
    ¬ twoLedgers.Related 1 2 ∧
      (run twoLedgers (Sample.request 1) (some 1) 1 (.deleteBudget 5)).1 = true ∧
      ¬ twoLedgers.Isolated (run twoLedgers (Sample.request 1) (some 1) 1 (.deleteBudget 5)).2
        1 := by
  refine ⟨by simp [Db.Related, twoLedgers], by decide, ?_⟩
  intro h
  have hrows := congrArg LedgerRows.budgets (h 2 (by decide))
  revert hrows
  decide

end TenantOp

end OpenAccounting
