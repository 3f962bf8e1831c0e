import OpenAccounting.Domain.PostingService
import OpenAccounting.Handlers.Inventory

/-!
# Fixed assets

The depreciation arithmetic of `domain/depreciation.rs`, and from `handlers/fixed_assets.rs`
`calculate_depreciation`, which writes one monthly charge to an asset, and `dispose`.  The
charge finds and updates the asset by its id alone, the disposal finds it in the ledger of the
path.
-/

namespace OpenAccounting

open Calendar Commit Relational Rounding

namespace Depreciation

/-- `straight_line_monthly`.  The product `life_years * 12` wraps, and a product that
wraps to zero ends the program. -/
def straightLineMonthly (cost salvage : ℚ) (lifeYears : ℤ) : Option ℚ :=
  if lifeYears ≤ 0 then some 0
  else if wrapI32 (lifeYears * 12) = 0 then none
  else some ((cost - salvage) / wrapI32 (lifeYears * 12))

def decliningBalanceMonthly (netBookValue : ℚ) (lifeYears : ℤ) : ℚ :=
  if lifeYears ≤ 0 ∨ netBookValue ≤ 0 then 0
  else roundDpHalfEven 2 (netBookValue * 2 / lifeYears / 12)

def netBookValue (cost accumulated : ℚ) : ℚ := cost - accumulated

def capAtDepreciable (proposed accumulated cost salvage : ℚ) : ℚ :=
  let remaining := max (cost - salvage - accumulated) 0
  max (min proposed remaining) 0

end Depreciation

namespace FixedAssets

open Depreciation

/-- The monthly charge of the asset before it is capped. -/
def proposedCharge (asset : FixedAsset) : Option ℚ :=
  match asset.depreciationMethod with
  | .decliningBalance =>
    some (decliningBalanceMonthly (asset.purchaseCost - asset.accumulatedDepreciation)
      asset.usefulLifeYears)
  | .straightLine =>
    straightLineMonthly asset.purchaseCost asset.salvageValue asset.usefulLifeYears

/-- The new accumulated depreciation, and the status that goes with it. -/
def depreciated (asset : FixedAsset) (proposed : ℚ) : ℚ × AssetStatus :=
  let toAdd := capAtDepreciable proposed asset.accumulatedDepreciation asset.purchaseCost
    asset.salvageValue
  let newTotal := asset.accumulatedDepreciation + toAdd
  (newTotal,
    if asset.purchaseCost - asset.salvageValue ≤ newTotal then .fullyDepreciated else .active)

/-- What the charge writes to the asset. -/
def chargeAsset (req : Request) (total : ℚ) (status : AssetStatus) (a : FixedAsset) : FixedAsset :=
  { a with accumulatedDepreciation := total, status := status, updatedAt := req.now }

/-- `SELECT … FROM fixed_assets WHERE id = $1`. -/
def findAsset (db : Db) (asset : Uuid) : Option FixedAsset :=
  db.fixedAssets.find? fun a => a.id = asset

def calculateDepreciation (db : Db) (req : Request) (auth : Option Uuid) (ledger asset : Uuid) :
    Except AppError Unit × Db :=
  commit db do
    let user ← okOr auth .unauthorized
    let _ ← db.ensureWriter user ledger
    let found ← okOr (findAsset db asset) .notFound
    ensure (found.status ≠ .disposed ∧ found.status ≠ .fullyDepreciated)
      (.validation "Asset cannot be depreciated")
    let proposed ← okOr (proposedCharge found) (.internal "Division by zero")
    let (newTotal, newStatus) := depreciated found proposed
    let total ← okOr (amountColumn newTotal) (.db .numericFieldOverflow)
    .ok ((), { db with
      fixedAssets := updateWhere (fun a => a.id = asset) (chargeAsset req total newStatus)
        db.fixedAssets })

/-- An accepted charge: the rows with the asset's id, and nothing else. -/
theorem calculateDepreciation_ok {db db' : Db} {req : Request} {auth : Option Uuid}
    {ledger asset : Uuid}
    (h : calculateDepreciation db req auth ledger asset = (.ok (), db')) :
    ∃ found proposed total, findAsset db asset = some found ∧
      proposedCharge found = some proposed ∧
      amountColumn (depreciated found proposed).1 = some total ∧
      db' = { db with
        fixedAssets := updateWhere (fun a => a.id = asset)
          (chargeAsset req total (depreciated found proposed).2) db.fixedAssets } := by
  rw [calculateDepreciation, commit_eq_ok] at h
  simp only [bind_eq_ok, okOr_eq_ok, ensure_eq_ok] at h
  obtain ⟨user, -, _, -, found, hfound, -, -, proposed, hproposed, total, htotal, h⟩ := h
  cases h
  exact ⟨found, proposed, total, hfound, hproposed, htotal, rfl⟩

/-! ## Disposal -/

/-- The form of a disposal, as its parsers leave the fields.  A date that is missing does not
parse either. -/
structure DisposalForm where
  disposedDate : Option NaiveDate
  disposedAmount : Option (Option ℚ)

/-- `SELECT … FROM fixed_assets WHERE id = $1 AND ledger_id = $2`. -/
def findAssetIn (db : Db) (asset ledger : Uuid) : Option FixedAsset :=
  db.fixedAssets.find? fun a => a.id = asset ∧ a.ledgerId = ledger

/-- Proceeds against net book value. -/
def gainLoss (found : FixedAsset) (proceeds : ℚ) : ℚ :=
  proceeds - netBookValue found.purchaseCost found.accumulatedDepreciation

/-- The first income account by name for a gain, the first expense account for a loss. -/
def glAccount (db : Db) (ledger : Uuid) (gain : ℚ) : Option Account :=
  let type := if 0 < gain then AccountType.income else .expense
  (orderBy Account.name
    (db.books.accounts.filter fun a => a.ledgerId = ledger ∧ a.type = type)).head?

/-- The lines of a disposal: the proceeds, the book value, and the gain or loss. -/
def disposalLines (found : FixedAsset) (cash gl : Uuid) (proceeds : ℚ) : List TxnLineInput :=
  let nbv := netBookValue found.purchaseCost found.accumulatedDepreciation
  let gain := gainLoss found proceeds
  [{ accountId := cash, signedAmount := proceeds, memo := some "Disposal proceeds" },
    { accountId := found.accountId, signedAmount := -nbv,
      memo := some "Disposal: relieve asset NBV" },
    { accountId := gl, signedAmount := -gain,
      memo := some (if 0 < gain then "Disposal gain" else "Disposal loss") }]

def disposalEntry (user ledger : Uuid) (date : NaiveDate) (lines : List TxnLineInput) :
    NewTransaction where
  ledgerId := ledger
  txnDate := date
  description := "Disposal of fixed asset"
  createdBy := user
  lines := lines

def disposalAccounts (db : Db) (ledger : Uuid) (gain : ℚ) :
    Except AppError (Account × Account) := do
  let cash ← okOr (Inventory.cashAccount db ledger)
    (.validation "disposal needs a cash account for the proceeds")
  let gl ← okOr (glAccount db ledger gain)
    (.validation ("disposal needs an income/expense account for the " ++
      if 0 < gain then "gain" else "loss"))
  .ok (cash, gl)

/-- The entry is posted when there is a gain or a loss.  The text of a failed posting goes on
with the cause. -/
def postDisposal (db : Db) (req : Request) (user ledger : Uuid) (found : FixedAsset)
    (date : NaiveDate) (proceeds : ℚ) : Except AppError Unit × Db :=
  if gainLoss found proceeds = 0 then (.ok (), db)
  else
    match disposalAccounts db ledger (gainLoss found proceeds) with
    | .error e => (.error e, db)
    | .ok (cash, gl) =>
      match PostingService.create db req
          (disposalEntry user ledger date (disposalLines found cash.id gl.id proceeds)) with
      | (.error _, db) => (.error (.validation "disposal posting failed: "), db)
      | (.ok _, db) => (.ok (), db)

/-- What the disposal writes to the asset. -/
def disposeAsset (req : Request) (date : NaiveDate) (amount : ℚ) (a : FixedAsset) : FixedAsset :=
  { a with
    status := .disposed, disposedDate := some date, disposedAmount := some amount,
    updatedAt := req.now }

/-- `UPDATE fixed_assets SET status = 'disposed', … WHERE id = $3`. -/
def markDisposed (db : Db) (req : Request) (asset : Uuid) (date : NaiveDate) (proceeds : ℚ) :
    Except AppError (Unit × Db) := do
  let amount ← okOr (amountColumn proceeds) (.db .numericFieldOverflow)
  .ok ((), { db with
    fixedAssets := updateWhere (fun a => a.id = asset) (disposeAsset req date amount)
      db.fixedAssets })

/-- What `dispose` reads before it writes. -/
def readDisposal (db : Db) (auth : Option Uuid) (ledger asset : Uuid) (form : DisposalForm) :
    Except AppError (Uuid × NaiveDate × ℚ × FixedAsset) := do
  let user ← okOr auth .unauthorized
  let _ ← db.ensureWriter user ledger
  let date ← okOr form.disposedDate (.validation "Invalid date")
  let amount ← okOr form.disposedAmount (.validation "Missing amount")
  let amount ← okOr amount (.validation "Invalid amount")
  let found ← okOr (findAssetIn db asset ledger) .notFound
  .ok (user, date, amount, found)

/-- `dispose`.  The status of the asset is not read, and the posting is committed before the
asset is marked. -/
def dispose (db : Db) (req : Request) (auth : Option Uuid) (ledger asset : Uuid)
    (form : DisposalForm) : Except AppError Unit × Db :=
  match readDisposal db auth ledger asset form with
  | .error e => (.error e, db)
  | .ok (user, date, proceeds, found) =>
    match postDisposal db req user ledger found date proceeds with
    | (.error e, db) => (.error e, db)
    | (.ok (), db) => commit db (markDisposed db req asset date proceeds)

end FixedAssets

end OpenAccounting
