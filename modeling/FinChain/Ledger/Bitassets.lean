import FinChain.Ledger.Assets
import FinChain.Ledger.Market

/-!
# Price feeds and settlement

The operations on market-issued assets: updates of their options, price feeds, and the two
settlements. A holder asks for a settlement with `asset_settle`; before the asset is settled globally
this puts the amount in a queue, afterwards it is paid at once out of the settlement fund.

The current feed is the median of the feeds that have not expired, field by field. When too few are
left it is null, and `update_expired_feeds` sees to that in every block. After a global settlement
no feed is published any more.
-/

namespace FinChain.Ledger

open Exec

/-- `HARDFORK_480_TIME`. -/
def hardfork480Time : ℕ := 1450378800

/-- `HARDFORK_572_TIME`. -/
def hardfork572Time : ℕ := 1456250400

/-- `HARDFORK_615_TIME`. -/
def hardfork615Time : ℕ := 1458752400

/-- `GRAPHENE_WITNESS_ACCOUNT`. -/
def witnessAccount : ℕ := 1

/-! ### Price feeds -/

namespace PriceFeed

/-- `price_feed::operator ==`, which does not look at the rate for fees. -/
def same (a b : PriceFeed) : Bool :=
  a.settlementPrice.eq b.settlementPrice &&
    decide (a.maintenanceCollateralRatio = b.maintenanceCollateralRatio ∧
      a.maximumShortSqueezeRatio = b.maximumShortSqueezeRatio)

/-- Between `GRAPHENE_MIN_COLLATERAL_RATIO` and `GRAPHENE_MAX_COLLATERAL_RATIO`. -/
def RatioInRange (ratio : ℕ) : Prop := 1001 ≤ ratio ∧ ratio ≤ 32000

instance (ratio : ℕ) : Decidable (RatioInRange ratio) := inferInstanceAs (Decidable (_ ∧ _))

/-- A price that is validated unless it is null. -/
def validatePrice (p : Price) : Except LedgerError Unit :=
  if p.isNull then .ok () else p.validate

/-- `price_feed::validate`. -/
def validate (f : PriceFeed) : Except LedgerError Unit := do
  validatePrice f.settlementPrice
  check .assertion (RatioInRange f.maximumShortSqueezeRatio)
  check .assertion (RatioInRange f.maintenanceCollateralRatio)
  let _ ← f.maxShortSqueezePrice

/-- `price_feed::is_for`. -/
def isFor (f : PriceFeed) (assetId : ℕ) : Bool :=
  if !f.settlementPrice.isNull then decide (f.settlementPrice.base.assetId = assetId)
  else if !f.coreExchangeRate.isNull then decide (f.coreExchangeRate.base.assetId = assetId)
  else true

/-- The element in the middle of the sorted values, as `std::nth_element` finds it. -/
def median {β : Type} (less : β → β → Bool) (values : List β) (default : β) : β :=
  (values.insertionSort (fun a b => less b a = false)).getD (values.length / 2) default

/-- The feed of the medians of all fields. -/
def medians (feeds : List PriceFeed) : PriceFeed where
  settlementPrice := median Price.lt (feeds.map settlementPrice) .null
  coreExchangeRate := median Price.lt (feeds.map coreExchangeRate) .null
  maintenanceCollateralRatio :=
    median (fun a b => decide (a < b)) (feeds.map maintenanceCollateralRatio) 1750
  maximumShortSqueezeRatio :=
    median (fun a b => decide (a < b)) (feeds.map maximumShortSqueezeRatio) 1500

end PriceFeed

namespace BitassetData

/-- The feeds that have not expired, with the time of their publication. -/
def currentFeeds (b : BitassetData) (now : ℕ) : List (ℕ × PriceFeed) :=
  (b.feeds.entries.map fun e => e.2).filter fun f =>
    decide (now < f.1 + b.options.feedLifetimeSec ∧ f.1 ≠ 0)

/-- The median of a list of feeds. -/
def medianFeed : List PriceFeed → PriceFeed
  | [f] => f
  | feeds => PriceFeed.medians feeds

/-- `update_median_feeds`. -/
def updateMedianFeeds (b : BitassetData) (now : ℕ) : BitassetData :=
  let current := b.currentFeeds now
  if current.length < b.options.minimumFeeds then
    { b with currentFeedPublicationTime := now, currentFeed := .null }
  else
    { b with
      currentFeedPublicationTime := (current.map Prod.fst).foldr min now
      currentFeed := medianFeed (current.map Prod.snd) }

/-- `feed_expiration_time`. -/
def feedExpirationTime (b : BitassetData) : ℕ :=
  timePointSec (b.currentFeedPublicationTime + b.options.feedLifetimeSec)

/-- `feed_is_expired_before_hardfork_615` and `feed_is_expired`. -/
def feedIsExpired (b : BitassetData) (now : ℕ) : Bool :=
  if now < hardfork615Time then decide (now ≤ b.feedExpirationTime)
  else decide (b.feedExpirationTime ≤ now)

/-- `max_force_settlement_volume`. -/
def maxForceSettlementVolume (b : BitassetData) (currentSupply : ℤ) : Except LedgerError ℤ :=
  let volume := uint128 (uint128 (currentSupply + b.forceSettledVolume) *
    b.options.maximumForceSettlementVolume) / hundredPercent
  if b.options.maximumForceSettlementVolume = 0 then .ok 0
  else if b.options.maximumForceSettlementVolume = hundredPercent then
    .ok (currentSupply + b.forceSettledVolume)
  else if volume < 2 ^ 64 then .ok volume
  else .error .assertion

end BitassetData

/-- Modify the data of a bitasset. -/
def modifyBitasset (assetId : ℕ) (g : BitassetData → BitassetData) : LedgerM Unit :=
  update fun s => { s with bitassets := s.bitassets.modify assetId g }

/-! ### Updates -/

/-- `asset_object::validate` of an asset with new options. -/
def AssetOptions.suit (o : AssetOptions) (marketIssued : Bool) : Prop :=
  marketIssued = false →
    .disableForceSettle ∉ o.flags ∧ .globalSettle ∉ o.flags ∧
      .disableForceSettle ∉ o.issuerPermissions ∧ .globalSettle ∉ o.issuerPermissions

instance (o : AssetOptions) (marketIssued : Bool) : Decidable (o.suit marketIssued) :=
  inferInstanceAs (Decidable (_ → _))

/-- The order of `force_settlement_index` by expiration within an asset. -/
def settlementBefore (a b : ℕ × ForceSettlement) : Prop :=
  a.2.settlementDate < b.2.settlementDate ∨ a.2.settlementDate = b.2.settlementDate ∧ a.1 ≤ b.1

instance : DecidableRel settlementBefore := fun _ _ => inferInstanceAs (Decidable (_ ∨ _))

/-- The settlements of one asset, in the order of the index. -/
def Books.settlementsOf (s : Books) (assetId : ℕ) : List (ℕ × ForceSettlement) :=
  (s.settlements.entries.filter fun e => decide (e.2.balance.assetId = assetId)).insertionSort
    settlementBefore

/-- Cancel settlements one after the other. -/
def cancelSettlements : List ℕ → LedgerM Unit
  | [] => pure ()
  | id :: ids => do
    cancelSettlement id
    cancelSettlements ids

/-- `asset_update_operation`. -/
structure AssetUpdate where
  fee : Asset
  issuer : ℕ
  assetToUpdate : ℕ
  newIssuer : Option ℕ
  newOptions : AssetOptions

namespace AssetUpdate

def validate (op : AssetUpdate) : LedgerM Unit := do
  assert .assertion (0 ≤ op.fee.amount)
  assert .assertion (op.newIssuer ≠ some op.issuer)
  op.newOptions.validate
  let dummy ← lift (Asset.mul ⟨1, op.assetToUpdate⟩ op.newOptions.coreExchangeRate)
  assert .assertion (dummy.assetId = core)

/-- A new issuer exists, and may be the committee only if the asset is backed by core. -/
def checkNewIssuer (op : AssetUpdate) : Option ℕ → LedgerM Unit
  | none => pure ()
  | some issuer => do
    let s ← get
    let _ ← require .notFound (s.statistics.lookup issuer)
    match s.bitassets.lookup op.assetToUpdate with
    | none => pure ()
    | some b =>
      if issuer = committee then checkBackedByCore issuer b.shortBackingAsset false else pure ()

def doEvaluate (op : AssetUpdate) : LedgerM AssetObject := do
  let s ← get
  let a ← require .notFound (s.assets.lookup op.assetToUpdate)
  assert .assertion (op.newOptions.suit (s.isMarketIssued op.assetToUpdate))
  op.checkNewIssuer op.newIssuer
  let d ← require .notFound (s.dynamicData.lookup op.assetToUpdate)
  -- "Cannot reinstate previously revoked issuer permissions on an asset."
  assert .assertion (s.headTime < hardfork572Time ∨ d.currentSupply ≠ 0 →
    op.newOptions.issuerPermissions ⊆ a.options.issuerPermissions)
  -- "Flag change is forbidden by issuer permissions"
  assert .assertion (symmDiff op.newOptions.flags a.options.flags ⊆ a.options.issuerPermissions)
  assert .assertion (op.issuer = a.issuer)
  op.newOptions.checkAuthorities
  return a

/-- "If we are now disabling force settlements, cancel all open force settlement orders" -/
def cancelIfDisabled (op : AssetUpdate) (a : AssetObject) : LedgerM Unit := do
  let s ← get
  if .disableForceSettle ∈ op.newOptions.flags ∧ a.canForceSettle = true then
    cancelSettlements ((s.settlementsOf op.assetToUpdate).map Prod.fst)
  else pure ()

def doApply (op : AssetUpdate) (a : AssetObject) : LedgerM Unit := do
  op.cancelIfDisabled a
  update fun s =>
    { s with
      assets := s.assets.modify op.assetToUpdate fun a =>
        { a with issuer := op.newIssuer.getD a.issuer, options := op.newOptions } }

def evaluator (op : AssetUpdate) : Evaluator AssetObject where
  feePayer := op.issuer
  fee := op.fee
  kind := .assetUpdate
  doEvaluate := op.doEvaluate
  doApply := fun _ a => op.doApply a

end AssetUpdate

/-- `asset_update_bitasset_operation`. -/
structure AssetUpdateBitasset where
  fee : Asset
  issuer : ℕ
  assetToUpdate : ℕ
  newOptions : BitassetOptions

namespace AssetUpdateBitasset

def validate (op : AssetUpdateBitasset) : LedgerM Unit := assert .assertion (0 ≤ op.fee.amount)

/-- The checks of a new backing asset. The last one looks at the asset that backs it until now. -/
def checkBacking (op : AssetUpdateBitasset) (a : AssetObject) (b : BitassetData) : LedgerM Unit :=
  if op.newOptions.shortBackingAsset = b.shortBackingAsset then pure ()
  else do
    let s ← get
    let d ← require .notFound (s.dynamicData.lookup op.assetToUpdate)
    assert .assertion (d.currentSupply = 0)
    let _ ← require .notFound (s.assets.lookup op.newOptions.shortBackingAsset)
    if a.issuer = committee then checkBackedByCore a.issuer b.shortBackingAsset false else pure ()

def doEvaluate (op : AssetUpdateBitasset) : LedgerM BitassetData := do
  let s ← get
  let a ← require .notFound (s.assets.lookup op.assetToUpdate)
  let b ← require .assertion (s.bitassets.lookup op.assetToUpdate)
  assert .assertion (b.hasSettlement = false)
  op.checkBacking a b
  assert .assertion (op.issuer = a.issuer)
  return b

/-- The new options; the median changes with the number of feeds that it needs. -/
def change (op : AssetUpdateBitasset) (now : ℕ) (b : BitassetData) : BitassetData :=
  if op.newOptions.minimumFeeds ≠ b.options.minimumFeeds then
    BitassetData.updateMedianFeeds { b with options := op.newOptions } now
  else { b with options := op.newOptions }

def doApply (op : AssetUpdateBitasset) : LedgerM Unit := do
  let s ← get
  modifyBitasset op.assetToUpdate (op.change s.headTime)

def evaluator (op : AssetUpdateBitasset) : Evaluator BitassetData where
  feePayer := op.issuer
  fee := op.fee
  kind := .assetUpdateBitasset
  doEvaluate := op.doEvaluate
  doApply := fun _ _ => op.doApply

end AssetUpdateBitasset

/-! ### Feeds -/

/-- `asset_update_feed_producers_operation`. -/
structure AssetUpdateFeedProducers where
  fee : Asset
  issuer : ℕ
  assetToUpdate : ℕ
  newFeedProducers : List ℕ

namespace AssetUpdateFeedProducers

def validate (op : AssetUpdateFeedProducers) : LedgerM Unit :=
  assert .assertion (0 ≤ op.fee.amount)

def doEvaluate (op : AssetUpdateFeedProducers) : LedgerM Unit := do
  let s ← get
  assert .assertion (op.newFeedProducers.length ≤ s.parameters.maximumAssetFeedPublishers)
  assert .notFound (∀ id ∈ op.newFeedProducers, (s.statistics.lookup id).isSome)
  let a ← require .notFound (s.assets.lookup op.assetToUpdate)
  let _ ← require .assertion (s.bitassets.lookup op.assetToUpdate)
  assert .assertion (.committeeFedAsset ∉ a.options.flags)
  assert .assertion (.witnessFedAsset ∉ a.options.flags)
  assert .assertion (a.issuer = op.issuer)

/-- The feeds of the producers that stay are kept, those of the new ones are empty. -/
def newFeeds (op : AssetUpdateFeedProducers) (feeds : Table ℕ (ℕ × PriceFeed)) :
    Table ℕ (ℕ × PriceFeed) :=
  op.newFeedProducers.foldl
    (fun t id => t.insert id ((feeds.lookup id).getD (0, .null))) ∅

def doApply (op : AssetUpdateFeedProducers) : LedgerM Unit := do
  let s ← get
  modifyBitasset op.assetToUpdate fun b =>
    BitassetData.updateMedianFeeds { b with feeds := op.newFeeds b.feeds } s.headTime
  let _ ← checkCallOrders op.assetToUpdate true

def evaluator (op : AssetUpdateFeedProducers) : Evaluator Unit where
  feePayer := op.issuer
  fee := op.fee
  kind := .assetUpdateFeedProducers
  doEvaluate := op.doEvaluate
  doApply := fun _ _ => op.doApply

end AssetUpdateFeedProducers

/-- `asset_publish_feed_operation`. -/
structure AssetPublishFeed where
  fee : Asset
  publisher : ℕ
  assetId : ℕ
  feed : PriceFeed

namespace AssetPublishFeed

def validate (op : AssetPublishFeed) : LedgerM Unit := do
  assert .assertion (0 ≤ op.fee.amount)
  lift op.feed.validate
  lift (PriceFeed.validatePrice op.feed.coreExchangeRate)
  assert .assertion (op.feed.settlementPrice.isNull = false → op.feed.coreExchangeRate.isNull = false →
    op.feed.settlementPrice.base.assetId = op.feed.coreExchangeRate.base.assetId)
  assert .assertion (op.feed.settlementPrice.isNull = false)
  assert .assertion (op.feed.coreExchangeRate.isNull = false)
  assert .assertion (op.feed.isFor op.assetId = true)

/-- "Verify that the publisher is authoritative to publish a feed" -/
def mayPublish (S : Settings) (op : AssetPublishFeed) (s : Books) (a : AssetObject)
    (b : BitassetData) : Bool :=
  if .witnessFedAsset ∈ a.options.flags then S.inActiveAuthority s witnessAccount op.publisher
  else if .committeeFedAsset ∈ a.options.flags then S.inActiveAuthority s committee op.publisher
  else (b.feeds.lookup op.publisher).isSome

/-- The rate for fees is in core, and before the hardfork in the backing asset. -/
def RateSuits (op : AssetPublishFeed) (s : Books) : Prop :=
  if hardfork480Time < s.headTime then
    op.feed.coreExchangeRate.isNull = false → op.feed.coreExchangeRate.quote.assetId = core
  else
    op.feed.settlementPrice.isNull = false → op.feed.coreExchangeRate.isNull = false →
      op.feed.settlementPrice.quote.assetId = op.feed.coreExchangeRate.quote.assetId

instance (op : AssetPublishFeed) (s : Books) : Decidable (op.RateSuits s) := by
  unfold RateSuits
  infer_instance

def doEvaluate (S : Settings) (op : AssetPublishFeed) : LedgerM Unit := do
  let s ← get
  let a ← require .notFound (s.assets.lookup op.assetId)
  let b ← require .assertion (s.bitassets.lookup op.assetId)
  assert .assertion (b.hasSettlement = false)
  assert .assertion (op.feed.settlementPrice.quote.assetId = b.shortBackingAsset)
  assert .assertion (op.RateSuits s)
  assert .assertion (op.mayPublish S s a b = true)

/-- Margin calls follow if the feed has changed. -/
def callIfChanged (op : AssetPublishFeed) (oldFeed : PriceFeed) : LedgerM Unit := do
  let s ← get
  let b ← require .notFound (s.bitassets.lookup op.assetId)
  if oldFeed.same b.currentFeed then pure ()
  else do
    let _ ← checkCallOrders op.assetId true

def doApply (op : AssetPublishFeed) : LedgerM Unit := do
  let s ← get
  let b ← require .notFound (s.bitassets.lookup op.assetId)
  modifyBitasset op.assetId fun b =>
    BitassetData.updateMedianFeeds
      { b with feeds := b.feeds.insert op.publisher (s.headTime, op.feed) } s.headTime
  op.callIfChanged b.currentFeed

def evaluator (op : AssetPublishFeed) (S : Settings) : Evaluator Unit where
  feePayer := op.publisher
  fee := op.fee
  kind := .assetPublishFeed
  doEvaluate := op.doEvaluate S
  doApply := fun _ _ => op.doApply

end AssetPublishFeed

/-- The rate for fees of an asset follows the feed. -/
def followRate (assetId : ℕ) : LedgerM Unit := do
  let s ← get
  let b ← require .notFound (s.bitassets.lookup assetId)
  let a ← require .notFound (s.assets.lookup assetId)
  if b.currentFeed.coreExchangeRate.isNull = false ∧
      a.options.coreExchangeRate.eq b.currentFeed.coreExchangeRate = false then
    update fun s =>
      { s with
        assets := s.assets.modify assetId fun a =>
          { a with options := { a.options with coreExchangeRate := b.currentFeed.coreExchangeRate } } }
  else pure ()

/-- The new median of a feed that has expired, and the margin calls that follow. A null feed names
the core asset, which has no call orders. -/
def expireFeed (assetId : ℕ) (expired : Bool) : LedgerM Unit :=
  if expired then do
    let s ← get
    modifyBitasset assetId fun b => b.updateMedianFeeds s.headTime
    let s ← get
    let b ← require .notFound (s.bitassets.lookup assetId)
    let _ ← require .notFound (s.assets.lookup b.currentFeed.settlementPrice.base.assetId)
    let _ ← checkCallOrders b.currentFeed.settlementPrice.base.assetId true
  else pure ()

/-- The loop of `update_expired_feeds` over the market-issued assets. -/
def updateFeedsOf : List ℕ → LedgerM Unit
  | [] => pure ()
  | assetId :: ids => do
    let s ← get
    let b ← require .notFound (s.bitassets.lookup assetId)
    expireFeed assetId (b.feedIsExpired s.headTime)
    followRate assetId
    updateFeedsOf ids

/-- `update_expired_feeds`. -/
def updateExpiredFeeds : LedgerM Unit := do
  let s ← get
  updateFeedsOf (s.bitassets.keys.insertionSort (· ≤ ·))

/-! ### Settlement -/

/-- `asset_settle_operation`. The amount is of type `share_type`. -/
structure AssetSettle where
  fee : Asset
  account : ℕ
  amount : Asset
  amount_fits : FitsShare amount.amount := by decide

namespace AssetSettle

def validate (op : AssetSettle) : LedgerM Unit :=
  assert .assertion (0 ≤ op.fee.amount ∧ 0 ≤ op.amount.amount)

/-- A prediction market must be settled; any other asset must have a feed. -/
def checkFeed (b : BitassetData) : LedgerM Unit :=
  if b.isPredictionMarket then assert .assertion (b.hasSettlement = true)
  else assert .insufficientFeeds (b.currentFeed.settlementPrice.isNull = false)

def doEvaluate (op : AssetSettle) : LedgerM Unit := do
  let s ← get
  let a ← require .notFound (s.assets.lookup op.amount.assetId)
  let b ← require .assertion (s.bitassets.lookup op.amount.assetId)
  assert .assertion (a.canForceSettle = true ∨ b.hasSettlement = true)
  checkFeed b
  let _ ← require .notFound (s.statistics.lookup op.account)
  assert .assertion (op.amount.amount ≤ s.getBalance op.account op.amount.assetId)

/-- A settled asset is redeemed from the settlement fund. -/
def redeem (op : AssetSettle) (b : BitassetData) : LedgerM Unit := do
  let settled ← lift (op.amount.mul b.settlementPrice)
  assert .assertion (settled.amount ≤ b.settlementFund)
  modifyBitasset op.amount.assetId fun b =>
    { b with settlementFund := b.settlementFund - settled.amount }
  adjustBalance op.account settled
  modifyDynamicData op.amount.assetId fun d =>
    { d with currentSupply := d.currentSupply - op.amount.amount }

/-- A settlement for later. -/
def enqueue (op : AssetSettle) (b : BitassetData) : LedgerM Unit :=
  update fun s =>
    { s with
      settlements := s.settlements.create
        { owner := op.account
          balance := op.amount
          settlementDate := s.headTime + b.options.forceSettlementDelaySec } }

def doApply (op : AssetSettle) : LedgerM Unit := do
  adjustBalance op.account op.amount.neg
  let s ← get
  let b ← require .notFound (s.bitassets.lookup op.amount.assetId)
  if b.hasSettlement then op.redeem b else op.enqueue b

def evaluator (op : AssetSettle) : Evaluator Unit where
  feePayer := op.account
  fee := op.fee
  kind := .assetSettle
  doEvaluate := op.doEvaluate
  doApply := fun _ _ => op.doApply

end AssetSettle

/-- `asset_global_settle_operation`. -/
structure AssetGlobalSettle where
  fee : Asset
  issuer : ℕ
  assetToSettle : ℕ
  settlePrice : Price

namespace AssetGlobalSettle

def validate (op : AssetGlobalSettle) : LedgerM Unit :=
  assert .assertion (0 ≤ op.fee.amount ∧ op.assetToSettle = op.settlePrice.base.assetId)

def doEvaluate (op : AssetGlobalSettle) : LedgerM Unit := do
  let s ← get
  let a ← require .notFound (s.assets.lookup op.assetToSettle)
  let b ← require .assertion (s.bitassets.lookup op.assetToSettle)
  assert .assertion (a.canGlobalSettle = true)
  assert .assertion (a.issuer = op.issuer)
  let d ← require .notFound (s.dynamicData.lookup op.assetToSettle)
  assert .assertion (0 < d.currentSupply)
  let lowest ← lift (Price.min b.shortBackingAsset op.assetToSettle)
  let (_, least) ← require .danglingIterator (s.leastCollateralized lowest)
  let pays ← lift (least.getDebt.mul op.settlePrice)
  let covered ← lift (pays.le least.getCollateral)
  assert .assertion (covered = true)

def doApply (op : AssetGlobalSettle) : LedgerM Unit :=
  globallySettleAsset op.assetToSettle op.settlePrice

def evaluator (op : AssetGlobalSettle) : Evaluator Unit where
  feePayer := op.issuer
  fee := op.fee
  kind := .assetGlobalSettle
  doEvaluate := op.doEvaluate
  doApply := fun _ _ => op.doApply

end AssetGlobalSettle

end FinChain.Ledger
