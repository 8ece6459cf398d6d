import FinChain.Ledger.State

/-!
# Operations on assets

Transfers, and the operations by which assets are created, issued and reserved. A new asset has its
dynamic data and, if it is market-issued, its bitasset data under its own id.

Creating an asset costs a fee of which half is meant for its fee pool: `do_evaluate` takes half of
`core_fee_paid` away, and what is left of it is paid as the fee and put into the pool, too.
-/

namespace FinChain.Ledger

open Exec

/-! ### Transfers -/

/-- `transfer_operation`. -/
structure Transfer where
  fee : Asset
  fromAccount : ℕ
  toAccount : ℕ
  amount : Asset

namespace Transfer

def validate (op : Transfer) : LedgerM Unit :=
  assert .assertion (0 ≤ op.fee.amount ∧ op.fromAccount ≠ op.toAccount ∧ 0 < op.amount.amount)

def doEvaluate (S : Settings) (op : Transfer) : LedgerM Unit := do
  let s ← get
  let _ ← require .notFound (s.statistics.lookup op.fromAccount)
  let _ ← require .notFound (s.statistics.lookup op.toAccount)
  let a ← require .notFound (s.assets.lookup op.amount.assetId)
  assert .assertion (S.isAuthorizedAsset s op.fromAccount op.amount.assetId = true)
  assert .assertion (S.isAuthorizedAsset s op.toAccount op.amount.assetId = true)
  assert .assertion (a.isTransferRestricted = true → op.fromAccount = a.issuer ∨ op.toAccount = a.issuer)
  assert .assertion (op.amount.amount ≤ s.getBalance op.fromAccount op.amount.assetId)

def doApply (op : Transfer) : LedgerM Unit := do
  adjustBalance op.fromAccount op.amount.neg
  adjustBalance op.toAccount op.amount

def evaluator (op : Transfer) (S : Settings) : Evaluator Unit where
  feePayer := op.fromAccount
  fee := op.fee
  kind := .transfer
  doEvaluate := op.doEvaluate S
  doApply := fun _ _ => op.doApply

end Transfer

/-! ### Options -/

/-- `GRAPHENE_COMMITTEE_ACCOUNT`. -/
def committee : ℕ := 0

/-- `is_market_issued`. -/
def Books.isMarketIssued (s : Books) (assetId : ℕ) : Bool := (s.bitassets.lookup assetId).isSome

/-- `asset_options::validate`, but for what the type says already. -/
def AssetOptions.validate (o : AssetOptions) : LedgerM Unit := do
  assert .assertion (0 < o.maxSupply ∧ o.maxSupply ≤ maxShareSupply)
  assert .assertion (o.maxMarketFee ≤ maxShareSupply)
  assert .assertion (.globalSettle ∉ o.flags)
  assert .assertion (¬ (.witnessFedAsset ∈ o.flags ∧ .committeeFedAsset ∈ o.flags))
  lift o.coreExchangeRate.validate
  assert .assertion
    (o.coreExchangeRate.base.assetId = core ∨ o.coreExchangeRate.quote.assetId = core)
  assert .assertion
    (o.whitelistAuthorities = [] ∧ o.blacklistAuthorities = [] ∨ .whiteList ∈ o.flags)
  assert .assertion (∀ item ∈ o.whitelistMarkets, item ∉ o.blacklistMarkets)

/-- The authorities of the white and black lists are not too many, and exist. -/
def AssetOptions.checkAuthorities (o : AssetOptions) : LedgerM Unit := do
  let s ← get
  assert .assertion
    (o.whitelistAuthorities.length ≤ s.parameters.maximumAssetWhitelistAuthorities)
  assert .assertion
    (o.blacklistAuthorities.length ≤ s.parameters.maximumAssetWhitelistAuthorities)
  assert .notFound (∀ id ∈ o.whitelistAuthorities, (s.statistics.lookup id).isSome)
  assert .notFound (∀ id ∈ o.blacklistAuthorities, (s.statistics.lookup id).isSome)

/-- "May not create a blockchain-controlled market asset which is not backed by CORE." -/
def checkBackedByCore (owner backing : ℕ) (mustNotNest : Bool) : LedgerM Unit := do
  let s ← get
  let _ ← require .notFound (s.assets.lookup backing)
  match s.bitassets.lookup backing with
  | some b => do
    let _ ← require .notFound (s.assets.lookup b.shortBackingAsset)
    assert .assertion (mustNotNest = true → s.isMarketIssued b.shortBackingAsset = false)
    assert .assertion (owner ≠ committee ∨ b.shortBackingAsset = core)
  | none => assert .assertion (owner ≠ committee ∨ backing = core)

/-! ### Creating assets -/

/-- `asset_create_operation`. -/
structure AssetCreate where
  fee : Asset
  issuer : ℕ
  symbol : String
  precision : ℕ
  commonOptions : AssetOptions
  bitassetOpts : Option BitassetOptions
  isPredictionMarket : Bool

/-- The id of the next asset. Assets are not removed. -/
def Books.nextAssetId (s : Books) : ℕ :=
  (s.assets.keys ++ s.dynamicData.keys ++ s.bitassets.keys).foldr (fun id next => max (id + 1) next) 0

namespace AssetCreate

def validate (op : AssetCreate) : LedgerM Unit := do
  assert .assertion (0 ≤ op.fee.amount)
  op.commonOptions.validate
  assert .assertion (.disableForceSettle ∈ op.commonOptions.issuerPermissions ∨
    .globalSettle ∈ op.commonOptions.issuerPermissions → op.bitassetOpts.isSome)
  assert .assertion (op.isPredictionMarket = true →
    op.bitassetOpts.isSome ∧ .globalSettle ∈ op.commonOptions.issuerPermissions)
  let dummy ← lift (Asset.mul ⟨1, core⟩ op.commonOptions.coreExchangeRate)
  assert .assertion (dummy.assetId = 1)
  assert .assertion (op.precision ≤ 12)

/-- The checks of the options of a bitasset. -/
def checkBitasset (op : AssetCreate) (opts : BitassetOptions) : LedgerM Unit := do
  checkBackedByCore op.issuer opts.shortBackingAsset true
  let s ← get
  assert .assertion (s.parameters.blockInterval < opts.feedLifetimeSec ∧
    s.parameters.blockInterval < opts.forceSettlementDelaySec)
  let backing ← require .notFound (s.assets.lookup opts.shortBackingAsset)
  assert .assertion (op.isPredictionMarket = true → op.precision = backing.precision)

/-- The checks that depend on whether the asset is market-issued. -/
def checkKind (op : AssetCreate) : Option BitassetOptions → LedgerM Unit
  | some opts => op.checkBitasset opts
  | none => assert .assertion (op.isPredictionMarket = false)

def doEvaluate (S : Settings) (op : AssetCreate) : LedgerM Unit := do
  op.commonOptions.checkAuthorities
  let s ← get
  assert .assertion (S.acceptsSymbol s op.symbol op.issuer = true)
  op.checkKind op.bitassetOpts

/-- The exchange rate for fees, with the id of the new asset. -/
def exchangeRate (op : AssetCreate) (id : ℕ) : Price :=
  let rate := op.commonOptions.coreExchangeRate
  if rate.base.assetId = core then ⟨rate.base, ⟨rate.quote.amount, id⟩⟩
  else ⟨⟨rate.base.amount, id⟩, rate.quote⟩

/-- The asset data for a market-issued asset. -/
def bitassets (op : AssetCreate) (id : ℕ) (t : Table ℕ BitassetData) : Table ℕ BitassetData :=
  match op.bitassetOpts with
  | some opts => t.insert id { options := opts, isPredictionMarket := op.isPredictionMarket }
  | none => t

def doApply (op : AssetCreate) (coreFeePaid : ℤ) : LedgerM Unit :=
  update fun s =>
    { s with
      dynamicData := s.dynamicData.insert s.nextAssetId
        { currentSupply := 0, accumulatedFees := 0, feePool := coreFeePaid, lockedBalance := 0 }
      bitassets := op.bitassets s.nextAssetId s.bitassets
      assets := s.assets.insert s.nextAssetId
        { issuer := op.issuer
          precision := op.precision
          options :=
            { op.commonOptions with coreExchangeRate := op.exchangeRate s.nextAssetId } } }

def evaluator (op : AssetCreate) (S : Settings) : Evaluator Unit where
  feePayer := op.issuer
  fee := op.fee
  kind := .assetCreate
  doEvaluate := op.doEvaluate S
  -- `core_fee_paid -= core_fee_paid.value/2;`
  coreFeePaid := fun f => f - f / 2
  doApply := fun f _ => op.doApply f

end AssetCreate

/-! ### Issuing and reserving -/

/-- `asset_issue_operation`. -/
structure AssetIssue where
  fee : Asset
  issuer : ℕ
  assetToIssue : Asset
  issueToAccount : ℕ

namespace AssetIssue

def validate (op : AssetIssue) : LedgerM Unit :=
  assert .assertion (0 ≤ op.fee.amount ∧ op.assetToIssue.amount ≤ maxShareSupply ∧
    0 < op.assetToIssue.amount ∧ op.assetToIssue.assetId ≠ core)

def doEvaluate (S : Settings) (op : AssetIssue) : LedgerM Unit := do
  let s ← get
  let a ← require .notFound (s.assets.lookup op.assetToIssue.assetId)
  assert .assertion (op.issuer = a.issuer)
  assert .assertion (s.isMarketIssued op.assetToIssue.assetId = false)
  let _ ← require .notFound (s.statistics.lookup op.issueToAccount)
  assert .assertion (S.isAuthorizedAsset s op.issueToAccount op.assetToIssue.assetId = true)
  let d ← require .notFound (s.dynamicData.lookup op.assetToIssue.assetId)
  assert .assertion (d.currentSupply + op.assetToIssue.amount ≤ a.options.maxSupply)

def doApply (op : AssetIssue) : LedgerM Unit := do
  adjustBalance op.issueToAccount op.assetToIssue
  modifyDynamicData op.assetToIssue.assetId fun d =>
    { d with currentSupply := d.currentSupply + op.assetToIssue.amount }

def evaluator (op : AssetIssue) (S : Settings) : Evaluator Unit where
  feePayer := op.issuer
  fee := op.fee
  kind := .assetIssue
  doEvaluate := op.doEvaluate S
  doApply := fun _ _ => op.doApply

end AssetIssue

/-- `asset_reserve_operation`. -/
structure AssetReserve where
  fee : Asset
  payer : ℕ
  amountToReserve : Asset

namespace AssetReserve

def validate (op : AssetReserve) : LedgerM Unit :=
  assert .assertion (0 ≤ op.fee.amount ∧ op.amountToReserve.amount ≤ maxShareSupply ∧
    0 < op.amountToReserve.amount)

def doEvaluate (S : Settings) (op : AssetReserve) : LedgerM Unit := do
  let s ← get
  let _ ← require .notFound (s.assets.lookup op.amountToReserve.assetId)
  -- `asset_reserve_invalid_on_mia`
  assert .assertion (s.isMarketIssued op.amountToReserve.assetId = false)
  let _ ← require .notFound (s.statistics.lookup op.payer)
  assert .assertion (S.isAuthorizedAsset s op.payer op.amountToReserve.assetId = true)
  let d ← require .notFound (s.dynamicData.lookup op.amountToReserve.assetId)
  assert .assertion (0 ≤ d.currentSupply - op.amountToReserve.amount)

def doApply (op : AssetReserve) : LedgerM Unit := do
  adjustBalance op.payer op.amountToReserve.neg
  modifyDynamicData op.amountToReserve.assetId fun d =>
    { d with currentSupply := d.currentSupply - op.amountToReserve.amount }

def evaluator (op : AssetReserve) (S : Settings) : Evaluator Unit where
  feePayer := op.payer
  fee := op.fee
  kind := .assetReserve
  doEvaluate := op.doEvaluate S
  doApply := fun _ _ => op.doApply

end AssetReserve

/-! ### Fees of an asset -/

/-- `asset_fund_fee_pool_operation`. -/
structure AssetFundFeePool where
  fee : Asset
  fromAccount : ℕ
  assetId : ℕ
  /-- In core. -/
  amount : ℤ

namespace AssetFundFeePool

def validate (op : AssetFundFeePool) : LedgerM Unit :=
  assert .assertion (0 ≤ op.fee.amount ∧ op.fee.assetId = core ∧ 0 < op.amount)

def doEvaluate (op : AssetFundFeePool) : LedgerM Unit := do
  let s ← get
  let _ ← require .notFound (s.assets.lookup op.assetId)

def doApply (op : AssetFundFeePool) : LedgerM Unit := do
  adjustBalance op.fromAccount (Asset.neg ⟨op.amount, core⟩)
  modifyDynamicData op.assetId fun d => { d with feePool := d.feePool + op.amount }

def evaluator (op : AssetFundFeePool) : Evaluator Unit where
  feePayer := op.fromAccount
  fee := op.fee
  kind := .assetFundFeePool
  doEvaluate := op.doEvaluate
  doApply := fun _ _ => op.doApply

end AssetFundFeePool

/-- `asset_claim_fees_operation`. -/
structure AssetClaimFees where
  fee : Asset
  issuer : ℕ
  amountToClaim : Asset

namespace AssetClaimFees

def validate (op : AssetClaimFees) : LedgerM Unit :=
  assert .assertion (0 ≤ op.fee.amount ∧ 0 < op.amountToClaim.amount)

def doEvaluate (op : AssetClaimFees) : LedgerM Unit := do
  let s ← get
  let a ← require .notFound (s.assets.lookup op.amountToClaim.assetId)
  assert .assertion (a.issuer = op.issuer)

def doApply (op : AssetClaimFees) : LedgerM Unit := do
  let s ← get
  let d ← require .notFound (s.dynamicData.lookup op.amountToClaim.assetId)
  assert .assertion (op.amountToClaim.amount ≤ d.accumulatedFees)
  modifyDynamicData op.amountToClaim.assetId fun d =>
    { d with accumulatedFees := d.accumulatedFees - op.amountToClaim.amount }
  adjustBalance op.issuer op.amountToClaim

def evaluator (op : AssetClaimFees) : Evaluator Unit where
  feePayer := op.issuer
  fee := op.fee
  kind := .assetClaimFees
  doEvaluate := op.doEvaluate
  doApply := fun _ _ => op.doApply

end AssetClaimFees

end FinChain.Ledger
