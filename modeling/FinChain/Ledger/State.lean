import FinChain.Lib.Table
import FinChain.Ledger.Amounts
import Mathlib.Data.Finset.Card

/-!
# Accounts, assets and orders

The objects that hold amounts: balances, orders, settlements, locks, and the data of an asset that
changes with trading. An asset of the source refers to its dynamic data, its data as a bitasset and
its lock data by id; here these tables have the id of the asset as their key, since no two assets
share such an object. An account refers to its statistics in the same way.

A part of the source that is not modelled enters through `Settings`: the white and black lists, the
fee schedule, and the interest of a lock.
-/

namespace FinChain.Ledger

open Exec

/-- A `fc::time_point_sec` after an addition. -/
def timePointSec (x : ℤ) : ℕ := (x % 2 ^ 32).toNat

theorem timePointSec_lt (x : ℤ) : timePointSec x < 2 ^ 32 := by
  unfold timePointSec
  omega

theorem timePointSec_of_lt {x : ℕ} (h : x < 2 ^ 32) : timePointSec x = x := by
  unfold timePointSec
  omega

theorem timePointSec_le (x : ℕ) : timePointSec x ≤ x := by
  unfold timePointSec
  omega

/-- The bits of `asset_issuer_permission_flags`. -/
inductive AssetFlag
  | chargeMarketFee
  | whiteList
  | overrideAuthority
  | transferRestricted
  | disableForceSettle
  | globalSettle
  | disableConfidential
  | witnessFedAsset
  | committeeFedAsset
  deriving DecidableEq, Repr

/-- `asset_options`. The last two fields are what `asset_options::validate` checks of the market
fee. -/
structure AssetOptions where
  maxSupply : ℤ
  flags : Finset AssetFlag
  issuerPermissions : Finset AssetFlag
  marketFeePercent : ℕ
  maxMarketFee : ℤ
  coreExchangeRate : Price
  whitelistAuthorities : List ℕ := []
  blacklistAuthorities : List ℕ := []
  whitelistMarkets : List ℕ
  blacklistMarkets : List ℕ
  marketFeePercent_le : marketFeePercent ≤ hundredPercent
  maxMarketFee_nonneg : 0 ≤ maxMarketFee

/-- `asset_object`. -/
structure AssetObject where
  issuer : ℕ
  precision : ℕ
  options : AssetOptions
  buybackAccount : Option ℕ := none

namespace AssetObject

/-- `charges_market_fees`. -/
def chargesMarketFees (a : AssetObject) : Bool := .chargeMarketFee ∈ a.options.flags

/-- `can_force_settle`. -/
def canForceSettle (a : AssetObject) : Bool := .disableForceSettle ∉ a.options.flags

/-- `can_global_settle`. -/
def canGlobalSettle (a : AssetObject) : Bool := .globalSettle ∈ a.options.issuerPermissions

/-- `is_transfer_restricted`. -/
def isTransferRestricted (a : AssetObject) : Bool := .transferRestricted ∈ a.options.flags

end AssetObject

/-- `asset_dynamic_data_object`. -/
structure AssetDynamicData where
  currentSupply : ℤ
  accumulatedFees : ℤ
  /-- In the core asset. -/
  feePool : ℤ
  /-- The sum of what is locked. -/
  lockedBalance : ℤ
  deriving DecidableEq

/-- `bitasset_options`. The last two fields are what `bitasset_options::validate` checks of them. -/
structure BitassetOptions where
  feedLifetimeSec : ℕ
  minimumFeeds : ℕ
  forceSettlementDelaySec : ℕ
  forceSettlementOffsetPercent : ℕ
  maximumForceSettlementVolume : ℕ
  shortBackingAsset : ℕ
  minimumFeeds_pos : 0 < minimumFeeds
  forceSettlementOffsetPercent_le : forceSettlementOffsetPercent ≤ hundredPercent
  maximumForceSettlementVolume_le : maximumForceSettlementVolume ≤ hundredPercent
  deriving DecidableEq

/-- `asset_bitasset_data_object`. -/
structure BitassetData where
  options : BitassetOptions
  /-- By publisher: when the feed was published, and the feed. -/
  feeds : Table ℕ (ℕ × PriceFeed) := ∅
  currentFeed : PriceFeed := .null
  currentFeedPublicationTime : ℕ := 0
  isPredictionMarket : Bool
  forceSettledVolume : ℤ := 0
  settlementPrice : Price := .null
  settlementFund : ℤ := 0
  deriving DecidableEq

/-- The asset that backs a bitasset. -/
def BitassetData.shortBackingAsset (b : BitassetData) : ℕ := b.options.shortBackingAsset

/-- `has_settlement`. -/
def BitassetData.hasSettlement (b : BitassetData) : Bool := !b.settlementPrice.isNull

/-- `account_balance_object`; its owner and asset are its key. -/
structure AccountBalance where
  balance : ℤ
  lockeds : Finset ℕ := ∅
  deriving DecidableEq

/-- `account_statistics_object`. -/
structure AccountStatistics where
  totalCoreInOrders : ℤ
  pendingFees : ℤ
  pendingVestedFees : ℤ
  deriving DecidableEq

/-- `limit_order_object`. -/
structure LimitOrder where
  expiration : ℕ
  seller : ℕ
  forSale : ℤ
  sellPrice : Price
  /-- A fee that was paid, and hence not negative. -/
  deferredFee : ℕ
  deriving DecidableEq

def LimitOrder.amountForSale (o : LimitOrder) : Asset := ⟨o.forSale, o.sellPrice.base.assetId⟩

def LimitOrder.amountToReceive (o : LimitOrder) : Except LedgerError Asset :=
  o.amountForSale.mul o.sellPrice

/-- `call_order_object`. -/
structure CallOrder where
  borrower : ℕ
  collateral : ℤ
  debt : ℤ
  callPrice : Price
  deriving DecidableEq

def CallOrder.getCollateral (o : CallOrder) : Asset := ⟨o.collateral, o.callPrice.base.assetId⟩

def CallOrder.debtType (o : CallOrder) : ℕ := o.callPrice.quote.assetId

def CallOrder.getDebt (o : CallOrder) : Asset := ⟨o.debt, o.debtType⟩

/-- `collateralization`. The two assets differ, since `call_price` was made of them. -/
def CallOrder.collateralization (o : CallOrder) : Price := ⟨o.getCollateral, o.getDebt⟩

/-- `force_settlement_object`. -/
structure ForceSettlement where
  owner : ℕ
  balance : Asset
  settlementDate : ℕ
  deriving DecidableEq

/-- `asset_lock_data_object`. -/
structure AssetLockData where
  assetId : ℕ
  /-- For a base of `JRC_INTEREST_BASE_SUPPLY`. -/
  nominalInterestPerday : ℕ
  rewardCoefficient : ℕ
  interestPool : ℤ
  maxPeriod : ℕ
  profileScalePercent : ℕ
  profileReceivePercent : ℕ
  canUnlockNotExpired : Bool
  deriving DecidableEq

/-- `locked_balance_object`. -/
structure LockedBalance where
  initialLockBalance : ℤ
  lockedBalance : ℤ
  lockTime : ℕ
  lockPeriod : ℕ
  assetId : ℕ
  finish : Bool := false
  /-- A history variable: the account that locked the balance. No step reads it. -/
  lockedBy : ℕ
  deriving DecidableEq

/-- What an accepted `unlock_balance` has paid, kept as history. -/
structure Payout where
  lockedId : ℕ
  account : ℕ
  amount : ℤ
  /-- What went back to the interest pool. -/
  toPool : ℤ
  deriving DecidableEq, Repr

/-- `fba_accumulator_object`. -/
structure FbaAccumulator where
  accumulatedFbaFees : ℤ
  designatedAsset : Option ℕ
  deriving DecidableEq

/-- `account_object`, as far as `process_fees` reads it. The last two fields are what is checked of
the percentages, of `chain_parameters` and of the account that is created. -/
structure Account where
  registrar : ℕ
  referrer : ℕ
  lifetimeReferrer : ℕ
  networkFeePercentage : ℕ
  lifetimeReferrerFeePercentage : ℕ
  referrerRewardsPercentage : ℕ
  membershipExpirationDate : ℕ
  /-- The vesting balance that receives the cashback. -/
  cashbackVb : Option ℕ := none
  feePercentages_le : networkFeePercentage + lifetimeReferrerFeePercentage ≤ hundredPercent
  referrerRewardsPercentage_le : referrerRewardsPercentage ≤ hundredPercent

/-- `vesting_balance_object`, as far as deposits read it. -/
structure VestingBalance where
  owner : ℕ
  balance : Asset
  /-- `vesting_seconds`, if the policy is a `cdd_vesting_policy`. -/
  cddVestingSeconds : Option ℕ

/-- `worker_type`. -/
inductive WorkerType
  | refund (totalBurned : ℤ)
  | vestingBalance (balance : ℕ)
  | burn (totalBurned : ℤ)

/-- `worker_object`. -/
structure Worker where
  workBeginDate : ℕ
  workEndDate : ℕ
  dailyPay : ℤ
  worker : WorkerType
  totalVotesFor : ℤ
  totalVotesAgainst : ℤ

/-- `chain_parameters`, as far as they are read here. -/
structure ChainParameters where
  blockInterval : ℕ := 5
  maintenanceInterval : ℕ := 86400
  maximumAssetWhitelistAuthorities : ℕ := 10
  maximumAssetFeedPublishers : ℕ := 10
  cashbackVestingPeriodSeconds : ℕ := 31536000
  witnessPayPerBlock : ℤ := 300000000
  workerBudgetPerDay : ℤ := 50000000000000
  deriving DecidableEq

/-- The objects. -/
structure Books where
  /-- `head_block_time`. -/
  headTime : ℕ
  cashbackVestingThreshold : ℤ
  parameters : ChainParameters := {}
  assets : Table ℕ AssetObject
  dynamicData : Table ℕ AssetDynamicData
  bitassets : Table ℕ BitassetData
  lockData : Table ℕ AssetLockData
  /-- By owner and asset. -/
  balances : Table (ℕ × ℕ) AccountBalance
  /-- By account. -/
  statistics : Table ℕ AccountStatistics
  fbas : Table ℕ FbaAccumulator := ∅
  limitOrders : Index LimitOrder
  callOrders : Index CallOrder
  settlements : Index ForceSettlement
  lockedBalances : Index LockedBalance
  /-- A history variable, newest first. -/
  payouts : List Payout
  accounts : Table ℕ Account := ∅
  vestingBalances : Index VestingBalance := .empty
  workers : Index Worker := .empty
  witnessBudget : ℤ := 0
  lastBudgetTime : ℕ := 0
  nextMaintenanceTime : ℕ := 0

/-- The operations of this model, as the fee schedule tells them apart. -/
inductive OperationKind
  | transfer
  | limitOrderCreate
  | limitOrderCancel
  | callOrderUpdate
  | assetCreate
  | assetUpdate
  | assetUpdateBitasset
  | assetUpdateFeedProducers
  | assetIssue
  | assetReserve
  | assetFundFeePool
  | assetSettle
  | assetGlobalSettle
  | assetPublishFeed
  | transferToBlind
  | blindTransfer
  | transferFromBlind
  | assetClaimFees
  | lockBalance
  | setLockData
  | unlockBalance
  | donationBalance
  /-- Any other operation. -/
  | other
  deriving DecidableEq, Repr

/-- The code that is called by the functions of this model. -/
structure Settings where
  /-- `is_authorized_asset`. -/
  isAuthorizedAsset : Books → ℕ → ℕ → Bool
  /-- The fee in core that the schedule asks for an operation of the given kind. -/
  calculateFee : Books → OperationKind → ℤ
  /-- `asset_lock_data_object::get_profit`, which may throw. -/
  getProfit : Books → AssetLockData → (amount : ℤ) → (period : ℕ) → Option ℤ
  /-- The checks of the symbol of a new asset, for an issuer. -/
  acceptsSymbol : Books → String → ℕ → Bool := fun _ _ _ => true
  /-- Whether an account is a member of the active authority of another one. -/
  inActiveAuthority : Books → (account member : ℕ) → Bool := fun _ _ _ => true
  /-- `fba_accumulator_object::is_configured`. -/
  fbaIsConfigured : Books → ℕ → Bool := fun _ _ => false

/-- Functions on the objects. -/
abbrev LedgerM := EStateM LedgerError Books

/-! ### Balances -/

/-- `get_balance`. -/
def Books.getBalance (s : Books) (owner assetId : ℕ) : ℤ :=
  ((s.balances.lookup (owner, assetId)).map AccountBalance.balance).getD 0

/-- `adjust_balance`. -/
def adjustBalance (account : ℕ) (delta : Asset) : LedgerM Unit := do
  if delta.amount = 0 then pure ()
  else do
    let s ← get
    match s.balances.lookup (account, delta.assetId) with
    | none => do
      assert .assertion (0 < delta.amount)
      update fun s =>
        { s with
          balances := s.balances.insert (account, delta.assetId) { balance := delta.amount } }
    | some b => do
      assert .assertion (delta.amount < 0 → -delta.amount ≤ b.balance)
      update fun s =>
        { s with
          balances := s.balances.insert (account, delta.assetId)
            { b with balance := b.balance + delta.amount } }

/-- Modify the statistics of an account, which must exist. -/
def modifyStatistics (account : ℕ) (g : AccountStatistics → AccountStatistics) : LedgerM Unit := do
  let s ← get
  let a ← require .notFound (s.statistics.lookup account)
  update fun s => { s with statistics := s.statistics.insert account (g a) }

/-- Modify the dynamic data of an asset, which must exist. -/
def modifyDynamicData (assetId : ℕ) (g : AssetDynamicData → AssetDynamicData) : LedgerM Unit := do
  let s ← get
  let d ← require .notFound (s.dynamicData.lookup assetId)
  update fun s => { s with dynamicData := s.dynamicData.insert assetId (g d) }

/-- `account_statistics_object::pay_fee`. -/
def AccountStatistics.payFee (threshold coreFee : ℤ) (a : AccountStatistics) : AccountStatistics :=
  if threshold < coreFee then { a with pendingFees := a.pendingFees + coreFee }
  else { a with pendingVestedFees := a.pendingVestedFees + coreFee }

/-! ### Fees -/

/-- `HARDFORK_419_TIME`. -/
def hardfork419Time : ℕ := 1446652800

/-- `generic_evaluator::prepare_fee`; the fee in core. -/
def prepareFee (S : Settings) (account : ℕ) (fee : Asset) : LedgerM ℤ := do
  let s ← get
  assert .assertion (0 ≤ fee.amount)
  let _ ← require .notFound (s.statistics.lookup account)
  let a ← require .notFound (s.assets.lookup fee.assetId)
  let d ← require .notFound (s.dynamicData.lookup fee.assetId)
  assert .assertion (hardfork419Time < s.headTime → S.isAuthorizedAsset s account fee.assetId = true)
  if fee.assetId = core then pure fee.amount
  else do
    let feeFromPool ← lift (fee.mul a.options.coreExchangeRate)
    assert .assertion (feeFromPool.assetId = core)
    assert .assertion (feeFromPool.amount ≤ d.feePool)
    pure feeFromPool.amount

/-- `generic_evaluator::convert_fee`. -/
def convertFee (fee : Asset) (coreFeePaid : ℤ) : LedgerM Unit :=
  if fee.assetId = core then pure ()
  else modifyDynamicData fee.assetId fun d =>
    { d with
      accumulatedFees := d.accumulatedFees + fee.amount
      feePool := d.feePool - coreFeePaid }

/-- `generic_evaluator::pay_fee`. -/
def payFee (account : ℕ) (coreFeePaid : ℤ) : LedgerM Unit := do
  let s ← get
  modifyStatistics account (AccountStatistics.payFee s.cashbackVestingThreshold coreFeePaid)

/-- An evaluator. What `do_evaluate` leaves for `do_apply` in the members of the evaluator is a
value of type `ρ`. -/
structure Evaluator (ρ : Type) where
  feePayer : ℕ
  fee : Asset
  kind : OperationKind
  doEvaluate : LedgerM ρ
  /-- What `do_evaluate` makes of `core_fee_paid`. -/
  coreFeePaid : ℤ → ℤ := id
  /-- `pay_fee`, which is told the fee in core. -/
  payFee : ℤ → LedgerM Unit := Ledger.payFee feePayer
  /-- `do_apply`, which is told the fee in core, too. -/
  doApply : ℤ → ρ → LedgerM Unit

/-- `evaluator::evaluate` and `evaluator::apply`. -/
def Evaluator.run {ρ : Type} (S : Settings) (skipFeeScheduleCheck : Bool) (e : Evaluator ρ) :
    LedgerM Unit := do
  let prepared ← prepareFee S e.feePayer e.fee
  let s ← get
  assert .insufficientFee (skipFeeScheduleCheck = true ∨ S.calculateFee s e.kind ≤ prepared)
  let members ← e.doEvaluate
  convertFee e.fee (e.coreFeePaid prepared)
  e.payFee (e.coreFeePaid prepared)
  e.doApply (e.coreFeePaid prepared) members
  adjustBalance e.feePayer e.fee.neg

end FinChain.Ledger
