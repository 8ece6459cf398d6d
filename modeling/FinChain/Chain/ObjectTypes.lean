import FinChain.Db.PrimaryIndex

/-!
# The object types of the chain

The types that `database::initialize_indexes` makes an index for, the members that the class of each type
has, and the members that its `FC_REFLECT_DERIVED` names. `fc::raw` packs an object by writing what is
named there. Whatever else the class has is not in the file; the object that is unpacked has it from the
default constructor (`restore`).

Of the members that are structures themselves, all but one are reflected completely. The exception is
`chain_parameters`, which does not reflect `witness_pay_vesting_seconds`; that is told apart here from the
rest of the parameters.

Three types have members that are not reflected (`unreflected_eq`). A locked balance does not keep its
asset, nor that it has been paid out.
-/

namespace FinChain.Chain

/-- The types of objects, in the order in which their indexes are added. -/
inductive ObjectType
  | assetObject | forceSettlementObject | accountObject | committeeMemberObject | witnessObject
  | limitOrderObject | callOrderObject | proposalObject | withdrawPermissionObject | vestingBalanceObject
  | workerObject | balanceObject | blindedBalanceObject | transactionObject | accountBalanceObject
  | assetBitassetDataObject | globalPropertyObject | dynamicGlobalPropertyObject | accountStatisticsObject
  | assetDynamicDataObject | blockSummaryObject | chainPropertyObject | witnessScheduleObject
  | budgetRecordObject | specialAuthorityObject | buybackObject | fbaAccumulatorObject
  | lockedBalanceObject | assetLockDataObject
  deriving DecidableEq, Repr

/-- The members of all classes. -/
inductive Member
  | symbol | precision | issuer | options | dynamicAssetDataId | lockDataId | bitassetDataId
  | buybackAccount | owner | balance | settlementDate | membershipExpirationDate | registrar | referrer
  | lifetimeReferrer | networkFeePercentage | lifetimeReferrerFeePercentage | referrerRewardsPercentage
  | name | active | statistics | whitelistingAccounts | whitelistedAccounts | blacklistedAccounts
  | blacklistingAccounts | cashbackVb | ownerSpecialAuthority | activeSpecialAuthority | topNControlFlags
  | allowedAssets | committeeMemberAccount | voteId | totalVotes | url | witnessAccount | lastAslot
  | signingKey | payVb | totalMissed | lastConfirmedBlockNum | expiration | seller | forSale | sellPrice
  | deferredFee | borrower | collateral | debt | callPrice | expirationTime | reviewPeriodTime
  | proposedTransaction | requiredActiveApprovals | availableActiveApprovals | requiredOwnerApprovals
  | availableOwnerApprovals | availableKeyApprovals | withdrawFromAccount | authorizedAccount
  | withdrawalLimit | withdrawalPeriodSec | periodStartTime | claimedThisPeriod | policy | workerAccount
  | workBeginDate | workEndDate | dailyPay | worker | voteFor | voteAgainst | totalVotesFor
  | totalVotesAgainst | vestingPolicy | lastClaimDate | commitment | assetId | trx | trxId | assetType
  | lockeds | feeds | currentFeed | currentFeedPublicationTime | isPredictionMarket | forceSettledVolume
  | settlementPrice | settlementFund | parameters | parametersWitnessPayVestingSeconds | pendingParameters
  | pendingParametersWitnessPayVestingSeconds | nextAvailableVoteId | activeCommitteeMembers
  | activeWitnesses | headBlockNumber | headBlockId | time | currentWitness | nextMaintenanceTime
  | lastBudgetTime | witnessBudget | accountsRegisteredThisInterval | recentlyMissedCount | currentAslot
  | recentSlotsFilled | dynamicFlags | lastIrreversibleBlockNum | mostRecentOp | totalOps | removedOps
  | totalCoreInOrders | lifetimeFeesPaid | pendingFees | pendingVestedFees | txFees | marketFees
  | currentSupply | confidentialSupply | accumulatedFees | feePool | lockedBalance | blockId | chainId
  | immutableParameters | currentShuffledWitnesses | record | account | assetToBuy | accumulatedFbaFees
  | designatedAsset | initialLockBalance | lockTime | lockPeriod | lockType | finish
  | nominalInterestPerday | activeInterestRate | rewardCoefficient | interestPool | maxPeriod
  | profileScalePercent | profileReceivePercent | canUnlockNotExpired
  deriving DecidableEq, Repr

/-- The members of the class of a type, other than the id. -/
def members : ObjectType → List Member
  | .assetObject =>
    [.symbol, .precision, .issuer, .options, .dynamicAssetDataId, .lockDataId, .bitassetDataId,
      .buybackAccount]
  | .forceSettlementObject => [.owner, .balance, .settlementDate]
  | .accountObject =>
    [.membershipExpirationDate, .registrar, .referrer, .lifetimeReferrer, .networkFeePercentage,
      .lifetimeReferrerFeePercentage, .referrerRewardsPercentage, .name, .owner, .active, .options,
      .statistics, .whitelistingAccounts, .whitelistedAccounts, .blacklistedAccounts,
      .blacklistingAccounts, .cashbackVb, .ownerSpecialAuthority, .activeSpecialAuthority,
      .topNControlFlags, .allowedAssets]
  | .committeeMemberObject => [.committeeMemberAccount, .voteId, .totalVotes, .url]
  | .witnessObject =>
    [.witnessAccount, .lastAslot, .signingKey, .payVb, .voteId, .totalVotes, .url, .totalMissed,
      .lastConfirmedBlockNum]
  | .limitOrderObject => [.expiration, .seller, .forSale, .sellPrice, .deferredFee]
  | .callOrderObject => [.borrower, .collateral, .debt, .callPrice]
  | .proposalObject =>
    [.expirationTime, .reviewPeriodTime, .proposedTransaction, .requiredActiveApprovals,
      .availableActiveApprovals, .requiredOwnerApprovals, .availableOwnerApprovals,
      .availableKeyApprovals]
  | .withdrawPermissionObject =>
    [.withdrawFromAccount, .authorizedAccount, .withdrawalLimit, .withdrawalPeriodSec, .periodStartTime,
      .expiration, .claimedThisPeriod]
  | .vestingBalanceObject => [.owner, .balance, .policy]
  | .workerObject =>
    [.workerAccount, .workBeginDate, .workEndDate, .dailyPay, .worker, .name, .url, .voteFor,
      .voteAgainst, .totalVotesFor, .totalVotesAgainst]
  | .balanceObject => [.owner, .balance, .vestingPolicy, .lastClaimDate]
  | .blindedBalanceObject => [.commitment, .assetId, .owner]
  | .transactionObject => [.trx, .trxId]
  | .accountBalanceObject => [.owner, .assetType, .balance, .lockeds]
  | .assetBitassetDataObject =>
    [.options, .feeds, .currentFeed, .currentFeedPublicationTime, .isPredictionMarket,
      .forceSettledVolume, .settlementPrice, .settlementFund]
  | .globalPropertyObject =>
    [.parameters, .parametersWitnessPayVestingSeconds, .pendingParameters,
      .pendingParametersWitnessPayVestingSeconds, .nextAvailableVoteId, .activeCommitteeMembers,
      .activeWitnesses]
  | .dynamicGlobalPropertyObject =>
    [.headBlockNumber, .headBlockId, .time, .currentWitness, .nextMaintenanceTime, .lastBudgetTime,
      .witnessBudget, .accountsRegisteredThisInterval, .recentlyMissedCount, .currentAslot,
      .recentSlotsFilled, .dynamicFlags, .lastIrreversibleBlockNum]
  | .accountStatisticsObject =>
    [.owner, .mostRecentOp, .totalOps, .removedOps, .totalCoreInOrders, .lifetimeFeesPaid, .pendingFees,
      .pendingVestedFees, .txFees, .marketFees]
  | .assetDynamicDataObject =>
    [.currentSupply, .confidentialSupply, .accumulatedFees, .feePool, .lockedBalance, .marketFees]
  | .blockSummaryObject => [.blockId]
  | .chainPropertyObject => [.chainId, .immutableParameters]
  | .witnessScheduleObject => [.currentShuffledWitnesses]
  | .budgetRecordObject => [.time, .record]
  | .specialAuthorityObject => [.account]
  | .buybackObject => [.assetToBuy]
  | .fbaAccumulatorObject => [.accumulatedFbaFees, .designatedAsset]
  | .lockedBalanceObject =>
    [.initialLockBalance, .lockedBalance, .lockTime, .lockPeriod, .lockType, .assetId, .finish]
  | .assetLockDataObject =>
    [.assetId, .nominalInterestPerday, .activeInterestRate, .rewardCoefficient, .interestPool, .maxPeriod,
      .profileScalePercent, .profileReceivePercent, .canUnlockNotExpired]

/-- The members that `FC_REFLECT_DERIVED` names. -/
def reflected : ObjectType → List Member
  | .assetObject =>
    [.symbol, .precision, .issuer, .options, .dynamicAssetDataId, .lockDataId, .bitassetDataId,
      .buybackAccount]
  | .forceSettlementObject => [.owner, .balance, .settlementDate]
  | .accountObject =>
    [.membershipExpirationDate, .registrar, .referrer, .lifetimeReferrer, .networkFeePercentage,
      .lifetimeReferrerFeePercentage, .referrerRewardsPercentage, .name, .owner, .active, .options,
      .statistics, .whitelistingAccounts, .blacklistingAccounts, .whitelistedAccounts,
      .blacklistedAccounts, .cashbackVb, .ownerSpecialAuthority, .activeSpecialAuthority,
      .topNControlFlags, .allowedAssets]
  | .committeeMemberObject => [.committeeMemberAccount, .voteId, .totalVotes, .url]
  | .witnessObject =>
    [.witnessAccount, .lastAslot, .signingKey, .payVb, .voteId, .totalVotes, .url, .totalMissed,
      .lastConfirmedBlockNum]
  | .limitOrderObject => [.expiration, .seller, .forSale, .sellPrice, .deferredFee]
  | .callOrderObject => [.borrower, .collateral, .debt, .callPrice]
  | .proposalObject =>
    [.expirationTime, .reviewPeriodTime, .proposedTransaction, .requiredActiveApprovals,
      .availableActiveApprovals, .requiredOwnerApprovals, .availableOwnerApprovals,
      .availableKeyApprovals]
  | .withdrawPermissionObject =>
    [.withdrawFromAccount, .authorizedAccount, .withdrawalLimit, .withdrawalPeriodSec, .periodStartTime,
      .expiration, .claimedThisPeriod]
  | .vestingBalanceObject => [.owner, .balance, .policy]
  | .workerObject =>
    [.workerAccount, .workBeginDate, .workEndDate, .dailyPay, .worker, .voteFor, .voteAgainst,
      .totalVotesFor, .totalVotesAgainst, .name, .url]
  | .balanceObject => [.owner, .balance, .vestingPolicy, .lastClaimDate]
  | .blindedBalanceObject => [.commitment, .assetId, .owner]
  | .transactionObject => [.trx, .trxId]
  | .accountBalanceObject => [.owner, .assetType, .balance, .lockeds]
  | .assetBitassetDataObject =>
    [.feeds, .currentFeed, .currentFeedPublicationTime, .options, .forceSettledVolume,
      .isPredictionMarket, .settlementPrice, .settlementFund]
  | .globalPropertyObject =>
    [.parameters, .pendingParameters, .nextAvailableVoteId, .activeCommitteeMembers, .activeWitnesses]
  | .dynamicGlobalPropertyObject =>
    [.headBlockNumber, .headBlockId, .time, .currentWitness, .nextMaintenanceTime, .lastBudgetTime,
      .witnessBudget, .accountsRegisteredThisInterval, .recentlyMissedCount, .currentAslot,
      .recentSlotsFilled, .dynamicFlags, .lastIrreversibleBlockNum]
  | .accountStatisticsObject =>
    [.owner, .mostRecentOp, .totalOps, .removedOps, .totalCoreInOrders, .lifetimeFeesPaid, .pendingFees,
      .pendingVestedFees, .txFees, .marketFees]
  | .assetDynamicDataObject =>
    [.currentSupply, .confidentialSupply, .accumulatedFees, .feePool, .lockedBalance, .marketFees]
  | .blockSummaryObject => [.blockId]
  | .chainPropertyObject => [.chainId, .immutableParameters]
  | .witnessScheduleObject => [.currentShuffledWitnesses]
  | .budgetRecordObject => [.time, .record]
  | .specialAuthorityObject => [.account]
  | .buybackObject => [.assetToBuy]
  | .fbaAccumulatorObject => [.accumulatedFbaFees, .designatedAsset]
  | .lockedBalanceObject => [.initialLockBalance, .lockedBalance, .lockTime, .lockPeriod, .lockType]
  | .assetLockDataObject =>
    [.assetId, .nominalInterestPerday, .rewardCoefficient, .interestPool, .maxPeriod,
      .profileScalePercent, .profileReceivePercent, .canUnlockNotExpired]

/-- The members that are not reflected. -/
def unreflected (t : ObjectType) : List Member := (members t).filter fun m => m ∉ reflected t

theorem unreflected_eq (t : ObjectType) : unreflected t =
    match t with
    | .globalPropertyObject =>
      [.parametersWitnessPayVestingSeconds, .pendingParametersWitnessPayVestingSeconds]
    | .lockedBalanceObject => [.assetId, .finish]
    | .assetLockDataObject => [.activeInterestRate]
    | _ => [] := by
  cases t <;> rfl

/-- Whether the objects are in a `generic_index`, which has keys. The others are in a `simple_index` or a
`flat_index`. -/
def ObjectType.isGeneric : ObjectType → Bool
  | .globalPropertyObject | .dynamicGlobalPropertyObject | .accountStatisticsObject
  | .assetDynamicDataObject | .blockSummaryObject | .chainPropertyObject | .witnessScheduleObject
  | .budgetRecordObject | .fbaAccumulatorObject | .lockedBalanceObject | .assetLockDataObject => false
  | _ => true

/-- An object of a type, without its id. -/
def Object (V : Type) (t : ObjectType) : Type := {m // m ∈ members t} → V

variable {V : Type} {t : ObjectType}

/-- An object that is packed and unpacked again; `initial` is as the default constructor makes it. -/
def restore (initial o : Object V t) : Object V t :=
  fun m => if m.1 ∈ reflected t then o m else initial m

/-- A type that reflects all its members is restored as it was. -/
theorem restore_of_reflected (h : unreflected t = []) (initial o : Object V t) : restore initial o = o := by
  funext m
  have hm : m.1 ∈ reflected t := by
    by_contra hnot
    have hmem : m.1 ∈ unreflected t := List.mem_filter.mpr ⟨m.2, decide_eq_true hnot⟩
    rw [h] at hmem
    cases hmem
  exact if_pos hm

/-- What a type without keys does not reflect is nothing that keys are made of. -/
theorem isGeneric_eq_false_of_unreflected (h : unreflected t ≠ []) : t.isGeneric = false := by
  rw [unreflected_eq] at h
  cases t <;> first | rfl | exact absurd rfl h

end FinChain.Chain
