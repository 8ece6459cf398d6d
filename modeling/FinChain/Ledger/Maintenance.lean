import FinChain.Ledger.Bitassets
import FinChain.Ledger.Interest

/-!
# Maintenance

What `perform_chain_maintenance` does with core. The FBA accumulators are shared out, the fees that
the accounts have paid go to the network, to their referrers and to their registrars, and the budget
of the next interval is taken out of the reserve, which is what the supply lacks to its maximum. The
fees of the network and what the witnesses have not earned return to the reserve with the budget.

Core leaves the supply wherever it goes back to the reserve, and joins it again when it is paid, so
the sum over all that is held follows the supply. The votes, the members, the buyback orders and the
parameters are not part of this; new parameters are told to the function.
-/

namespace FinChain.Ledger

open Exec

/-! ### Integers -/

/-- `uint64_t` of a number. -/
def uint64 (x : ℤ) : ℤ := x % 2 ^ 64

/-- A sum of `share_type`, which throws if it does not fit. -/
def toShare (x : ℤ) : Except LedgerError ℤ := if FitsShare x then .ok x else .error .assertion

/-- A percentage of an amount. -/
def percentOf (amount : ℤ) (percent : ℕ) : Except LedgerError ℤ :=
  toUint64 (uint128 (uint128 amount * percent) / hundredPercent)

/-- `cut_fee`. -/
def cutFee (amount : ℤ) (percent : ℕ) : Except LedgerError ℤ :=
  if amount = 0 ∨ percent = 0 then .ok 0
  else if percent = hundredPercent then .ok amount
  else percentOf amount percent

/-! ### Vesting balances -/

/-- Change the supply of core. -/
def changeCoreSupply (x : ℤ) : LedgerM Unit :=
  modifyDynamicData core fun d => { d with currentSupply := d.currentSupply + x }

/-- `deposit` and `deposit_vested`, which differ in the coin seconds only. -/
def depositVesting (id : ℕ) (amount : ℤ) : LedgerM Unit := do
  let s ← get
  let b ← require .notFound (s.vestingBalances.lookup id)
  let balance ← lift (b.balance.add ⟨amount, core⟩)
  update fun s =>
    { s with
      vestingBalances := s.vestingBalances.modify id fun b => { b with balance := balance } }

/-- A vesting balance can be deposited in if it is the owner's and vests as long. -/
def Books.lazyVesting (s : Books) (seconds owner : ℕ) : Option ℕ → Except LedgerError (Option ℕ)
  | none => .ok none
  | some id =>
    match s.vestingBalances.lookup id with
    | none => .error .notFound
    | some b =>
      .ok (if b.owner = owner ∧ b.cddVestingSeconds = some seconds then some id else none)

/-- A new vesting balance; its key is returned. -/
def createVesting (amount : ℤ) (seconds owner : ℕ) : LedgerM (Option ℕ) := do
  let s ← get
  update fun s =>
    { s with
      vestingBalances := s.vestingBalances.create
        { owner := owner, balance := ⟨amount, core⟩, cddVestingSeconds := some seconds } }
  return some s.vestingBalances.next

/-- `deposit_lazy_vesting`; the key of a vesting balance that was created. -/
def depositLazyVesting (id : Option ℕ) (amount : ℤ) (seconds owner : ℕ) : LedgerM (Option ℕ) := do
  let s ← get
  match ← lift (s.lazyVesting seconds owner id) with
  | some id => do
    depositVesting id amount
    return none
  | none => createVesting amount seconds owner

/-- The accounts of the blockchain, from `GRAPHENE_COMMITTEE_ACCOUNT` to `GRAPHENE_TEMP_ACCOUNT`. -/
def isBlockchainAccount (id : ℕ) : Bool := id ≤ 4

/-- `GRAPHENE_NULL_ACCOUNT`. -/
def nullAccount : ℕ := 3

/-- An account remembers the vesting balance that was created for it. -/
def rememberVesting (account : ℕ) : Option ℕ → LedgerM Unit
  | none => pure ()
  | some id => update fun s =>
    { s with accounts := s.accounts.modify account fun a => { a with cashbackVb := some id } }

/-- `deposit_cashback`. "The blockchain's accounts do not get cashback; it simply goes to the reserve
pool." -/
def depositCashback (account : ℕ) (amount : ℤ) : LedgerM Unit := do
  let s ← get
  let a ← require .notFound (s.accounts.lookup account)
  if amount = 0 then pure ()
  else if isBlockchainAccount account then changeCoreSupply (-amount)
  else do
    let created ← depositLazyVesting a.cashbackVb amount s.parameters.cashbackVestingPeriodSeconds
      account
    rememberVesting account created

/-! ### Fees -/

/-- The shares of the network, the lifetime referrer, the referrer and the registrar in a fee. -/
def Account.cuts (a : Account) (total : ℤ) : Except LedgerError (ℤ × ℤ × ℤ × ℤ) := do
  let network ← cutFee total a.networkFeePercentage
  let lifetime ← cutFee total a.lifetimeReferrerFeePercentage
  let referral := total - network - lifetime
  let referrer ← cutFee referral a.referrerRewardsPercentage
  return (network, lifetime, referrer, referral - referrer)

/-- "Check the referrer -- if he's no longer a member, pay to the lifetime referrer instead." -/
def Account.checkReferrer (a : Account) (referrer : Account) (now : ℕ) : Account :=
  if referrer.membershipExpirationDate < now then { a with referrer := a.lifetimeReferrer } else a

/-- `pay_out_fees`. -/
def payOutFees (account : ℕ) (total : ℤ) : LedgerM Unit := do
  let s ← get
  let old ← require .notFound (s.accounts.lookup account)
  let referrer ← require .notFound (s.accounts.lookup old.referrer)
  let a := old.checkReferrer referrer s.headTime
  update fun s => { s with accounts := s.accounts.insert account a }
  let (networkCut, lifetimeCut, referrerCut, registrarCut) ← lift (a.cuts total)
  modifyDynamicData core fun d => { d with accumulatedFees := d.accumulatedFees + networkCut }
  depositCashback a.lifetimeReferrer lifetimeCut
  depositCashback a.referrer referrerCut
  depositCashback a.registrar registrarCut

/-- `account_statistics_object::process_fees`. -/
def processFees (account : ℕ) : LedgerM Unit := do
  let s ← get
  let a ← require .notFound (s.statistics.lookup account)
  if 0 < a.pendingFees ∨ 0 < a.pendingVestedFees then do
    payOutFees account a.pendingFees
    payOutFees account a.pendingVestedFees
    modifyStatistics account fun a => { a with pendingFees := 0, pendingVestedFees := 0 }
  else pure ()

/-! ### Fees of blind transfers -/

/-- Empty an FBA accumulator. -/
def clearFba (id : ℕ) : LedgerM Unit :=
  update fun s => { s with fbas := s.fbas.modify id fun f => { f with accumulatedFbaFees := 0 } }

/-- `split_fba_balance`. What is left to the network follows from the other two percentages. -/
def splitFbaBalance (S : Settings) (id networkPct buybackPct issuerPct : ℕ) : LedgerM Unit := do
  assert .assertion (networkPct + buybackPct + issuerPct = hundredPercent)
  let s ← get
  let fba ← require .notFound (s.fbas.lookup id)
  if fba.accumulatedFbaFees = 0 then pure ()
  else if S.fbaIsConfigured s id = false then do
    changeCoreSupply (-fba.accumulatedFbaFees)
    clearFba id
  else do
    let buyback ← lift (percentOf fba.accumulatedFbaFees buybackPct)
    let issuer ← lift (percentOf fba.accumulatedFbaFees issuerPct)
    assert .assertion (buyback + issuer ≤ fba.accumulatedFbaFees)
    let designated ← require .notFound (fba.designatedAsset.bind s.assets.lookup)
    let buybackAccount ← require .notFound designated.buybackAccount
    changeCoreSupply (-(fba.accumulatedFbaFees - (buyback + issuer)))
    adjustBalance buybackAccount ⟨buyback, core⟩
    adjustBalance designated.issuer ⟨issuer, core⟩
    clearFba id

/-- `distribute_fba_balances`, for `fba_accumulator_id_transfer_to_blind`,
`fba_accumulator_id_blind_transfer` and `fba_accumulator_id_transfer_from_blind`. -/
def distributeFbaBalances (S : Settings) : LedgerM Unit := do
  splitFbaBalance S 0 2000 6000 2000
  splitFbaBalance S 1 2000 6000 2000
  splitFbaBalance S 2 2000 6000 2000

/-! ### The budget -/

/-- `is_active` and `approving_stake`. -/
def Worker.isPaid (w : Worker) (now : ℕ) : Bool :=
  decide (w.workBeginDate ≤ now ∧ now ≤ w.workEndDate ∧ 0 < w.totalVotesFor - w.totalVotesAgainst)

/-- "worker with more votes is preferred; if two workers exactly tie for votes, worker with lower ID
is preferred" -/
def workerBefore (a b : ℕ × Worker) : Prop :=
  b.2.totalVotesFor - b.2.totalVotesAgainst < a.2.totalVotesFor - a.2.totalVotesAgainst ∨
    a.2.totalVotesFor - a.2.totalVotesAgainst = b.2.totalVotesFor - b.2.totalVotesAgainst ∧ a.1 ≤ b.1

instance : DecidableRel workerBefore := fun _ _ => inferInstanceAs (Decidable (_ ∨ _))

def Books.paidWorkers (s : Books) : List (ℕ × Worker) :=
  (s.workers.entries.filter fun e => e.2.isPaid s.headTime).insertionSort workerBefore

/-- The pay for the time since the last budget, in microseconds. -/
def Worker.requestedPay (w : Worker) (elapsed : ℤ) : Except LedgerError ℤ :=
  if elapsed = 86400 then .ok w.dailyPay
  else (toUint64 (uint128 (uint128 w.dailyPay * (elapsed * 10 ^ 6)) / (86400 * 10 ^ 6))).map int64

/-- `pay_worker` of the three types of workers. -/
def WorkerType.payWorker (id : ℕ) (pay : ℤ) : WorkerType → LedgerM Unit
  | .refund burned => do
    changeCoreSupply (-pay)
    update fun s =>
      { s with workers := s.workers.modify id fun w => { w with worker := .refund (burned + pay) } }
  | .vestingBalance balance => depositVesting balance pay
  | .burn burned => do
    adjustBalance nullAccount ⟨pay, core⟩
    update fun s =>
      { s with workers := s.workers.modify id fun w => { w with worker := .burn (burned + pay) } }

/-- The loop of `pay_workers`; what is left of the budget. -/
def payWorkerList (elapsed : ℤ) : List (ℕ × Worker) → ℤ → LedgerM ℤ
  | [], budget => return budget
  | (id, w) :: ws, budget =>
    if 0 < budget then do
      let requested ← lift (w.requestedPay elapsed)
      w.worker.payWorker id (min budget requested)
      payWorkerList elapsed ws (budget - min budget requested)
    else return budget

/-- `pay_workers`. -/
def payWorkers (budget : ℤ) : LedgerM ℤ := do
  let s ← get
  payWorkerList (s.headTime - s.lastBudgetTime) s.paidWorkers budget

/-- `total_budget` of `initialize_budget_record`. The rate is 17 in 2^32 a second, "round up to the
nearest satoshi". -/
def Books.totalBudget (s : Books) (reserve : ℤ) : Except LedgerError ℤ :=
  if s.lastBudgetTime = 0 ∨ s.headTime ≤ s.lastBudgetTime then .ok 0
  else
    let budget := uint128 (uint128 (uint128 (uint128 reserve * (s.headTime - s.lastBudgetTime : ℤ)) * 17) +
      (2 ^ 32 - 1)) / 2 ^ 32
    if budget < uint128 reserve then toUint64 budget else .ok reserve

/-- What the witnesses are to receive until the next maintenance. -/
def Books.requestedWitnessBudget (s : Books) : ℤ :=
  let timeToMaint := uint64 (s.nextMaintenanceTime - s.headTime)
  let blocksToMaint := uint64 (timeToMaint + s.parameters.blockInterval - 1) / s.parameters.blockInterval
  int64 (s.parameters.witnessPayPerBlock * blocksToMaint)

/-- What the workers may receive. -/
def Books.workerBudget (s : Books) (available : ℤ) : Except LedgerError ℤ :=
  let timeToMaint := uint64 (s.nextMaintenanceTime - s.headTime)
  let budget := uint128 (uint128 s.parameters.workerBudgetPerDay * timeToMaint) / (60 * 60 * 24)
  if uint128 available ≤ budget then .ok available else toUint64 budget

/-- `process_budget`. -/
def processBudget : LedgerM Unit := do
  let s ← get
  let a ← require .notFound (s.assets.lookup core)
  let d ← require .notFound (s.dynamicData.lookup core)
  let reserve ← lift
    (toShare (a.options.maxSupply - d.currentSupply + d.accumulatedFees + s.witnessBudget))
  let total ← lift (s.totalBudget reserve)
  let witnessBudget := min s.requestedWitnessBudget total
  let workerBudget ← lift (s.workerBudget (total - witnessBudget))
  let leftover ← payWorkers workerBudget
  modifyDynamicData core fun dd =>
    { dd with
      currentSupply := dd.currentSupply +
        (witnessBudget + workerBudget - leftover - d.accumulatedFees - s.witnessBudget)
      accumulatedFees := 0 }
  update fun s => { s with witnessBudget := witnessBudget, lastBudgetTime := s.headTime }

/-! ### The maintenance of the chain -/

/-- "Reset all BitAsset force settlement volumes to zero" -/
def Books.resetVolumes (s : Books) : Books :=
  { s with
    bitassets := s.bitassets.keys.foldl
      (fun t k => t.modify k fun b => { b with forceSettledVolume := 0 }) s.bitassets }

/-- The time of the next maintenance. "We want to find the smallest k such that
next_maintenance_time + k * maintenance_interval > head_block_time()" -/
def Books.followingMaintenance (s : Books) (firstBlock : Bool) : ℕ :=
  if s.headTime < s.nextMaintenanceTime then s.nextMaintenanceTime
  else if firstBlock then
    (s.headTime / s.parameters.maintenanceInterval + 1) * s.parameters.maintenanceInterval
  else
    s.nextMaintenanceTime + ((s.headTime - s.nextMaintenanceTime) / s.parameters.maintenanceInterval + 1) *
      s.parameters.maintenanceInterval

/-- What `perform_chain_maintenance` does with core, for the accounts in the order of their names. -/
def performChainMaintenance (S : Settings) (accounts : List ℕ) (parameters : ChainParameters)
    (firstBlock : Bool) : LedgerM Unit := do
  distributeFbaBalances S
  accounts.forM processFees
  update fun s => { s with parameters := parameters }
  update fun s => { s with nextMaintenanceTime := s.followingMaintenance firstBlock }
  update Books.resetVolumes
  processBudget

end FinChain.Ledger
