import FinChain.Ledger.Interest

/-!
# Vesting balances

`vesting_balance_object` and its two policies. A balance under the linear policy was filled once and is
released on a schedule; it takes no deposits that are vested already. A balance under the coin-days
policy may be filled at any time, and what may be withdrawn of it has to be earned: every unit earns one
coin-second per second, up to `vesting_seconds` of them, and a unit that is withdrawn uses up
`vesting_seconds`.

The coin-seconds are only counted when something is deposited or withdrawn. They are 128-bit numbers,
products wrap around. The assertions of the source (`assert`, not `FC_ASSERT`) are not part of the model,
that they hold is proved of it.
-/

namespace FinChain.Ledger

/-- `vesting_policy_context`. -/
structure VestingContext where
  balance : Asset
  now : ℕ
  amount : Asset

/-- `sum_below_max_shares`. -/
def sumBelowMaxShares (a b : Asset) : Bool :=
  a.amount ≤ maxShareSupply ∧ b.amount ≤ maxShareSupply ∧ a.amount + b.amount ≤ maxShareSupply

/-! ### The linear policy -/

/-- `linear_vesting_policy`. -/
structure LinearVestingPolicy where
  beginTimestamp : ℕ
  vestingCliffSeconds : ℕ
  vestingDurationSeconds : ℕ
  beginBalance : ℤ
  deriving DecidableEq

namespace LinearVestingPolicy

def getAllowedWithdraw (p : LinearVestingPolicy) (ctx : VestingContext) : Except LedgerError Asset :=
  if p.beginTimestamp < ctx.now then
    let elapsedSeconds := ctx.now - p.beginTimestamp
    if p.vestingCliffSeconds ≤ elapsedSeconds then do
      let totalVested ←
        if elapsedSeconds < p.vestingDurationSeconds then
          (toUint64 (uint128 (uint128 p.beginBalance * elapsedSeconds) / p.vestingDurationSeconds)).map
            int64
        else .ok p.beginBalance
      let withdrawnAlready := p.beginBalance - ctx.balance.amount
      .ok ⟨totalVested - withdrawnAlready, ctx.balance.assetId⟩
    else .ok ⟨0, ctx.balance.assetId⟩
  else .ok ⟨0, ctx.balance.assetId⟩

def isDepositAllowed (ctx : VestingContext) : Bool :=
  ctx.amount.assetId = ctx.balance.assetId && sumBelowMaxShares ctx.amount ctx.balance

def isWithdrawAllowed (p : LinearVestingPolicy) (ctx : VestingContext) : Except LedgerError Bool :=
  if ctx.amount.assetId = ctx.balance.assetId then do
    let allowed ← p.getAllowedWithdraw ctx
    ctx.amount.le allowed
  else .ok false

end LinearVestingPolicy

/-! ### The coin-days policy -/

/-- `cdd_vesting_policy`. -/
structure CddVestingPolicy where
  vestingSeconds : ℕ
  coinSecondsEarned : ℤ
  startClaim : ℕ := 0
  coinSecondsEarnedLastUpdate : ℕ
  deriving DecidableEq

namespace CddVestingPolicy

/-- `std::max(vesting_seconds, 1u)`, the coin-seconds that a unit costs. -/
def unitCost (p : CddVestingPolicy) : ℕ := max p.vestingSeconds 1

/-- `compute_coin_seconds_earned`. -/
def computeCoinSecondsEarned (p : CddVestingPolicy) (ctx : VestingContext) : ℤ :=
  let deltaSeconds := (ctx.now : ℤ) - p.coinSecondsEarnedLastUpdate
  let deltaCoinSeconds := uint128 (uint128 ctx.balance.amount * uint128 deltaSeconds)
  let cap := uint128 (uint128 ctx.balance.amount * p.unitCost)
  min (uint128 (p.coinSecondsEarned + deltaCoinSeconds)) cap

/-- `update_coin_seconds_earned`. -/
def updateCoinSecondsEarned (p : CddVestingPolicy) (ctx : VestingContext) : CddVestingPolicy :=
  { p with
    coinSecondsEarned := p.computeCoinSecondsEarned ctx
    coinSecondsEarnedLastUpdate := ctx.now }

def getAllowedWithdraw (p : CddVestingPolicy) (ctx : VestingContext) : Except LedgerError Asset :=
  if ctx.now ≤ p.startClaim then .ok ⟨0, ctx.balance.assetId⟩
  else do
    let withdrawAvailable := p.computeCoinSecondsEarned ctx / p.unitCost
    let amount ← toUint64 withdrawAvailable
    .ok ⟨int64 amount, ctx.balance.assetId⟩

def onDeposit (p : CddVestingPolicy) (ctx : VestingContext) : CddVestingPolicy :=
  p.updateCoinSecondsEarned ctx

/-- `on_deposit_vested`. The product is one of 64-bit numbers. -/
def onDepositVested (p : CddVestingPolicy) (ctx : VestingContext) : CddVestingPolicy :=
  let p := p.onDeposit ctx
  { p with
    coinSecondsEarned :=
      uint128 (p.coinSecondsEarned + uint128 (int64 (ctx.amount.amount * p.unitCost))) }

/-- The coin-seconds that a withdrawal uses up. -/
def coinSecondsNeeded (p : CddVestingPolicy) (ctx : VestingContext) : ℤ :=
  uint128 (uint128 ctx.amount.amount * p.unitCost)

def onWithdraw (p : CddVestingPolicy) (ctx : VestingContext) : CddVestingPolicy :=
  let p := p.updateCoinSecondsEarned ctx
  { p with coinSecondsEarned := uint128 (p.coinSecondsEarned - p.coinSecondsNeeded ctx) }

def isDepositAllowed (ctx : VestingContext) : Bool :=
  ctx.amount.assetId = ctx.balance.assetId && sumBelowMaxShares ctx.amount ctx.balance

def isDepositVestedAllowed (ctx : VestingContext) : Bool := isDepositAllowed ctx

def isWithdrawAllowed (p : CddVestingPolicy) (ctx : VestingContext) : Except LedgerError Bool := do
  let allowed ← p.getAllowedWithdraw ctx
  ctx.amount.le allowed

end CddVestingPolicy

/-! ### Vesting balances -/

/-- `vesting_policy`. -/
inductive VestingPolicy
  | linear (p : LinearVestingPolicy)
  | cdd (p : CddVestingPolicy)
  deriving DecidableEq

/-- `vesting_balance_object`, without its owner. -/
structure VestingObject where
  balance : Asset
  policy : VestingPolicy
  deriving DecidableEq

namespace VestingObject

def isDepositAllowed (v : VestingObject) (now : ℕ) (amount : Asset) : Bool :=
  match v.policy with
  | .linear _ => LinearVestingPolicy.isDepositAllowed ⟨v.balance, now, amount⟩
  | .cdd _ => CddVestingPolicy.isDepositAllowed ⟨v.balance, now, amount⟩

def isDepositVestedAllowed (v : VestingObject) (now : ℕ) (amount : Asset) : Bool :=
  match v.policy with
  | .linear _ => false
  | .cdd _ => CddVestingPolicy.isDepositVestedAllowed ⟨v.balance, now, amount⟩

def isWithdrawAllowed (v : VestingObject) (now : ℕ) (amount : Asset) : Except LedgerError Bool :=
  match v.policy with
  | .linear p => p.isWithdrawAllowed ⟨v.balance, now, amount⟩
  | .cdd p => p.isWithdrawAllowed ⟨v.balance, now, amount⟩

def getAllowedWithdraw (v : VestingObject) (now : ℕ) : Except LedgerError Asset :=
  match v.policy with
  | .linear p => p.getAllowedWithdraw ⟨v.balance, now, ⟨0, core⟩⟩
  | .cdd p => p.getAllowedWithdraw ⟨v.balance, now, ⟨0, core⟩⟩

def deposit (v : VestingObject) (now : ℕ) (amount : Asset) : Except LedgerError VestingObject := do
  let policy := match v.policy with
    | .linear p => .linear p
    | .cdd p => .cdd (p.onDeposit ⟨v.balance, now, amount⟩)
  let balance ← v.balance.add amount
  .ok { v with policy := policy, balance := balance }

/-- `deposit_vested`. "May not deposit vested into a linear vesting balance." -/
def depositVested (v : VestingObject) (now : ℕ) (amount : Asset) :
    Except LedgerError VestingObject := do
  let policy ← match v.policy with
    | .linear _ => .error .assertion
    | .cdd p => .ok (.cdd (p.onDepositVested ⟨v.balance, now, amount⟩))
  let balance ← v.balance.add amount
  .ok { v with policy := policy, balance := balance }

def withdraw (v : VestingObject) (now : ℕ) (amount : Asset) : Except LedgerError VestingObject := do
  let policy := match v.policy with
    | .linear p => .linear p
    | .cdd p => .cdd (p.onWithdraw ⟨v.balance, now, amount⟩)
  let balance ← v.balance.sub amount
  .ok { v with policy := policy, balance := balance }

end VestingObject

end FinChain.Ledger
