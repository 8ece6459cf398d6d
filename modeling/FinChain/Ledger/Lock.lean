import FinChain.Ledger.State

/-!
# Locked balances

The operations by which accounts lock balances for interest. The issuer of an asset sets up an
interest pool, anyone may donate to it. Who locks a balance is promised its interest out of the
pool at once; unlocking it after the period pays the balance with its interest, and before that, if
the asset allows it, the balance alone, and the interest returns to the pool.

A locked balance does not know its owner. It is in the set of locked balances of one
`account_balance_object`, and unlocking takes it out of the set of the account that asks for it.
-/

namespace FinChain.Ledger

open Exec

/-- `JRC_INTEREST_DAY`. -/
def interestDay : ℕ := 86400

/-- Modify the lock data of an asset, which must exist. -/
def modifyLockData (assetId : ℕ) (g : AssetLockData → AssetLockData) : LedgerM Unit := do
  let s ← get
  let d ← require .assertion (s.lockData.lookup assetId)
  update fun s => { s with lockData := s.lockData.insert assetId (g d) }

/-- Modify the balance object of an account, which must exist. -/
def modifyLockeds (account assetId : ℕ) (g : Finset ℕ → Finset ℕ) : LedgerM Unit := do
  let s ← get
  let b ← require .assertion (s.balances.lookup (account, assetId))
  update fun s =>
    { s with balances := s.balances.insert (account, assetId) { b with lockeds := g b.lockeds } }

/-! ### The interest pool -/

/-- `set_lock_data_operation`. -/
structure SetLockData where
  fee : Asset
  issuer : ℕ
  nominalInterestPerday : ℕ
  rewardCoefficient : ℕ
  initInterestPool : Asset
  maxPeriod : ℕ
  profileScalePercent : ℕ
  profileReceivePercent : ℕ
  canUnlockNotExpired : Bool

def SetLockData.validate (op : SetLockData) : LedgerM Unit :=
  assert .assertion (0 ≤ op.fee.amount ∧ 0 < op.nominalInterestPerday ∧
    0 ≤ op.initInterestPool.amount ∧ op.rewardCoefficient ≤ hundredPercent ∧ 2 ≤ op.maxPeriod ∧
    0 < op.profileScalePercent ∧ op.profileReceivePercent ≤ hundredPercent)

def SetLockData.doEvaluate (op : SetLockData) : LedgerM Unit := do
  let s ← get
  let a ← require .assertion (s.assets.lookup op.initInterestPool.assetId)
  assert .assertion (s.lockData.lookup op.initInterestPool.assetId = none)
  assert .assertion (a.issuer = op.issuer)
  assert .assertion (0 < op.initInterestPool.amount →
    op.initInterestPool.amount ≤ s.getBalance op.issuer op.initInterestPool.assetId)

/-- The initial pool is taken from the issuer. -/
def SetLockData.payPool (op : SetLockData) : LedgerM Unit :=
  if 0 < op.initInterestPool.amount then adjustBalance op.issuer op.initInterestPool.neg
  else pure ()

def SetLockData.doApply (op : SetLockData) : LedgerM Unit := do
  let s ← get
  assert .assertion
    (op.initInterestPool.amount ≤ s.getBalance op.issuer op.initInterestPool.assetId)
  op.payPool
  update fun s =>
    { s with
      lockData := s.lockData.insert op.initInterestPool.assetId
        { assetId := op.initInterestPool.assetId
          nominalInterestPerday := op.nominalInterestPerday
          rewardCoefficient := op.rewardCoefficient
          interestPool := op.initInterestPool.amount
          maxPeriod := op.maxPeriod
          profileScalePercent := op.profileScalePercent
          profileReceivePercent := op.profileReceivePercent
          canUnlockNotExpired := op.canUnlockNotExpired } }

def SetLockData.evaluator (op : SetLockData) : Evaluator Unit where
  feePayer := op.issuer
  fee := op.fee
  kind := .setLockData
  doEvaluate := op.doEvaluate
  doApply := fun _ _ => op.doApply

/-- `donation_balance_operation`. -/
structure DonationBalance where
  fee : Asset
  issuer : ℕ
  amount : Asset

/-- The amount is not checked. -/
def DonationBalance.validate (op : DonationBalance) : LedgerM Unit :=
  assert .assertion (0 ≤ op.fee.amount)

def DonationBalance.doEvaluate (op : DonationBalance) : LedgerM Unit := do
  let s ← get
  assert .assertion (op.amount.amount ≤ s.getBalance op.issuer op.amount.assetId)

def DonationBalance.doApply (op : DonationBalance) : LedgerM Unit := do
  let s ← get
  let _ ← require .assertion (s.assets.lookup op.amount.assetId)
  let _ ← require .assertion (s.lockData.lookup op.amount.assetId)
  adjustBalance op.issuer op.amount.neg
  modifyLockData op.amount.assetId fun d => { d with interestPool := d.interestPool + op.amount.amount }

def DonationBalance.evaluator (op : DonationBalance) : Evaluator Unit where
  feePayer := op.issuer
  fee := op.fee
  kind := .donationBalance
  doEvaluate := op.doEvaluate
  doApply := fun _ _ => op.doApply

/-! ### Locking -/

/-- `lock_balance_operation`. -/
structure LockBalance where
  fee : Asset
  issuer : ℕ
  amount : Asset
  period : ℕ

def LockBalance.validate (op : LockBalance) : LedgerM Unit :=
  assert .assertion (0 ≤ op.fee.amount ∧ 0 < op.amount.amount ∧ interestDay ≤ op.period)

/-- The profit, for `do_apply`. -/
def LockBalance.doEvaluate (S : Settings) (op : LockBalance) : LedgerM ℤ := do
  let s ← get
  let _ ← require .notFound (s.assets.lookup op.amount.assetId)
  let d ← require .assertion (s.lockData.lookup op.amount.assetId)
  assert .assertion (op.amount.amount ≤ s.getBalance op.issuer op.amount.assetId)
  let profit ← require .assertion (S.getProfit s d op.amount.amount op.period)
  assert .assertion (profit ≤ d.interestPool)
  return profit

def LockBalance.doApply (op : LockBalance) (profit : ℤ) : LedgerM Unit := do
  let s ← get
  let _ ← require .notFound (s.dynamicData.lookup op.amount.assetId)
  let _ ← require .assertion (s.lockData.lookup op.amount.assetId)
  update fun s =>
    { s with
      lockedBalances := s.lockedBalances.create
        { initialLockBalance := op.amount.amount
          lockedBalance := profit + op.amount.amount
          lockTime := s.headTime
          lockPeriod := op.period
          assetId := op.amount.assetId
          lockedBy := op.issuer } }
  let b ← require .assertion (s.balances.lookup (op.issuer, op.amount.assetId))
  adjustBalance op.issuer op.amount.neg
  -- `add_lock_balance`: "max 50 lock balance per asset"
  assert .assertion (b.lockeds.card < 50)
  modifyLockeds op.issuer op.amount.assetId (insert s.lockedBalances.next)
  modifyLockData op.amount.assetId fun d => { d with interestPool := d.interestPool - profit }
  modifyDynamicData op.amount.assetId fun d =>
    { d with lockedBalance := d.lockedBalance + (profit + op.amount.amount) }

def LockBalance.evaluator (op : LockBalance) (S : Settings) : Evaluator ℤ where
  feePayer := op.issuer
  fee := op.fee
  kind := .lockBalance
  doEvaluate := op.doEvaluate S
  doApply := fun _ => op.doApply

/-! ### Unlocking -/

/-- `unlock_balance_operation`. -/
structure UnlockBalance where
  fee : Asset
  issuer : ℕ
  lockedId : ℕ
  expired : Bool

def UnlockBalance.validate (op : UnlockBalance) : LedgerM Unit :=
  assert .assertion (0 ≤ op.fee.amount)

def UnlockBalance.doEvaluate (op : UnlockBalance) : LedgerM Unit := do
  let s ← get
  let item ← require .notFound (s.lockedBalances.lookup op.lockedId)
  assert .assertion (0 ≤ item.lockedBalance)

/-- `get_unlock_time`, which throws when the sum does not fit 32 bits. -/
def LockedBalance.getUnlockTime (l : LockedBalance) : Except LedgerError ℕ :=
  if l.lockTime + l.lockPeriod < 2 ^ 32 then .ok (l.lockTime + l.lockPeriod) else .error .assertion

/-- The time has come, if the operation says so. -/
def UnlockBalance.hasExpired (op : UnlockBalance) (headTime : ℕ) (item : LockedBalance) :
    Except LedgerError Bool :=
  if op.expired then item.getUnlockTime.map fun time => decide (time ≤ headTime) else .ok false

/-- The balance with its interest is paid to the issuer of the operation. -/
def UnlockBalance.payAll (op : UnlockBalance) (item : LockedBalance) : LedgerM Payout := do
  adjustBalance op.issuer ⟨item.lockedBalance, item.assetId⟩
  return ⟨op.lockedId, op.issuer, item.lockedBalance, 0⟩

/-- The balance alone is paid, and the interest returns to the pool. -/
def UnlockBalance.payInitial (op : UnlockBalance) (item : LockedBalance) : LedgerM Payout := do
  adjustBalance op.issuer ⟨item.initialLockBalance, item.assetId⟩
  modifyLockData item.assetId fun d =>
    { d with interestPool := d.interestPool + (item.lockedBalance - item.initialLockBalance) }
  return ⟨op.lockedId, op.issuer, item.initialLockBalance,
    item.lockedBalance - item.initialLockBalance⟩

def UnlockBalance.pay (op : UnlockBalance) (expired : Bool) (item : LockedBalance) :
    LedgerM Payout :=
  if expired then op.payAll item else op.payInitial item

def UnlockBalance.doApply (op : UnlockBalance) : LedgerM Unit := do
  let s ← get
  let item ← require .notFound (s.lockedBalances.lookup op.lockedId)
  let d ← require .assertion (s.lockData.lookup item.assetId)
  let _ ← require .assertion (s.balances.lookup (op.issuer, item.assetId))
  assert .assertion (item.finish = false)
  let expired ← lift (op.hasExpired s.headTime item)
  assert .assertion (expired = true ∨ d.canUnlockNotExpired = true)
  let payout ← op.pay expired item
  update fun s =>
    { s with
      lockedBalances := s.lockedBalances.modify op.lockedId fun l => { l with finish := true }
      payouts := payout :: s.payouts }
  -- `unlock_balance`: "can't find the locked balance id"
  let s ← get
  let b ← require .assertion (s.balances.lookup (op.issuer, item.assetId))
  assert .assertion (op.lockedId ∈ b.lockeds)
  modifyLockeds op.issuer item.assetId fun ids => ids.erase op.lockedId

def UnlockBalance.evaluator (op : UnlockBalance) : Evaluator Unit where
  feePayer := op.issuer
  fee := op.fee
  kind := .unlockBalance
  doEvaluate := op.doEvaluate
  doApply := fun _ _ => op.doApply

/-! ### Operations -/

/-- The operations on locked balances. -/
inductive LockOperation
  | setLockData (op : SetLockData)
  | lockBalance (op : LockBalance)
  | unlockBalance (op : UnlockBalance)
  | donationBalance (op : DonationBalance)

namespace LockOperation

def fee : LockOperation → Asset
  | setLockData op => op.fee
  | lockBalance op => op.fee
  | unlockBalance op => op.fee
  | donationBalance op => op.fee

/-- `validate`, then evaluation and application. -/
def run (S : Settings) : LockOperation → LedgerM Unit
  | setLockData op => do
    op.validate
    op.evaluator.run S false
  | lockBalance op => do
    op.validate
    (op.evaluator S).run S false
  | unlockBalance op => do
    op.validate
    op.evaluator.run S false
  | donationBalance op => do
    op.validate
    op.evaluator.run S false

end LockOperation

/-- The operations at their block times, one after the other; one that is refused leaves everything
as it was. -/
def runLockOperations (S : Settings) : Books → List (ℕ × LockOperation) → Books
  | s, [] => s
  | s, (time, op) :: ops =>
    match op.run S { s with headTime := time } with
    | .ok _ s' => runLockOperations S s' ops
    | .error _ _ => runLockOperations S { s with headTime := time } ops

end FinChain.Ledger
