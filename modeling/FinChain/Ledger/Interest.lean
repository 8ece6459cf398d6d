import FinChain.Ledger.Lock
import FinChain.Ledger.Effects
import Mathlib.Algebra.Order.Ring.Int

/-!
# The interest of a lock

`asset_lock_data_object::get_profit`. The interest for a number of days is the nominal interest of a
day to that power, computed by repeated squaring in fixed point; of this the account receives a part
that depends on how much of the pool is left. The computation is in 128 bits and wraps around, so
not much can be said about it in general; but the last step makes sure that the interest is not
more than the pool (`getProfit_nonneg` needs that, since otherwise it could be read as a negative
number).
-/

namespace FinChain.Ledger

open Exec

/-- The number that the lowest 64 bits stand for in an `int64_t`. -/
def int64 (x : ℤ) : ℤ := x.bmod (2 ^ 64)

/-- `to_uint64`, which throws if the number does not fit. -/
def toUint64 (x : ℤ) : Except LedgerError ℤ := if x < 2 ^ 64 then .ok x else .error .assertion

/-- The number that the lowest 32 bits stand for in an `int32_t`. -/
def int32 (x : ℤ) : ℤ := x.bmod (2 ^ 32)

/-- The amounts of an `Interest`, a price in one asset. -/
structure Interest where
  base : ℤ
  quote : ℤ
  deriving DecidableEq, Repr

/-- `JRC_INTEREST_BASE_SUPPLY`. -/
def interestBaseSupply : ℤ := 10 ^ 12

/-- `JRC_INTEREST_BASE_SUPPLY / GRAPHENE_BLOCKCHAIN_PRECISION * precision`, for an asset with so many
digits. -/
def interestUnit (digits : ℕ) : ℤ := 10 ^ 12 / 10 ^ 8 * 10 ^ digits

/-- `multiply_of_interest`. -/
def multiplyOfInterest (unit : ℤ) (a b : Interest) : Interest where
  base := unit
  quote := int64 (uint128 (uint128 (unit * uint128 a.quote) / uint128 a.base * uint128 b.quote) /
    uint128 b.base)

/-- The loop of `fast_pow_of_interest`. The exponent has 32 bits and loses one in every round. -/
def powLoop (unit : ℤ) : ℕ → (pow : ℕ) → (curBase result : Interest) → Interest
  | 0, _, _, result => result
  | fuel + 1, pow, curBase, result =>
    if pow = 0 then result
    else powLoop unit fuel (pow / 2) (multiplyOfInterest unit curBase curBase)
      (if pow % 2 = 1 then multiplyOfInterest unit result curBase else result)

/-- `fast_pow_of_interest`. -/
def fastPowOfInterest (unit : ℤ) (rate : Interest) (pow : ℕ) : Interest :=
  powLoop unit 32 pow rate ⟨1, 1⟩

namespace AssetLockData

variable (d : AssetLockData)

/-- An `Interest` as a price. -/
def price (i : Interest) : Price := ⟨⟨i.base, d.assetId⟩, ⟨i.quote, d.assetId⟩⟩

/-- `reward_rate`. -/
def rewardRate (lockDays : ℕ) : Except LedgerError ℤ := do
  let half := (int32 d.maxPeriod).tdiv 2
  -- division by zero
  check .assertion (half ≠ 0)
  let percentOfYear := (int32 (int32 (lockDays - half) * hundredPercent)).tdiv half
  return hundredPercent + (percentOfYear * d.rewardCoefficient).tdiv hundredPercent

/-- `pre_profile`: the interest for some days, without regard to the pool. -/
def preProfile (unit : ℤ) (nominal : Interest) (lockDays : ℕ) : Except LedgerError ℤ := do
  let rate ← d.rewardRate lockDays
  let grown ← Asset.mul ⟨unit, d.assetId⟩ (d.price (fastPowOfInterest unit nominal lockDays))
  return uint128 (uint128 (grown.amount - unit) * uint128 rate) / hundredPercent

/-- `max_need_pool`. -/
def maxNeedPool (unit : ℤ) (nominal : Interest) (currentSupply : ℤ) : Except LedgerError ℤ := do
  let top := fastPowOfInterest unit nominal d.maxPeriod
  let quote := uint128 top.quote
  let base := uint128 top.base
  let maxToDeposit := uint128 (currentSupply - d.interestPool)
  check .assertion (base ≤ quote)
  return uint128 (uint128 (uint128 (quote * maxToDeposit) / base - maxToDeposit) *
    (d.rewardCoefficient + hundredPercent)) / hundredPercent

/-- `actual_profile`: the part of the pool that is paid, at most all of it. -/
def actualProfile (pre need : ℤ) : ℤ :=
  let profile := uint128 (uint128 (pre * uint128 d.interestPool) / need * d.profileScalePercent) /
    hundredPercent
  if d.interestPool ≤ profile then
    uint128 (uint128 d.interestPool * d.profileReceivePercent) / hundredPercent % 2 ^ 64
  else profile

/-- `_get_interest`, for an asset with so many digits. -/
def getInterest (digits : ℕ) (currentSupply : ℤ) (lockPeriod : ℕ) : Except LedgerError Price := do
  check .assertion (lockPeriod ≤ d.maxPeriod * interestDay % 2 ^ 32)
  let unit := interestUnit digits
  -- the amount of an asset is an `int64_t`
  let nominal : Interest := ⟨interestBaseSupply, int64 d.nominalInterestPerday⟩
  let pre ← d.preProfile unit nominal (lockPeriod / interestDay)
  let need ← d.maxNeedPool unit nominal currentSupply
  -- division by zero
  check .assertion (need ≠ 0)
  let quote := int64 (d.actualProfile pre need) + unit
  check .assertion (FitsShare quote)
  return d.price ⟨unit, quote⟩

/-- What `get_profit` computes from the digits and the supply of the asset. The amounts are
`share_type`, and fit. -/
def profitOf (digits : ℕ) (currentSupply amount : ℤ) (period : ℕ) : Except LedgerError ℤ := do
  check .assertion (FitsShare amount ∧ FitsShare d.interestPool)
  let interest ← d.getInterest digits currentSupply period
  let total ← Asset.mul ⟨amount, d.assetId⟩ interest
  return total.amount - amount

/-- `get_profit`. -/
def getProfit (s : Books) (amount : ℤ) (period : ℕ) : Option ℤ :=
  match s.assets.lookup d.assetId, s.dynamicData.lookup d.assetId with
  | some a, some dyn => (d.profitOf a.precision dyn.currentSupply amount period).toOption
  | _, _ => none

end AssetLockData

/-! ### The profit is not negative -/

theorem int64_of_lt {x : ℤ} (h : 0 ≤ x) (hlt : x < 2 ^ 63) : int64 x = x := by
  unfold int64 Int.bmod
  norm_num
  omega

theorem le_int64 (x : ℤ) : -2 ^ 63 ≤ int64 x := by
  unfold int64 Int.bmod
  norm_num
  omega

/-- A number that does not fit loses at least a word. -/
theorem int64_of_large {x : ℤ} (h : 2 ^ 63 ≤ x) : int64 x ≤ x - 2 ^ 64 := by
  unfold int64 Int.bmod
  norm_num
  omega

/-- **The part of the pool** that is paid is between nothing and the whole pool. -/
theorem AssetLockData.actualProfile_mem {d : AssetLockData} (pre need : ℤ)
    (hpool : 0 ≤ d.interestPool) (hfits : d.interestPool < 2 ^ 63)
    (hreceive : d.profileReceivePercent ≤ hundredPercent) :
    0 ≤ d.actualProfile pre need ∧ d.actualProfile pre need ≤ d.interestPool := by
  unfold actualProfile
  simp only
  split
  · refine ⟨Int.emod_nonneg _ (by norm_num), ?_⟩
    rw [uint128_of_lt hpool (by omega)]
    have hreceive' : (d.profileReceivePercent : ℤ) ≤ 10000 := by exact_mod_cast hreceive
    have hprod : 0 ≤ d.interestPool * d.profileReceivePercent :=
      mul_nonneg hpool (Int.natCast_nonneg _)
    have hle : d.interestPool * d.profileReceivePercent ≤ d.interestPool * 10000 :=
      mul_le_mul_of_nonneg_left hreceive' hpool
    rw [uint128_of_lt hprod (by omega)]
    have hdiv : d.interestPool * d.profileReceivePercent / 10000 ≤ d.interestPool := by omega
    have hdiv₀ : 0 ≤ d.interestPool * d.profileReceivePercent / 10000 := by omega
    change _ / (10000 : ℤ) % _ ≤ _
    rw [Int.emod_eq_of_lt hdiv₀ (by omega)]
    exact hdiv
  · next hlt =>
    refine ⟨?_, (not_le.mp hlt).le⟩
    exact Int.ediv_nonneg (Int.emod_nonneg _ (by norm_num)) (by norm_num [hundredPercent])

/-- The interest is a price of at least one. -/
theorem AssetLockData.getInterest_ok {d : AssetLockData} {digits lockPeriod : ℕ} {supply : ℤ}
    {p : Price} (hpool : 0 ≤ d.interestPool) (hfits : d.interestPool < 2 ^ 63)
    (hreceive : d.profileReceivePercent ≤ hundredPercent)
    (h : d.getInterest digits supply lockPeriod = .ok p) :
    ∃ quote, interestUnit digits ≤ quote ∧ quote < 2 ^ 63 ∧
      p = d.price ⟨interestUnit digits, quote⟩ := by
  unfold getInterest at h
  obtain ⟨-, h⟩ := check_bind_eq_ok.mp h
  obtain ⟨pre, -, h⟩ := except_bind_eq_ok.mp h
  obtain ⟨need, -, h⟩ := except_bind_eq_ok.mp h
  obtain ⟨-, h⟩ := check_bind_eq_ok.mp h
  obtain ⟨hquote, h⟩ := check_bind_eq_ok.mp h
  cases h
  obtain ⟨hnonneg, hle⟩ := actualProfile_mem pre need hpool hfits hreceive
  rw [int64_of_lt hnonneg (by omega)] at hquote ⊢
  exact ⟨_, by omega, hquote.2, rfl⟩

theorem AssetLockData.profitOf_nonneg {d : AssetLockData} {digits period : ℕ}
    {supply amount profit : ℤ} (hpool : 0 ≤ d.interestPool)
    (hreceive : d.profileReceivePercent ≤ hundredPercent) (hamount : 0 ≤ amount)
    (h : d.profitOf digits supply amount period = .ok profit) : 0 ≤ profit := by
  unfold profitOf at h
  obtain ⟨⟨hfits, hfits'⟩, h⟩ := check_bind_eq_ok.mp h
  obtain ⟨p, hp, h⟩ := except_bind_eq_ok.mp h
  obtain ⟨total, htotal, h⟩ := except_bind_eq_ok.mp h
  cases h
  obtain ⟨quote, hunit, hquote, rfl⟩ := getInterest_ok hpool hfits'.2 hreceive hp
  have hpos : 0 < interestUnit digits := by
    have hpow : (0 : ℤ) < 10 ^ digits := pow_pos (by norm_num) _
    unfold interestUnit
    omega
  have hbase : (⟨amount, d.assetId⟩ : Asset).assetId =
      (d.price ⟨interestUnit digits, quote⟩).base.assetId := rfl
  rw [Asset.mul_of_base hbase] at htotal
  obtain ⟨-, -, rfl⟩ := Asset.convert_eq_ok.mp htotal
  have hprod : amount * interestUnit digits ≤ amount * quote :=
    mul_le_mul_of_nonneg_left hunit hamount
  have hlt : amount * quote < 2 ^ 63 * 2 ^ 63 :=
    mul_lt_mul'' hfits.2 hquote hamount (hpos.le.trans hunit)
  have hnonneg : 0 ≤ amount * quote := mul_nonneg hamount (hpos.le.trans hunit)
  have hwrap : uint128 (uint128 amount * quote) = amount * quote := by
    have hsmall : amount < 2 ^ 128 := hfits.2.trans (by decide)
    rw [uint128_of_lt hamount hsmall, uint128_of_lt hnonneg (hlt.trans (by decide))]
  change 0 ≤ uint128 (uint128 amount * quote) / interestUnit digits - amount
  rw [hwrap, sub_nonneg]
  exact (Int.le_ediv_iff_mul_le hpos).mpr hprod

/-- **`get_profit`** does not give a negative amount while the pool is not negative. -/
theorem AssetLockData.getProfit_nonneg {d : AssetLockData} {s : Books} {amount profit : ℤ}
    {period : ℕ} (hpool : 0 ≤ d.interestPool)
    (hreceive : d.profileReceivePercent ≤ hundredPercent) (hamount : 0 ≤ amount)
    (h : d.getProfit s amount period = some profit) : 0 ≤ profit := by
  unfold getProfit at h
  split at h
  · next a dyn _ _ =>
    cases hprofit : d.profitOf a.precision dyn.currentSupply amount period with
    | error e =>
      rw [hprofit] at h
      cases h
    | ok p =>
      rw [hprofit] at h
      cases h
      exact profitOf_nonneg hpool hreceive hamount hprofit
  · cases h

end FinChain.Ledger
