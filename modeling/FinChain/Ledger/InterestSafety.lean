import FinChain.Ledger.InterestPowers

/-!
# When the interest is computed without a wrap

For lock data that `set_lock_data` accepts, most of the numbers that `_get_interest` forms fit their
types. Five things can go wrong, in this order (`AssetLockData.SafeAt`): the longest period in seconds
does not fit in 32 bits; the nominal interest or the last square of its powers does not fit in 63 bits;
the nominal interest is below one, so that the gain is negative; nobody could earn as much as one unit
in the longest period, so that the need for the pool is zero; or the profile is scaled to more than 128
bits. A run in which none of them happens throws or computes the formula over the integers, and any
other run goes wrong (`safe_iff`).
-/

namespace FinChain.Ledger

open Exec Machine

namespace AssetLockData

variable (d : AssetLockData)

/-! ### The formula -/

/-- `nominal_interest_perday`. -/
def nominal : Interest := ⟨interestBaseSupply, d.nominalInterestPerday⟩

/-- `max_period / 2`. -/
def halfPeriod : ℤ := (d.maxPeriod : ℤ).tdiv 2

/-- `reward_rate`, over the integers. -/
def rewardRateOver (days : ℕ) : ℤ :=
  hundredPercent + ((((days - d.halfPeriod) * hundredPercent).tdiv d.halfPeriod) *
    d.rewardCoefficient).tdiv hundredPercent

/-- What one unit rate grows to in some days. -/
def grownOver (unit : ℤ) (days : ℕ) : ℤ := (fastPowOver unit d.nominal days).worth unit

/-- `pre_profile`, over the integers. -/
def preProfileOver (unit : ℤ) (days : ℕ) : ℤ :=
  (d.grownOver unit days - unit) * d.rewardRateOver days / hundredPercent

/-- `max_need_pool`, over the integers. -/
def maxNeedPoolOver (unit currentSupply : ℤ) : ℤ :=
  (d.grownOver unit d.maxPeriod * (currentSupply - d.interestPool) / unit -
    (currentSupply - d.interestPool)) * (d.rewardCoefficient + hundredPercent) / hundredPercent

/-- The part of the pool for some days before it is scaled. -/
def shareOver (unit currentSupply : ℤ) (days : ℕ) : ℤ :=
  d.preProfileOver unit days * d.interestPool / d.maxNeedPoolOver unit currentSupply

/-- `actual_profile` before it is compared with the pool, over the integers. -/
def profileOver (unit currentSupply : ℤ) (days : ℕ) : ℤ :=
  d.shareOver unit currentSupply days * d.profileScalePercent / hundredPercent

/-- `actual_profile`, over the integers. -/
def actualProfileOver (unit currentSupply : ℤ) (days : ℕ) : ℤ :=
  if d.interestPool ≤ d.profileOver unit currentSupply days then
    d.interestPool * d.profileReceivePercent / hundredPercent
  else d.profileOver unit currentSupply days

/-! ### Lock data -/

/-- What `set_lock_data_operation::validate` and the types of the fields make sure of. -/
structure Accepted : Prop where
  nominal_pos : 0 < d.nominalInterestPerday
  nominal_lt : d.nominalInterestPerday < 2 ^ 64
  reward_le : d.rewardCoefficient ≤ hundredPercent
  maxPeriod_ge : 2 ≤ d.maxPeriod
  maxPeriod_lt : d.maxPeriod < 2 ^ 32
  scale_pos : 0 < d.profileScalePercent
  scale_lt : d.profileScalePercent < 2 ^ 32
  receive_le : d.profileReceivePercent ≤ hundredPercent
  pool_nonneg : 0 ≤ d.interestPool

/-- **The condition**, for a lock over a period. -/
def SafeAt (digits : ℕ) (currentSupply : ℤ) (lockPeriod : ℕ) : Prop :=
  d.maxPeriod * interestDay < 2 ^ 32 ∧
    (lockPeriod ≤ d.maxPeriod * interestDay →
      d.nominalInterestPerday < 2 ^ 63 ∧
      (squaredOver (interestUnit digits) (rounds d.maxPeriod) d.nominal).quote < 2 ^ 63 ∧
      -- a rate above the largest share supply throws
      (d.grownOver (interestUnit digits) (lockPeriod / interestDay) ≤ maxShareSupply →
        interestBaseSupply ≤ d.nominalInterestPerday ∧
        interestUnit digits ≤ (d.grownOver (interestUnit digits) d.maxPeriod - interestUnit digits) *
          (currentSupply - d.interestPool) ∧
        d.shareOver (interestUnit digits) currentSupply (lockPeriod / interestDay) *
          d.profileScalePercent < 2 ^ 128))

end AssetLockData

/-! ### The parts -/

theorem int64_contains {x : ℤ} (h : 0 ≤ x) (hlt : x < 2 ^ 63) : IntType.int64.Contains x :=
  ⟨le_trans (by decide) h, hlt⟩

theorem product_contains {amount : ℤ} {i : Interest} (h : 0 ≤ amount) (hlt : amount < 2 ^ 63)
    (hi : i.Fits) : IntType.uint128.Contains (amount * i.quote) := by
  refine ⟨mul_nonneg h hi.quote_nonneg, ?_⟩
  calc amount * i.quote ≤ 2 ^ 63 * i.quote := mul_le_mul_of_nonneg_right hlt.le hi.quote_nonneg
    _ ≤ 2 ^ 63 * 2 ^ 63 := mul_le_mul_of_nonneg_left hi.quote_lt.le (by decide)
    _ < 2 ^ 128 := by decide

/-- An amount at an interest does not trap. -/
theorem mulInterestIn_trapping {amount : ℤ} {i : Interest} (h : 0 ≤ amount) (hlt : amount < 2 ^ 63)
    (hi : i.Fits) : mulInterestIn .trapping amount i =
      if amount * i.quote / i.base ≤ maxShareSupply then .ok (amount * i.quote / i.base)
      else .error (.thrown .assertion) := by
  have hproduct := product_contains h hlt hi
  have hquotient : 0 ≤ amount * i.quote / i.base := Int.ediv_nonneg hproduct.1 hi.base_pos.le
  unfold mulInterestIn
  rw [throwUnless_bind hi.base_pos, narrow_bind (uint128_contains h (hlt.trans (by decide))),
    narrow_bind (uint128_contains hi.quote_nonneg (hi.quote_lt.trans (by decide))),
    narrow_bind hproduct, quotient_bind hi.base_pos.ne']
  by_cases hmax : amount * i.quote / i.base ≤ maxShareSupply
  · rw [if_pos hmax, throwUnless_bind hmax]
    exact narrow_of_contains (int64_contains hquotient (hmax.trans_lt (by decide)))
  · rw [if_neg hmax, throwUnless_bind_of_not hmax]

namespace AssetLockData

variable {d : AssetLockData}

/-- The percentage for some days, of the longest period at most. -/
theorem percent_mem {half days : ℤ} (hhalf : 0 < half) (hdays : 0 ≤ days)
    (hle : days ≤ 2 * half + 1) :
    -hundredPercent ≤ ((days - half) * hundredPercent).tdiv half ∧
      ((days - half) * hundredPercent).tdiv half ≤ 2 * hundredPercent := by
  have hlow : (-hundredPercent : ℤ) * half ≤ (days - half) * hundredPercent := by
    unfold hundredPercent
    omega
  have hhigh : (days - half) * hundredPercent ≤ (2 * hundredPercent : ℤ) * half := by
    unfold hundredPercent
    omega
  constructor
  · calc (-hundredPercent : ℤ) = ((-hundredPercent : ℤ) * half).tdiv half :=
        (Int.mul_tdiv_cancel _ hhalf.ne').symm
      _ ≤ _ := Int.tdiv_le_tdiv hhalf hlow
  · calc _ ≤ ((2 * hundredPercent : ℤ) * half).tdiv half := Int.tdiv_le_tdiv hhalf hhigh
      _ = 2 * hundredPercent := Int.mul_tdiv_cancel _ hhalf.ne'

theorem halfPeriod_mem (hge : 2 ≤ d.maxPeriod) :
    1 ≤ d.halfPeriod ∧ 2 * d.halfPeriod ≤ d.maxPeriod ∧ (d.maxPeriod : ℤ) ≤ 2 * d.halfPeriod + 1 := by
  unfold halfPeriod
  rw [Int.tdiv_eq_ediv_of_nonneg (Int.natCast_nonneg _)]
  omega

/-- **`reward_rate`** does not trap, and is between nothing and three times the interest. -/
theorem rewardRateIn_trapping (hd : d.Accepted) (hmax : d.maxPeriod * interestDay < 2 ^ 32) {days : ℕ}
    (hdays : days ≤ d.maxPeriod) :
    d.rewardRateIn .trapping days = .ok (d.rewardRateOver days) ∧ 0 ≤ d.rewardRateOver days ∧
      d.rewardRateOver days ≤ 3 * hundredPercent := by
  have hperiod : d.maxPeriod ≤ 49710 := by
    unfold interestDay at hmax
    omega
  obtain ⟨hone, hhalf, hhalf'⟩ := halfPeriod_mem hd.maxPeriod_ge
  have hreward : (d.rewardCoefficient : ℤ) ≤ 10000 := by exact_mod_cast hd.reward_le
  have hreward₀ : (0 : ℤ) ≤ d.rewardCoefficient := Int.natCast_nonneg _
  obtain ⟨hlow, hhigh⟩ := percent_mem (show (0 : ℤ) < d.halfPeriod by omega)
    (Int.natCast_nonneg days) (by omega)
  set percent := ((days - d.halfPeriod) * (hundredPercent : ℤ)).tdiv d.halfPeriod with hpercent
  have hhundred : (hundredPercent : ℤ) = 10000 := rfl
  rw [hhundred] at hlow hhigh
  have hproductLow : -10000 * 10000 ≤ percent * d.rewardCoefficient := by nlinarith
  have hproductHigh : percent * d.rewardCoefficient ≤ 2 * 10000 * 10000 := by nlinarith
  have hpartLow : -10000 ≤ (percent * d.rewardCoefficient).tdiv 10000 := by
    calc (-10000 : ℤ) = (-10000 * 10000 : ℤ).tdiv 10000 := by decide
      _ ≤ _ := Int.tdiv_le_tdiv (by decide) hproductLow
  have hpartHigh : (percent * d.rewardCoefficient).tdiv 10000 ≤ 20000 := by
    calc (percent * d.rewardCoefficient).tdiv 10000 ≤ (2 * 10000 * 10000 : ℤ).tdiv 10000 :=
        Int.tdiv_le_tdiv (by decide) hproductHigh
      _ = 20000 := by decide
  have hrate : d.rewardRateOver days = 10000 + (percent * d.rewardCoefficient).tdiv 10000 := rfl
  refine ⟨?_, by rw [hrate]; omega, by rw [hrate, hhundred]; omega⟩
  have hmaxPeriod : IntType.int32.Contains d.maxPeriod := by
    change (-2 ^ 31 : ℤ) ≤ _ ∧ _ < (2 ^ 31 : ℤ)
    omega
  have hdiff : IntType.int32.Contains (days - d.halfPeriod) := by
    change (-2 ^ 31 : ℤ) ≤ _ ∧ _ < (2 ^ 31 : ℤ)
    omega
  have hscaled : IntType.int32.Contains ((days - d.halfPeriod) * hundredPercent) := by
    change (-2 ^ 31 : ℤ) ≤ _ ∧ _ < (2 ^ 31 : ℤ)
    rw [hhundred]
    omega
  have hpercentFits : IntType.int32.Contains percent := by
    change (-2 ^ 31 : ℤ) ≤ _ ∧ _ < (2 ^ 31 : ℤ)
    omega
  have hproduct : IntType.int64.Contains (percent * d.rewardCoefficient) := by
    change (-2 ^ 63 : ℤ) ≤ _ ∧ _ < (2 ^ 63 : ℤ)
    omega
  have hresult : IntType.int64.Contains (d.rewardRateOver days) := by
    change (-2 ^ 63 : ℤ) ≤ _ ∧ _ < (2 ^ 63 : ℤ)
    rw [hrate]
    omega
  unfold rewardRateIn
  rw [narrow_bind hmaxPeriod]
  change (Arithmetic.trapping.narrow .int32 (days - d.halfPeriod) >>= _) = _
  rw [narrow_bind hdiff, narrow_bind hscaled]
  change (tquotient _ d.halfPeriod >>= _) = _
  rw [tquotient_bind (by omega), ← hpercent, narrow_bind hpercentFits, narrow_bind hproduct]
  exact narrow_of_contains hresult

/-- `pre_profile` traps if and only if there is no gain. -/
theorem preProfileIn_trapping {unit rate : ℤ} {grown : Interest} (hunit : 0 < unit)
    (hunit' : unit ≤ 10 ^ 16) (hgrown : grown.Fits) (hmax : grown.worth unit ≤ maxShareSupply)
    (hrate : 0 ≤ rate) (hrate' : rate ≤ 3 * hundredPercent) :
    preProfileIn .trapping unit rate grown =
      if unit ≤ grown.worth unit then .ok ((grown.worth unit - unit) * rate / hundredPercent)
      else .error .trapped := by
  have hworth := hgrown.worth_nonneg hunit
  have hgain : IntType.int64.Contains (grown.worth unit - unit) := by
    change (-2 ^ 63 : ℤ) ≤ _ ∧ _ < (2 ^ 63 : ℤ)
    unfold maxShareSupply at hmax
    omega
  have hrateFits : IntType.uint128.Contains rate := by
    refine uint128_contains hrate (hrate'.trans_lt (by decide))
  unfold preProfileIn
  rw [mulInterestIn_trapping hunit.le (hunit'.trans_lt (by decide)) hgrown]
  change ((if grown.worth unit ≤ maxShareSupply then _ else _) >>= _) = _
  rw [if_pos hmax, ok_bind]
  change (Arithmetic.trapping.narrow .int64 (grown.worth unit - unit) >>= _) = _
  rw [narrow_bind hgain]
  by_cases hle : unit ≤ grown.worth unit
  · have hgain' : IntType.uint128.Contains (grown.worth unit - unit) :=
      uint128_contains (sub_nonneg.mpr hle) (hgain.2.trans (by decide))
    have hproduct : IntType.uint128.Contains ((grown.worth unit - unit) * rate) := by
      refine ⟨mul_nonneg (sub_nonneg.mpr hle) hrate, ?_⟩
      calc (grown.worth unit - unit) * rate ≤ 2 ^ 63 * rate :=
            mul_le_mul_of_nonneg_right hgain.2.le hrate
        _ ≤ 2 ^ 63 * (3 * hundredPercent) := mul_le_mul_of_nonneg_left hrate' (by decide)
        _ < 2 ^ 128 := by decide
    rw [if_pos hle, narrow_bind hgain', narrow_bind hrateFits, narrow_bind hproduct]
    rfl
  · rw [if_neg hle]
    refine narrow_trapping_bind_of_not (fun h => hle ?_) _
    exact sub_nonneg.mp h.1

/-- `max_need_pool` does not trap when the interest of the longest period is at least one. -/
theorem maxNeedPoolIn_trapping (hd : d.Accepted) {unit toDeposit : ℤ} {top : Interest}
    (hunit : 10 ^ 4 ≤ unit) (htop : top.Fits) (hbase : top.base = unit) (hle : unit ≤ top.quote)
    (hdeposit : 0 ≤ toDeposit) (hdeposit' : toDeposit < 2 ^ 63) :
    d.maxNeedPoolIn .trapping top toDeposit =
      .ok ((top.quote * toDeposit / unit - toDeposit) * (d.rewardCoefficient + hundredPercent) /
        hundredPercent) := by
  have hunit₀ : 0 < unit := lt_of_lt_of_le (by decide) hunit
  have hhundred : (hundredPercent : ℤ) = 10000 := rfl
  have hreward : (d.rewardCoefficient : ℤ) ≤ 10000 := by exact_mod_cast hd.reward_le
  have hreward₀ : (0 : ℤ) ≤ d.rewardCoefficient := Int.natCast_nonneg _
  have hproduct₀ : 0 ≤ top.quote * toDeposit := mul_nonneg htop.quote_nonneg hdeposit
  have hproductLt : top.quote * toDeposit < 2 ^ 126 := by
    calc top.quote * toDeposit ≤ 2 ^ 63 * toDeposit :=
          mul_le_mul_of_nonneg_right htop.quote_lt.le hdeposit
      _ < 2 ^ 63 * 2 ^ 63 := mul_lt_mul_of_pos_left hdeposit' (by decide)
      _ = 2 ^ 126 := by decide
  have hproduct : IntType.uint128.Contains (top.quote * toDeposit) :=
    ⟨hproduct₀, hproductLt.trans (by decide)⟩
  have hgrow : toDeposit ≤ top.quote * toDeposit / unit := by
    refine (Int.le_ediv_iff_mul_le hunit₀).mpr ?_
    rw [mul_comm toDeposit unit]
    exact mul_le_mul_of_nonneg_right hle hdeposit
  have hquotientLt : top.quote * toDeposit / unit < 2 ^ 113 := by
    refine (Int.ediv_lt_iff_lt_mul hunit₀).mpr (hproductLt.trans_le ?_)
    calc (2 ^ 126 : ℤ) ≤ 2 ^ 113 * 10 ^ 4 := by decide
      _ ≤ 2 ^ 113 * unit := mul_le_mul_of_nonneg_left hunit (by decide)
  have hdiff : IntType.uint128.Contains (top.quote * toDeposit / unit - toDeposit) := by
    change (0 : ℤ) ≤ _ ∧ _ < (2 ^ 128 : ℤ)
    omega
  have hfactor : IntType.uint32.Contains (d.rewardCoefficient + hundredPercent) := by
    change (0 : ℤ) ≤ _ ∧ _ < (2 ^ 32 : ℤ)
    omega
  have hscaled : IntType.uint128.Contains
      ((top.quote * toDeposit / unit - toDeposit) * (d.rewardCoefficient + hundredPercent)) := by
    refine ⟨mul_nonneg hdiff.1 hfactor.1, ?_⟩
    calc (top.quote * toDeposit / unit - toDeposit) * (d.rewardCoefficient + hundredPercent)
        ≤ (top.quote * toDeposit / unit - toDeposit) * 20000 :=
          mul_le_mul_of_nonneg_left (by omega) hdiff.1
      _ ≤ 2 ^ 113 * 20000 := mul_le_mul_of_nonneg_right (by omega) (by decide)
      _ < 2 ^ 128 := by decide
  unfold maxNeedPoolIn
  rw [narrow_bind (uint128_contains htop.quote_nonneg (htop.quote_lt.trans (by decide))),
    narrow_bind (uint128_contains htop.base_pos.le (htop.base_lt.trans (by decide))),
    narrow_bind (uint128_contains hdeposit (hdeposit'.trans (by decide))), hbase,
    throwUnless_bind hle, narrow_bind hproduct, quotient_bind hunit₀.ne', narrow_bind hdiff,
    narrow_bind hfactor, narrow_bind hscaled]
  rfl

/-- The need for the pool is zero if and only if nobody could earn as much as one unit. -/
theorem need_eq_zero_iff {unit toDeposit quote reward : ℤ} (hunit : 0 < unit) (hle : unit ≤ quote)
    (hdeposit : 0 ≤ toDeposit) (hreward : 0 ≤ reward) :
    (quote * toDeposit / unit - toDeposit) * (reward + hundredPercent) / hundredPercent = 0 ↔
      ¬ unit ≤ (quote - unit) * toDeposit := by
  have hgain : quote * toDeposit / unit - toDeposit = (quote - unit) * toDeposit / unit := by
    have hsplit : quote * toDeposit = (quote - unit) * toDeposit + toDeposit * unit := by ring
    rw [hsplit, Int.add_mul_ediv_right _ _ hunit.ne', add_sub_cancel_right]
  have hnonneg : 0 ≤ (quote - unit) * toDeposit := mul_nonneg (sub_nonneg.mpr hle) hdeposit
  have hgain₀ : 0 ≤ (quote - unit) * toDeposit / unit := Int.ediv_nonneg hnonneg hunit.le
  have hhundred : (hundredPercent : ℤ) = 10000 := rfl
  rw [hgain, hhundred]
  have hone : unit ≤ (quote - unit) * toDeposit ↔ 1 ≤ (quote - unit) * toDeposit / unit := by
    rw [Int.le_ediv_iff_mul_le hunit, one_mul]
  rw [hone]
  constructor
  · intro hzero hge
    have hlarge : 10000 ≤ (quote - unit) * toDeposit / unit * (reward + 10000) := by nlinarith
    have hdiv : 1 ≤ (quote - unit) * toDeposit / unit * (reward + 10000) / 10000 :=
      (Int.le_ediv_iff_mul_le (by decide)).mpr (by omega)
    omega
  · intro hless
    have hzero : (quote - unit) * toDeposit / unit = 0 := by omega
    rw [hzero, zero_mul, Int.zero_ediv]

/-- The profile traps if and only if the need is zero, or the scaled share does not fit. -/
theorem profileIn_trapping {pre need : ℤ} (hd : d.Accepted) (hpool : d.interestPool < 2 ^ 63)
    (hpre : 0 ≤ pre) (hpre' : pre < 2 ^ 64) (hneed : 0 ≤ need) :
    d.profileIn .trapping pre need =
      if need ≠ 0 ∧ pre * d.interestPool / need * d.profileScalePercent < 2 ^ 128 then
        .ok (pre * d.interestPool / need * d.profileScalePercent / hundredPercent)
      else .error .trapped := by
  have hproduct : IntType.uint128.Contains (pre * d.interestPool) := by
    refine ⟨mul_nonneg hpre hd.pool_nonneg, ?_⟩
    calc pre * d.interestPool ≤ 2 ^ 64 * d.interestPool :=
          mul_le_mul_of_nonneg_right hpre'.le hd.pool_nonneg
      _ ≤ 2 ^ 64 * 2 ^ 63 := mul_le_mul_of_nonneg_left hpool.le (by decide)
      _ < 2 ^ 128 := by decide
  unfold profileIn
  rw [narrow_bind (uint128_contains hd.pool_nonneg (hpool.trans (by decide))), narrow_bind hproduct]
  by_cases hzero : need = 0
  · rw [if_neg fun h => h.1 hzero, quotient, if_pos hzero]
    rfl
  rw [quotient_bind hzero]
  have hshare : 0 ≤ pre * d.interestPool / need * d.profileScalePercent :=
    mul_nonneg (Int.ediv_nonneg hproduct.1 hneed) (Int.natCast_nonneg _)
  by_cases hfits : pre * d.interestPool / need * d.profileScalePercent < 2 ^ 128
  · rw [if_pos ⟨hzero, hfits⟩, narrow_bind ⟨hshare, hfits⟩]
    rfl
  · rw [if_neg fun h => hfits h.2, narrow_trapping_bind_of_not fun h => hfits h.2]

theorem actualProfileIn_trapping {profile : ℤ} (hd : d.Accepted) (hpool : d.interestPool < 2 ^ 63)
    (hprofile : 0 ≤ profile) :
    ∃ actual, d.actualProfileIn .trapping profile = .ok actual ∧ 0 ≤ actual ∧ actual < 2 ^ 63 := by
  unfold actualProfileIn
  split
  · have hreceive : (d.profileReceivePercent : ℤ) ≤ 10000 := by exact_mod_cast hd.receive_le
    have hproduct₀ : 0 ≤ d.interestPool * d.profileReceivePercent :=
      mul_nonneg hd.pool_nonneg (Int.natCast_nonneg _)
    have hproduct' : d.interestPool * d.profileReceivePercent ≤ d.interestPool * 10000 :=
      mul_le_mul_of_nonneg_left hreceive hd.pool_nonneg
    have hproduct : IntType.uint128.Contains (d.interestPool * d.profileReceivePercent) := by
      change (0 : ℤ) ≤ _ ∧ _ < (2 ^ 128 : ℤ)
      omega
    have hhundred : (hundredPercent : ℤ) = 10000 := rfl
    have hpart : 0 ≤ d.interestPool * d.profileReceivePercent / hundredPercent ∧
        d.interestPool * d.profileReceivePercent / hundredPercent < 2 ^ 63 := by
      rw [hhundred]
      omega
    have hpartFits : IntType.uint64.Contains
        (d.interestPool * d.profileReceivePercent / hundredPercent) :=
      ⟨hpart.1, hpart.2.trans (by decide)⟩
    refine ⟨_, ?_, hpart⟩
    rw [narrow_bind (uint128_contains hd.pool_nonneg (hpool.trans (by decide))), narrow_bind hproduct]
    exact narrow_of_contains hpartFits
  · next hlt => exact ⟨profile, rfl, hprofile, by omega⟩

/-- A rate above the largest share supply throws. -/
theorem preProfileIn_thrown {unit rate : ℤ} {grown : Interest} (hunit : 0 < unit)
    (hunit' : unit ≤ 10 ^ 16) (hgrown : grown.Fits) (hmax : ¬ grown.worth unit ≤ maxShareSupply) :
    preProfileIn .trapping unit rate grown = .error (.thrown .assertion) := by
  unfold preProfileIn
  rw [mulInterestIn_trapping hunit.le (hunit'.trans_lt (by decide)) hgrown]
  change ((if grown.worth unit ≤ maxShareSupply then _ else _) >>= _) = _
  rw [if_neg hmax, error_bind]

end AssetLockData

/-! ### All of it -/

theorem interestUnit_eq (digits : ℕ) : interestUnit digits = 10 ^ 4 * 10 ^ digits := rfl

theorem interestUnit_mem {digits : ℕ} (h : digits ≤ 12) :
    10 ^ 4 ≤ interestUnit digits ∧ interestUnit digits ≤ 10 ^ 16 := by
  rw [interestUnit_eq]
  have hone : (1 : ℤ) ≤ 10 ^ digits := one_le_pow₀ (by decide)
  have hlarge : (10 : ℤ) ^ digits ≤ 10 ^ 12 := pow_le_pow_right₀ (by decide) h
  constructor
  · linarith
  · linarith

namespace AssetLockData

variable {d : AssetLockData} {digits lockPeriod : ℕ} {currentSupply : ℤ}

/-- The rest of `_get_interest` after the powers. -/
def interestOf (A : Arithmetic) (d : AssetLockData) (unit toDeposit rate : ℤ) (top grown : Interest) :
    Computed Interest := do
  let pre ← preProfileIn A unit rate grown
  let need ← d.maxNeedPoolIn A top toDeposit
  let profile ← d.profileIn A pre need
  let actual ← d.actualProfileIn A profile
  let actual ← A.narrow .uint64 actual
  let actual ← A.narrow .int64 actual
  throwUnless .assertion (FitsShare (actual + unit))
  return ⟨unit, actual + unit⟩

/-- The run up to the powers, for a period that is not too long. -/
theorem getInterestIn_eq (hd : d.Accepted) (hdigits : digits ≤ 12)
    (hpool : d.interestPool ≤ currentSupply) (hsupply : currentSupply < 2 ^ 63)
    (hperiod : lockPeriod < 2 ^ 32) (hmax : d.maxPeriod * interestDay < 2 ^ 32)
    (hlong : lockPeriod ≤ d.maxPeriod * interestDay) :
    d.getInterestIn .trapping digits currentSupply lockPeriod = (do
      let nominal ← Arithmetic.trapping.narrow .int64 d.nominalInterestPerday
      let top ← fastPowOfInterestIn .trapping (interestUnit digits) ⟨interestBaseSupply, nominal⟩
        d.maxPeriod
      let grown ← fastPowOfInterestIn .trapping (interestUnit digits) ⟨interestBaseSupply, nominal⟩
        (lockPeriod / interestDay)
      interestOf .trapping d (interestUnit digits) (currentSupply - d.interestPool)
        (d.rewardRateOver (lockPeriod / interestDay)) top grown) := by
  obtain ⟨hunit, hunit'⟩ := interestUnit_mem hdigits
  have hpool₀ := hd.pool_nonneg
  have hdays : lockPeriod / interestDay ≤ d.maxPeriod :=
    Nat.div_le_of_le_mul (by rw [mul_comm]; exact hlong)
  have hlongest : IntType.uint32.Contains (d.maxPeriod * interestDay) := by
    refine ⟨Int.natCast_nonneg _, ?_⟩
    change ((d.maxPeriod * interestDay : ℕ) : ℤ) < (2 ^ 32 : ℤ)
    exact_mod_cast hmax
  have hlockDays : IntType.int32.Contains ((lockPeriod / interestDay : ℕ) : ℤ) := by
    change (-2 ^ 31 : ℤ) ≤ _ ∧ _ < (2 ^ 31 : ℤ)
    unfold interestDay
    omega
  have hdeposit : IntType.int64.Contains (currentSupply - d.interestPool) :=
    int64_contains (by omega) (by omega)
  have hunit64 : IntType.uint64.Contains (interestUnit digits) := by
    change (0 : ℤ) ≤ _ ∧ _ < (2 ^ 64 : ℤ)
    omega
  obtain ⟨hrate, -⟩ := rewardRateIn_trapping hd hmax hdays
  unfold getInterestIn
  rw [narrow_bind hlongest, throwUnless_bind (by exact_mod_cast hlong), narrow_bind hunit64,
    narrow_bind hlockDays, narrow_bind hdeposit,
    narrow_bind (int64_contains (by omega) (by omega)), hrate]
  rfl

/-- What an interest without a trap looks like. -/
theorem interestOf_growing (hd : d.Accepted) {unit toDeposit rate : ℤ} {top grown : Interest}
    (hunit : 10 ^ 4 ≤ unit) (hunit' : unit ≤ 10 ^ 16) (hpool : d.interestPool < 2 ^ 63)
    (hdeposit : 0 ≤ toDeposit) (hdeposit' : toDeposit < 2 ^ 63) (hrate : 0 ≤ rate)
    (hrate' : rate ≤ 3 * hundredPercent) (htop : top.Fits) (hbase : top.base = unit)
    (hle : unit ≤ top.quote) (hgrown : grown.Fits) (hgrownLe : unit ≤ grown.worth unit)
    (hmax : grown.worth unit ≤ maxShareSupply) :
    interestOf .trapping d unit toDeposit rate top grown ≠ .error .trapped ↔
      unit ≤ (top.quote - unit) * toDeposit ∧
        (grown.worth unit - unit) * rate / hundredPercent * d.interestPool /
          ((top.quote * toDeposit / unit - toDeposit) * (d.rewardCoefficient + hundredPercent) /
            hundredPercent) * d.profileScalePercent < 2 ^ 128 := by
  have hunit₀ : 0 < unit := lt_of_lt_of_le (by decide) hunit
  have hhundred : (hundredPercent : ℤ) = 10000 := rfl
  have hpre := preProfileIn_trapping hunit₀ hunit' hgrown hmax hrate hrate'
  rw [if_pos hgrownLe] at hpre
  have hneed := maxNeedPoolIn_trapping hd hunit htop hbase hle hdeposit hdeposit'
  have hneedZero := need_eq_zero_iff hunit₀ hle hdeposit
    (Int.natCast_nonneg d.rewardCoefficient)
  set pre := (grown.worth unit - unit) * rate / hundredPercent with hpreEq
  set need := (top.quote * toDeposit / unit - toDeposit) * (d.rewardCoefficient + hundredPercent) /
    hundredPercent with hneedEq
  have hpre₀ : 0 ≤ pre := by
    refine Int.ediv_nonneg (mul_nonneg (sub_nonneg.mpr hgrownLe) hrate) (by decide)
  have hpreLt : pre < 2 ^ 64 := by
    refine (Int.ediv_lt_iff_lt_mul (by decide)).mpr ?_
    calc (grown.worth unit - unit) * rate ≤ 10 ^ 18 * rate := by
          refine mul_le_mul_of_nonneg_right ?_ hrate
          unfold maxShareSupply at hmax
          omega
      _ ≤ 10 ^ 18 * (3 * hundredPercent) := mul_le_mul_of_nonneg_left hrate' (by decide)
      _ < 2 ^ 64 * hundredPercent := by decide
  have hgain₀ : 0 ≤ top.quote * toDeposit / unit - toDeposit := by
    refine sub_nonneg.mpr ((Int.le_ediv_iff_mul_le hunit₀).mpr ?_)
    rw [mul_comm toDeposit unit]
    exact mul_le_mul_of_nonneg_right hle hdeposit
  have hneed₀ : 0 ≤ need := by
    refine Int.ediv_nonneg (mul_nonneg hgain₀ ?_) (by decide)
    exact add_nonneg (Int.natCast_nonneg _) (by decide)
  have hprofile := profileIn_trapping hd hpool hpre₀ hpreLt hneed₀
  unfold interestOf
  rw [hpre, ok_bind, hneed, ok_bind, hprofile]
  by_cases hcondition : need ≠ 0 ∧ pre * d.interestPool / need * d.profileScalePercent < 2 ^ 128
  · rw [if_pos hcondition, ok_bind]
    have hprofile₀ : 0 ≤ pre * d.interestPool / need * d.profileScalePercent / hundredPercent :=
      Int.ediv_nonneg (mul_nonneg (Int.ediv_nonneg (mul_nonneg hpre₀ hd.pool_nonneg) hneed₀)
        (Int.natCast_nonneg _)) (by decide)
    obtain ⟨actual, hactual, hactual₀, hactualLt⟩ := actualProfileIn_trapping hd hpool hprofile₀
    rw [hactual, ok_bind, narrow_bind ⟨hactual₀, hactualLt.trans (by decide)⟩,
      narrow_bind (int64_contains hactual₀ hactualLt)]
    refine iff_of_true ?_ ⟨not_not.mp (mt hneedZero.mpr hcondition.1), hcondition.2⟩
    unfold throwUnless
    split
    · exact fun h => by cases h
    · exact fun h => by cases h
  · rw [if_neg hcondition, error_bind]
    refine iff_of_false (fun h => h rfl) fun h => hcondition ⟨?_, h.2⟩
    exact fun hzero => hneedZero.mp hzero h.1

theorem interestBaseSupply_pos : 0 < interestBaseSupply := by decide

theorem interestBaseSupply_lt : interestBaseSupply < 2 ^ 63 := by decide

theorem nominal_fits (hlt : d.nominalInterestPerday < 2 ^ 63) : d.nominal.Fits := by
  refine ⟨interestBaseSupply_pos, interestBaseSupply_lt, Int.natCast_nonneg _, ?_⟩
  change (d.nominalInterestPerday : ℤ) < 2 ^ 63
  exact_mod_cast hlt

/-- **The interest** is computed without a trap if and only if the condition holds. -/
theorem getInterestIn_safe_iff (hd : d.Accepted) (hdigits : digits ≤ 12)
    (hpool : d.interestPool ≤ currentSupply) (hsupply : currentSupply < 2 ^ 63)
    (hday : interestDay ≤ lockPeriod) (hperiod : lockPeriod < 2 ^ 32) :
    d.getInterestIn .trapping digits currentSupply lockPeriod ≠ .error .trapped ↔
      d.SafeAt digits currentSupply lockPeriod := by
  obtain ⟨hunit, hunit'⟩ := interestUnit_mem hdigits
  have hunit₀ : 0 < interestUnit digits := lt_of_lt_of_le (by decide) hunit
  have hpool₀ := hd.pool_nonneg
  by_cases hmax : d.maxPeriod * interestDay < 2 ^ 32
  swap
  · refine iff_of_false (fun h => h ?_) fun h => hmax h.1
    unfold getInterestIn
    refine narrow_trapping_bind_of_not (fun h => hmax ?_) _
    have hlt : ((d.maxPeriod * interestDay : ℕ) : ℤ) < (2 ^ 32 : ℤ) := h.2
    exact_mod_cast hlt
  by_cases hlong : lockPeriod ≤ d.maxPeriod * interestDay
  swap
  · refine iff_of_true ?_ ⟨hmax, fun h => absurd h hlong⟩
    have hlongest : IntType.uint32.Contains (d.maxPeriod * interestDay : ℕ) := by
      refine ⟨Int.natCast_nonneg _, ?_⟩
      change ((d.maxPeriod * interestDay : ℕ) : ℤ) < (2 ^ 32 : ℤ)
      exact_mod_cast hmax
    have hthrown : d.getInterestIn .trapping digits currentSupply lockPeriod =
        .error (.thrown .assertion) := by
      unfold getInterestIn
      refine (narrow_bind hlongest _).trans (throwUnless_bind_of_not (fun h => hlong ?_) _)
      exact_mod_cast h
    rw [hthrown]
    exact fun h => by cases h
  have hdays : lockPeriod / interestDay ≤ d.maxPeriod :=
    Nat.div_le_of_le_mul (by rw [mul_comm]; exact hlong)
  have hdaysPos : 0 < lockPeriod / interestDay := Nat.div_pos hday (by decide)
  have hdaysLt : lockPeriod / interestDay < 2 ^ 32 := (Nat.div_le_self _ _).trans_lt hperiod
  obtain ⟨-, hrate, hrate'⟩ := rewardRateIn_trapping hd hmax hdays
  rw [getInterestIn_eq hd hdigits hpool hsupply hperiod hmax hlong]
  unfold SafeAt
  rw [and_iff_right hmax, imp_iff_right hlong]
  by_cases hnominal : d.nominalInterestPerday < 2 ^ 63
  swap
  · refine iff_of_false (fun h => h ?_) fun h => hnominal h.1
    refine narrow_trapping_bind_of_not (fun h => hnominal ?_) _
    have hlt : (d.nominalInterestPerday : ℤ) < (2 ^ 63 : ℤ) := h.2
    exact_mod_cast hlt
  have hfits := nominal_fits hnominal
  rw [narrow_bind (int64_contains (Int.natCast_nonneg _) (by exact_mod_cast hnominal)),
    and_iff_right hnominal]
  change (fastPowOfInterestIn .trapping _ d.nominal _ >>= fun top =>
    fastPowOfInterestIn .trapping _ d.nominal _ >>= fun grown => _) ≠ _ ↔ _
  have hbaseDays : (fastPowOver (interestUnit digits) d.nominal (lockPeriod / interestDay)).base =
      interestUnit digits := base_fastPowOver hdaysLt hdaysPos.ne'
  have hbaseMax : (fastPowOver (interestUnit digits) d.nominal d.maxPeriod).base =
      interestUnit digits := base_fastPowOver hd.maxPeriod_lt (by have := hd.maxPeriod_ge; omega)
  rcases lt_or_ge (d.nominalInterestPerday : ℤ) interestBaseSupply with hlow | hhigh
  · -- a rate below one
    have hshrinking : d.nominal.Shrinking := hlow
    obtain ⟨htop, -, -⟩ := fastPowOfInterestIn_shrinking hunit₀ hunit' hd.maxPeriod_lt hfits hshrinking
    obtain ⟨hgrown, hgrownFits, hgrownLt⟩ :=
      fastPowOfInterestIn_shrinking hunit₀ hunit' hdaysLt hfits hshrinking
    rw [htop, ok_bind, hgrown, ok_bind,
      and_iff_right (squaredOver_shrinking hunit₀ hunit' hfits hshrinking _)]
    unfold interestOf
    by_cases hshare : d.grownOver (interestUnit digits) (lockPeriod / interestDay) ≤ maxShareSupply
    · rw [preProfileIn_trapping hunit₀ hunit' hgrownFits hshare hrate hrate',
        if_neg (not_le.mpr (hgrownLt hdaysPos))]
      exact iff_of_false (fun h => h rfl) fun h => absurd (h hshare).1 (not_le.mpr hlow)
    · rw [preProfileIn_thrown hunit₀ hunit' hgrownFits hshare]
      exact iff_of_true (fun h => by cases h) fun h => absurd h hshare
  · have hgrowing : d.nominal.Growing := ⟨interestBaseSupply_pos, hhigh⟩
    rw [fastPowOfInterestIn_trapping hunit₀ hunit' hd.maxPeriod_lt hgrowing hfits]
    by_cases hsquare :
      (squaredOver (interestUnit digits) (rounds d.maxPeriod) d.nominal).quote < 2 ^ 63
    swap
    · rw [if_neg hsquare]
      exact iff_of_false (fun h => h rfl) fun h => hsquare h.1
    have hrounds : rounds (lockPeriod / interestDay) ≤ rounds d.maxPeriod :=
      rounds_mono hdays
    have hsquareDays := squaredOver_lt hunit₀ hgrowing hfits hrounds hsquare
    rw [if_pos hsquare, ok_bind, fastPowOfInterestIn_trapping hunit₀ hunit' hdaysLt hgrowing hfits,
      if_pos hsquareDays, ok_bind, and_iff_right hsquare]
    have htopFits := fits_fastPowOver hunit₀ hunit' hgrowing hfits hsquare
    have hgrownFits := fits_fastPowOver hunit₀ hunit' hgrowing hfits hsquareDays
    have htopWorth : d.grownOver (interestUnit digits) d.maxPeriod =
        (fastPowOver (interestUnit digits) d.nominal d.maxPeriod).quote := by
      unfold grownOver Interest.worth
      rw [hbaseMax, Int.mul_ediv_cancel_left _ hunit₀.ne']
    have htopLe : interestUnit digits ≤
        (fastPowOver (interestUnit digits) d.nominal d.maxPeriod).quote := by
      rw [← htopWorth]
      exact le_worth_fastPowOver hgrowing hunit₀ _
    by_cases hshare : d.grownOver (interestUnit digits) (lockPeriod / interestDay) ≤ maxShareSupply
    · rw [imp_iff_right hshare, and_iff_right hhigh, interestOf_growing hd hunit hunit' (by omega)
        (by omega) (by omega) hrate hrate' htopFits hbaseMax htopLe hgrownFits
        (le_worth_fastPowOver hgrowing hunit₀ _) hshare]
      unfold shareOver maxNeedPoolOver preProfileOver
      rw [htopWorth]
      rfl
    · unfold interestOf
      rw [preProfileIn_thrown hunit₀ hunit' hgrownFits hshare]
      exact iff_of_true (fun h => by cases h) fun h => absurd h hshare

/-- The interest is a price of at least one. -/
theorem getInterestIn_fits {i : Interest}
    (h : d.getInterestIn .trapping digits currentSupply lockPeriod = .ok i) :
    i.base = interestUnit digits ∧ i.Fits ∧ i.Growing := by
  unfold getInterestIn at h
  obtain ⟨_, -, h⟩ := except_bind_eq_ok.mp h
  obtain ⟨_, -, h⟩ := except_bind_eq_ok.mp h
  obtain ⟨unit, hunit, h⟩ := except_bind_eq_ok.mp h
  obtain ⟨_, -, h⟩ := except_bind_eq_ok.mp h
  obtain ⟨_, -, h⟩ := except_bind_eq_ok.mp h
  obtain ⟨unit', hunit', h⟩ := except_bind_eq_ok.mp h
  obtain ⟨_, -, h⟩ := except_bind_eq_ok.mp h
  obtain ⟨_, -, h⟩ := except_bind_eq_ok.mp h
  obtain ⟨_, -, h⟩ := except_bind_eq_ok.mp h
  obtain ⟨_, -, h⟩ := except_bind_eq_ok.mp h
  obtain ⟨_, -, h⟩ := except_bind_eq_ok.mp h
  obtain ⟨_, -, h⟩ := except_bind_eq_ok.mp h
  obtain ⟨_, -, h⟩ := except_bind_eq_ok.mp h
  obtain ⟨_, -, h⟩ := except_bind_eq_ok.mp h
  obtain ⟨actual, hactual, h⟩ := except_bind_eq_ok.mp h
  obtain ⟨actual', hactual', h⟩ := except_bind_eq_ok.mp h
  obtain ⟨_, hsum, h⟩ := except_bind_eq_ok.mp h
  cases h
  obtain ⟨-, rfl⟩ := narrow_trapping_eq_ok.mp hunit
  obtain ⟨hunitFits, rfl⟩ := narrow_trapping_eq_ok.mp hunit'
  obtain ⟨⟨hactual₀, -⟩, rfl⟩ := narrow_trapping_eq_ok.mp hactual
  obtain ⟨-, rfl⟩ := narrow_trapping_eq_ok.mp hactual'
  have hnonneg : (0 : ℤ) ≤ _ := hactual₀
  have hfits := throwUnless_eq_ok.mp hsum
  have hpos : 0 < interestUnit digits := by
    rw [interestUnit_eq]
    positivity
  refine ⟨rfl, ⟨hpos, hunitFits.2, ?_, hfits.2⟩, ⟨hpos, ?_⟩⟩
  · exact add_nonneg hnonneg hpos.le
  · exact le_add_of_nonneg_left hnonneg

/-- The arithmetic of `get_profit` does not go wrong: it throws or returns before a number does not
fit its type. -/
def Safe (d : AssetLockData) (digits : ℕ) (currentSupply amount : ℤ) (lockPeriod : ℕ) : Prop :=
  d.getProfitIn .trapping digits currentSupply amount lockPeriod ≠ .error .trapped

/-- Only the interest can trap. -/
theorem safe_iff_interest {amount : ℤ} (hamount : 0 ≤ amount) (hamount' : amount < 2 ^ 63) :
    d.Safe digits currentSupply amount lockPeriod ↔
      d.getInterestIn .trapping digits currentSupply lockPeriod ≠ .error .trapped := by
  unfold Safe getProfitIn
  cases h : d.getInterestIn .trapping digits currentSupply lockPeriod with
  | error stop =>
    rw [error_bind]
    refine not_congr ⟨fun heq => ?_, fun heq => ?_⟩
    · cases heq
      rfl
    · cases heq
      rfl
  | ok i =>
    obtain ⟨-, hfits, -⟩ := getInterestIn_fits h
    refine iff_of_true ?_ fun heq => by cases heq
    rw [ok_bind, mulInterestIn_trapping hamount hamount' hfits]
    split
    · next hmax =>
      have htotal : 0 ≤ amount * i.quote / i.base :=
        Int.ediv_nonneg (mul_nonneg hamount hfits.quote_nonneg) hfits.base_pos.le
      have hprofit : IntType.int64.Contains (amount * i.quote / i.base - amount) := by
        change (-2 ^ 63 : ℤ) ≤ _ ∧ _ < (2 ^ 63 : ℤ)
        unfold maxShareSupply at hmax
        omega
      rw [ok_bind, narrow_of_contains hprofit]
      exact fun heq => by cases heq
    · rw [error_bind]
      exact fun heq => by cases heq

/-- What the code computes in a run that does not go wrong. -/
theorem profitOf_of_safe {amount : ℤ} (hamount : FitsShare amount) (hpool : FitsShare d.interestPool)
    (h : d.Safe digits currentSupply amount lockPeriod) (profit : ℤ) :
    d.profitOf digits currentSupply amount lockPeriod = .ok profit ↔
      d.getProfitIn .exact digits currentSupply amount lockPeriod = .ok profit := by
  have hcode : Matches (d.getProfitIn .trapping digits currentSupply amount lockPeriod)
      (d.profitOf digits currentSupply amount lockPeriod) :=
    d.getProfitIn_matches digits lockPeriod hamount hpool
  rw [d.getProfitIn_agrees .exact digits currentSupply amount lockPeriod h]
  unfold Safe at h
  cases hrun : d.getProfitIn .trapping digits currentSupply amount lockPeriod with
  | ok v => rw [hcode.eq_ok hrun, Except.ok.injEq, Except.ok.injEq]
  | error stop =>
    cases stop with
    | trapped => exact absurd hrun h
    | thrown e =>
      rw [hcode.eq_thrown hrun]
      exact iff_of_false (fun heq => by cases heq) fun heq => by cases heq

/-- **The arithmetic of the interest is safe** if and only if the condition holds; the code then
computes the formula over the integers. -/
theorem safe_iff (hd : d.Accepted) (hdigits : digits ≤ 12) (hpool : d.interestPool ≤ currentSupply)
    (hsupply : currentSupply < 2 ^ 63) {amount : ℤ} (hamount : 0 < amount) (hamount' : amount < 2 ^ 63)
    (hday : interestDay ≤ lockPeriod) (hperiod : lockPeriod < 2 ^ 32) :
    (d.Safe digits currentSupply amount lockPeriod ↔ d.SafeAt digits currentSupply lockPeriod) ∧
      (d.Safe digits currentSupply amount lockPeriod → ∀ profit,
        d.profitOf digits currentSupply amount lockPeriod = .ok profit ↔
          d.getProfitIn .exact digits currentSupply amount lockPeriod = .ok profit) := by
  have hpool₀ := hd.pool_nonneg
  refine ⟨?_, profitOf_of_safe ⟨by omega, hamount'⟩ ⟨by omega, by omega⟩⟩
  rw [safe_iff_interest hamount.le hamount']
  exact getInterestIn_safe_iff hd hdigits hpool hsupply hday hperiod

/-- What `set_lock_data` creates is accepted lock data. -/
theorem accepted_of_setLockData {op : SetLockData} {s s₁ s' : Books} {u u' : Unit}
    (hnominal : op.nominalInterestPerday < 2 ^ 64) (hperiod : op.maxPeriod < 2 ^ 32)
    (hscale : op.profileScalePercent < 2 ^ 32) (hvalidate : op.validate s = .ok u s₁)
    (h : op.doApply s = .ok u' s') :
    ∃ d, s'.lockData.lookup op.initInterestPool.assetId = some d ∧ d.Accepted := by
  unfold SetLockData.validate at hvalidate
  obtain ⟨⟨-, hpos, hpool, hreward, hge, hscalePos, hreceive⟩, -⟩ := assert_eq_ok.mp hvalidate
  unfold SetLockData.doApply at h
  rw [get_bind] at h
  obtain ⟨-, h⟩ := assert_bind_eq_ok.mp h
  obtain ⟨_, s₂, -, h⟩ := bind_eq_ok.mp h
  obtain rfl := update_eq_ok.mp h
  exact ⟨_, AList.lookup_insert _, ⟨hpos, hnominal, hreward, hge, hperiod, hscalePos, hscale, hreceive,
    hpool⟩⟩

instance (digits : ℕ) (currentSupply : ℤ) (lockPeriod : ℕ) :
    Decidable (d.SafeAt digits currentSupply lockPeriod) :=
  inferInstanceAs (Decidable (_ ∧ _))

section Example

/-- The interest of the core asset at genesis, with a pool. -/
private def coreInterest : AssetLockData :=
  { assetId := core
    nominalInterestPerday := 1001126926400
    rewardCoefficient := 2000
    interestPool := 10 ^ 14
    maxPeriod := 720
    profileScalePercent := 285000
    profileReceivePercent := 10000
    canUnlockNotExpired := false }

/-- A lock of the core asset for a year is safe. -/
theorem safe_iff_core : coreInterest.Safe 8 (10 ^ 17) (10 ^ 12) (360 * 86400) := by
  refine (safe_iff ?_ (by decide) (by decide) (by decide) (by decide) (by decide) (by decide)
    (by decide)).1.mpr (by decide +kernel)
  exact ⟨by decide, by decide, by decide, by decide, by decide, by decide, by decide, by decide,
    by decide⟩

/-- The interest of a day is a half, and the profile is scaled by `2 ^ 30`. -/
private def scaled : AssetLockData :=
  { assetId := 1
    nominalInterestPerday := 10 ^ 12 + 2 ^ 39
    rewardCoefficient := 0
    interestPool := 2 ^ 59
    maxPeriod := 2
    profileScalePercent := 2 ^ 30
    profileReceivePercent := 10000
    canUnlockNotExpired := true }

/-- The scaled share of the pool is `2 ^ 128`, which wraps to nothing: the lock earns nothing, where
the formula gives it all of the pool for each unit rate. -/
theorem not_safe : ¬ ∀ (d : AssetLockData) (digits : ℕ) (currentSupply amount : ℤ) (lockPeriod : ℕ),
    d.Accepted → digits ≤ 12 → d.interestPool ≤ currentSupply → currentSupply < 2 ^ 63 →
    0 < amount → amount < 2 ^ 63 → interestDay ≤ lockPeriod → lockPeriod < 2 ^ 32 →
    (∃ e, d.profitOf digits currentSupply amount lockPeriod = .error e) ∨
      d.Safe digits currentSupply amount lockPeriod ∧
        ∀ profit, d.profitOf digits currentSupply amount lockPeriod = .ok profit ↔
          d.getProfitIn .exact digits currentSupply amount lockPeriod = .ok profit := by
  intro hall
  have haccepted : scaled.Accepted :=
    ⟨by decide, by decide, by decide, by decide, by decide, by decide, by decide, by decide, by decide⟩
  have hcode : scaled.profitOf 8 (2 ^ 59 + 1) (10 ^ 8) 86400 = .ok 0 := by decide +kernel
  have hformula : scaled.getProfitIn .exact 8 (2 ^ 59 + 1) (10 ^ 8) 86400 = .ok 57646075230342 := by
    decide +kernel
  rcases hall scaled 8 (2 ^ 59 + 1) (10 ^ 8) 86400 haccepted (by decide) (by decide) (by decide)
    (by decide) (by decide) (by decide) (by decide) with ⟨e, he⟩ | ⟨-, hsame⟩
  · rw [hcode] at he
    cases he
  · have hprofit := (hsame 0).mp hcode
    rw [hformula] at hprofit
    cases hprofit

end Example

end AssetLockData

end FinChain.Ledger
