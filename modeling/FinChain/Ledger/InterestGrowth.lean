import FinChain.Ledger.InterestSafety

/-!
# A longer lock does not pay less

The profit of a lock grows with its period as long as the profile is below the pool: the powers of the
interest grow with the exponent, the reward rate grows with the days, and all that follows is rounded
down (`quote_mono`). When the profile reaches the pool, `profile_receive_percent` of the pool is paid
instead ("if the interest pool can't pay for locking balance, user will get the percent of pool
balance"), which may be less than what a shorter lock is paid (`not_profit_grows`).

For one period the profit grows with the amount, since the interest is a price of at least one.
-/

namespace FinChain.Ledger

open Exec Machine

namespace AssetLockData

variable {d : AssetLockData}

/-! ### What a run computes -/

theorem fastPowOfInterestIn_eq_ok {unit : ℤ} (hunit : unit ≠ 0) {rate i : Interest}
    (hrate : rate.base ≠ 0) {pow : ℕ} (h : fastPowOfInterestIn .trapping unit rate pow = .ok i) :
    i = fastPowOver unit rate pow := by
  have hexact := fastPowOfInterestIn_exact hunit hrate pow
  have hagrees := powLoopIn_agrees .exact unit 32 pow rate ⟨1, 1⟩
  unfold fastPowOfInterestIn at h hexact
  rw [hagrees (by rw [h]; exact fun heq => by cases heq), h] at hexact
  exact Except.ok.inj hexact

theorem rewardRateIn_eq_ok {days : ℕ} {rate : ℤ} (h : d.rewardRateIn .trapping days = .ok rate) :
    rate = d.rewardRateOver days ∧ d.halfPeriod ≠ 0 ∧ (d.maxPeriod : ℤ) < 2 ^ 31 := by
  unfold rewardRateIn at h
  obtain ⟨_, hmax, h⟩ := except_bind_eq_ok.mp h
  obtain ⟨hfits, rfl⟩ := narrow_trapping_eq_ok.mp hmax
  obtain ⟨_, hdiff, h⟩ := except_bind_eq_ok.mp h
  obtain ⟨-, rfl⟩ := narrow_trapping_eq_ok.mp hdiff
  obtain ⟨_, hscaled, h⟩ := except_bind_eq_ok.mp h
  obtain ⟨-, rfl⟩ := narrow_trapping_eq_ok.mp hscaled
  have hhalf : (d.maxPeriod : ℤ).tdiv 2 ≠ 0 := by
    intro hzero
    rw [tquotient, if_pos hzero] at h
    cases h
  rw [tquotient_bind hhalf] at h
  obtain ⟨_, hpercent, h⟩ := except_bind_eq_ok.mp h
  obtain ⟨-, rfl⟩ := narrow_trapping_eq_ok.mp hpercent
  obtain ⟨_, hproduct, h⟩ := except_bind_eq_ok.mp h
  obtain ⟨-, rfl⟩ := narrow_trapping_eq_ok.mp hproduct
  obtain ⟨-, rfl⟩ := narrow_trapping_eq_ok.mp h
  exact ⟨rfl, hhalf, hfits.2⟩

theorem mulInterestIn_eq_ok {amount x : ℤ} {i : Interest}
    (h : mulInterestIn .trapping amount i = .ok x) : x = amount * i.quote / i.base := by
  unfold mulInterestIn at h
  obtain ⟨_, -, h⟩ := except_bind_eq_ok.mp h
  obtain ⟨_, hamount, h⟩ := except_bind_eq_ok.mp h
  obtain ⟨-, rfl⟩ := narrow_trapping_eq_ok.mp hamount
  obtain ⟨_, hquote, h⟩ := except_bind_eq_ok.mp h
  obtain ⟨-, rfl⟩ := narrow_trapping_eq_ok.mp hquote
  obtain ⟨_, hproduct, h⟩ := except_bind_eq_ok.mp h
  obtain ⟨-, rfl⟩ := narrow_trapping_eq_ok.mp hproduct
  obtain ⟨_, hquotient, h⟩ := except_bind_eq_ok.mp h
  unfold quotient at hquotient
  split at hquotient
  · cases hquotient
  cases hquotient
  obtain ⟨_, -, h⟩ := except_bind_eq_ok.mp h
  obtain ⟨-, rfl⟩ := narrow_trapping_eq_ok.mp h
  rfl

theorem preProfileIn_eq_ok {unit rate pre : ℤ} {grown : Interest}
    (h : preProfileIn .trapping unit rate grown = .ok pre) :
    pre = (grown.worth unit - unit) * rate / hundredPercent ∧ 0 ≤ rate := by
  unfold preProfileIn at h
  obtain ⟨amount, hamount, h⟩ := except_bind_eq_ok.mp h
  obtain rfl := mulInterestIn_eq_ok hamount
  obtain ⟨_, hgain, h⟩ := except_bind_eq_ok.mp h
  obtain ⟨-, rfl⟩ := narrow_trapping_eq_ok.mp hgain
  obtain ⟨_, hgain, h⟩ := except_bind_eq_ok.mp h
  obtain ⟨-, rfl⟩ := narrow_trapping_eq_ok.mp hgain
  obtain ⟨_, hrate, h⟩ := except_bind_eq_ok.mp h
  obtain ⟨hrate₀, rfl⟩ := narrow_trapping_eq_ok.mp hrate
  obtain ⟨_, hproduct, h⟩ := except_bind_eq_ok.mp h
  obtain ⟨-, rfl⟩ := narrow_trapping_eq_ok.mp hproduct
  cases h
  exact ⟨rfl, hrate₀.1⟩

theorem maxNeedPoolIn_eq_ok {toDeposit need : ℤ} {top : Interest}
    (h : d.maxNeedPoolIn .trapping top toDeposit = .ok need) :
    need = (top.quote * toDeposit / top.base - toDeposit) * (d.rewardCoefficient + hundredPercent) /
      hundredPercent ∧ 0 ≤ need := by
  unfold maxNeedPoolIn at h
  obtain ⟨_, hquote, h⟩ := except_bind_eq_ok.mp h
  obtain ⟨-, rfl⟩ := narrow_trapping_eq_ok.mp hquote
  obtain ⟨_, hbase, h⟩ := except_bind_eq_ok.mp h
  obtain ⟨-, rfl⟩ := narrow_trapping_eq_ok.mp hbase
  obtain ⟨_, hdeposit, h⟩ := except_bind_eq_ok.mp h
  obtain ⟨-, rfl⟩ := narrow_trapping_eq_ok.mp hdeposit
  obtain ⟨_, -, h⟩ := except_bind_eq_ok.mp h
  obtain ⟨_, hproduct, h⟩ := except_bind_eq_ok.mp h
  obtain ⟨-, rfl⟩ := narrow_trapping_eq_ok.mp hproduct
  obtain ⟨_, hquotient, h⟩ := except_bind_eq_ok.mp h
  unfold quotient at hquotient
  split at hquotient
  · cases hquotient
  cases hquotient
  obtain ⟨_, hdiff, h⟩ := except_bind_eq_ok.mp h
  obtain ⟨-, rfl⟩ := narrow_trapping_eq_ok.mp hdiff
  obtain ⟨_, hfactor, h⟩ := except_bind_eq_ok.mp h
  obtain ⟨-, rfl⟩ := narrow_trapping_eq_ok.mp hfactor
  obtain ⟨_, hscaled, h⟩ := except_bind_eq_ok.mp h
  obtain ⟨⟨hscaled₀, -⟩, rfl⟩ := narrow_trapping_eq_ok.mp hscaled
  cases h
  exact ⟨rfl, Int.ediv_nonneg hscaled₀ (by decide)⟩

theorem profileIn_eq_ok {pre need profile : ℤ} (h : d.profileIn .trapping pre need = .ok profile) :
    profile = pre * d.interestPool / need * d.profileScalePercent / hundredPercent ∧
      0 ≤ d.interestPool := by
  unfold profileIn at h
  obtain ⟨_, hpool, h⟩ := except_bind_eq_ok.mp h
  obtain ⟨⟨hpool₀, -⟩, rfl⟩ := narrow_trapping_eq_ok.mp hpool
  obtain ⟨_, hproduct, h⟩ := except_bind_eq_ok.mp h
  obtain ⟨-, rfl⟩ := narrow_trapping_eq_ok.mp hproduct
  obtain ⟨_, hquotient, h⟩ := except_bind_eq_ok.mp h
  unfold quotient at hquotient
  split at hquotient
  · cases hquotient
  cases hquotient
  obtain ⟨_, hscaled, h⟩ := except_bind_eq_ok.mp h
  obtain ⟨-, rfl⟩ := narrow_trapping_eq_ok.mp hscaled
  cases h
  exact ⟨rfl, hpool₀⟩

theorem actualProfileIn_eq_ok {profile actual : ℤ}
    (h : d.actualProfileIn .trapping profile = .ok actual) : actual =
      if d.interestPool ≤ profile then d.interestPool * d.profileReceivePercent / hundredPercent
      else profile := by
  unfold actualProfileIn at h
  split at h
  · next hcapped =>
    obtain ⟨_, hpool, h⟩ := except_bind_eq_ok.mp h
    obtain ⟨-, rfl⟩ := narrow_trapping_eq_ok.mp hpool
    obtain ⟨_, hproduct, h⟩ := except_bind_eq_ok.mp h
    obtain ⟨-, rfl⟩ := narrow_trapping_eq_ok.mp hproduct
    obtain ⟨-, rfl⟩ := narrow_trapping_eq_ok.mp h
    exact (if_pos hcapped).symm
  · next hcapped =>
    cases h
    exact (if_neg hcapped).symm

/-- The numbers of a run that does not trap. -/
structure Run (d : AssetLockData) (unit currentSupply : ℤ) (lockPeriod : ℕ) (i : Interest) : Prop where
  base : i.base = unit
  quote : i.quote = d.actualProfileOver unit currentSupply (lockPeriod / interestDay) + unit
  days_lt : lockPeriod / interestDay < 2 ^ 32
  halfPeriod_pos : 0 < d.halfPeriod
  rate_nonneg : 0 ≤ d.rewardRateOver (lockPeriod / interestDay)
  need_nonneg : 0 ≤ d.maxNeedPoolOver unit currentSupply
  pool_nonneg : 0 ≤ d.interestPool

theorem run_of_getInterestIn {digits lockPeriod : ℕ} {currentSupply : ℤ} {i : Interest}
    (h : d.getInterestIn .trapping digits currentSupply lockPeriod = .ok i) :
    d.Run (interestUnit digits) currentSupply lockPeriod i := by
  have hunitPos : 0 < interestUnit digits := by
    rw [interestUnit_eq]
    positivity
  unfold getInterestIn at h
  obtain ⟨longest, hlongest, h⟩ := except_bind_eq_ok.mp h
  obtain ⟨hlongestFits, rfl⟩ := narrow_trapping_eq_ok.mp hlongest
  obtain ⟨_, hlong, h⟩ := except_bind_eq_ok.mp h
  have hle := throwUnless_eq_ok.mp hlong
  obtain ⟨_, hunit, h⟩ := except_bind_eq_ok.mp h
  obtain ⟨-, rfl⟩ := narrow_trapping_eq_ok.mp hunit
  obtain ⟨_, hdays, h⟩ := except_bind_eq_ok.mp h
  obtain ⟨-, rfl⟩ := narrow_trapping_eq_ok.mp hdays
  obtain ⟨_, hdeposit, h⟩ := except_bind_eq_ok.mp h
  obtain ⟨-, rfl⟩ := narrow_trapping_eq_ok.mp hdeposit
  obtain ⟨_, hunit, h⟩ := except_bind_eq_ok.mp h
  obtain ⟨-, rfl⟩ := narrow_trapping_eq_ok.mp hunit
  obtain ⟨_, hnominal, h⟩ := except_bind_eq_ok.mp h
  obtain ⟨-, rfl⟩ := narrow_trapping_eq_ok.mp hnominal
  obtain ⟨top, htop, h⟩ := except_bind_eq_ok.mp h
  obtain rfl := fastPowOfInterestIn_eq_ok hunitPos.ne' interestBaseSupply_pos.ne' htop
  obtain ⟨rate, hrate, h⟩ := except_bind_eq_ok.mp h
  obtain ⟨rfl, hhalf, hmax⟩ := rewardRateIn_eq_ok hrate
  obtain ⟨grown, hgrown, h⟩ := except_bind_eq_ok.mp h
  obtain rfl := fastPowOfInterestIn_eq_ok hunitPos.ne' interestBaseSupply_pos.ne' hgrown
  obtain ⟨pre, hpre, h⟩ := except_bind_eq_ok.mp h
  obtain ⟨rfl, hrate₀⟩ := preProfileIn_eq_ok hpre
  obtain ⟨need, hneed, h⟩ := except_bind_eq_ok.mp h
  obtain ⟨hneedEq, hneed₀⟩ := maxNeedPoolIn_eq_ok hneed
  obtain ⟨profile, hprofile, h⟩ := except_bind_eq_ok.mp h
  obtain ⟨hprofileEq, hpool₀⟩ := profileIn_eq_ok hprofile
  obtain ⟨actual, hactual, h⟩ := except_bind_eq_ok.mp h
  have hactualEq := actualProfileIn_eq_ok hactual
  obtain ⟨_, hactual, h⟩ := except_bind_eq_ok.mp h
  obtain ⟨-, rfl⟩ := narrow_trapping_eq_ok.mp hactual
  obtain ⟨_, hactual, h⟩ := except_bind_eq_ok.mp h
  obtain ⟨-, rfl⟩ := narrow_trapping_eq_ok.mp hactual
  obtain ⟨_, -, h⟩ := except_bind_eq_ok.mp h
  cases h
  have hhalfPos : 0 < d.halfPeriod := by
    have hnonneg : 0 ≤ d.halfPeriod := Int.tdiv_nonneg (Int.natCast_nonneg _) (by decide)
    exact lt_of_le_of_ne hnonneg (Ne.symm hhalf)
  have hmaxPeriod : d.maxPeriod ≠ 0 := by
    intro hzero
    refine hhalf ?_
    unfold halfPeriod
    rw [hzero]
    rfl
  have hmaxLt : d.maxPeriod < 2 ^ 32 := by
    have hlt : (d.maxPeriod : ℤ) < 2 ^ 32 := hmax.trans (by decide)
    exact_mod_cast hlt
  have hbase : (fastPowOver (interestUnit digits) d.nominal d.maxPeriod).base =
      interestUnit digits := base_fastPowOver hmaxLt hmaxPeriod
  have hneedOver : need = d.maxNeedPoolOver (interestUnit digits) currentSupply := by
    rw [hneedEq]
    unfold maxNeedPoolOver grownOver Interest.worth
    change ((fastPowOver (interestUnit digits) d.nominal d.maxPeriod).quote * _ /
      (fastPowOver (interestUnit digits) d.nominal d.maxPeriod).base - _) * _ / _ = _
    rw [hbase, Int.mul_ediv_cancel_left _ hunitPos.ne']
  have hperiod : lockPeriod < 2 ^ 32 := by
    have hlt : ((d.maxPeriod * interestDay : ℕ) : ℤ) < (2 ^ 32 : ℤ) := hlongestFits.2
    have hlt' : (lockPeriod : ℤ) < 2 ^ 32 := hle.trans_lt hlt
    exact_mod_cast hlt'
  refine ⟨rfl, ?_, (Nat.div_le_self _ _).trans_lt hperiod, hhalfPos, hrate₀, hneedOver ▸ hneed₀, hpool₀⟩
  change actual + _ = _
  rw [hactualEq, hprofileEq, hneedOver]
  rfl

/-! ### More days -/

section Days

variable {unit currentSupply : ℤ} {days days' : ℕ}

theorem rewardRateOver_mono (hhalf : 0 < d.halfPeriod) (h : days ≤ days') :
    d.rewardRateOver days ≤ d.rewardRateOver days' := by
  have hdays : (days : ℤ) ≤ days' := by exact_mod_cast h
  have hscaled : ((days : ℤ) - d.halfPeriod) * hundredPercent ≤
      ((days' : ℤ) - d.halfPeriod) * hundredPercent :=
    mul_le_mul_of_nonneg_right (sub_le_sub_right hdays _) (by decide)
  have hpercent := Int.tdiv_le_tdiv hhalf hscaled
  have hproduct := mul_le_mul_of_nonneg_right hpercent (Int.natCast_nonneg d.rewardCoefficient)
  exact add_le_add_right (Int.tdiv_le_tdiv (by decide) hproduct) _

variable (hunit : 0 < unit) (hgrowing : d.nominal.Growing) (hhalf : 0 < d.halfPeriod)
  (hrate : 0 ≤ d.rewardRateOver days) (h : days ≤ days') (hdays : days' < 2 ^ 32)
include hunit hgrowing hhalf hrate h hdays

theorem preProfileOver_mono : 0 ≤ d.preProfileOver unit days ∧
    d.preProfileOver unit days ≤ d.preProfileOver unit days' := by
  have hgrown : d.grownOver unit days ≤ d.grownOver unit days' :=
    fastPowOver_mono hgrowing hunit h hdays
  have hgain : 0 ≤ d.grownOver unit days - unit :=
    sub_nonneg.mpr (le_worth_fastPowOver hgrowing hunit days)
  have hgain' : 0 ≤ d.grownOver unit days' - unit := hgain.trans (sub_le_sub_right hgrown unit)
  have hrates := rewardRateOver_mono hhalf h
  refine ⟨Int.ediv_nonneg (mul_nonneg hgain hrate) (by decide), Int.ediv_le_ediv (by decide) ?_⟩
  calc (d.grownOver unit days - unit) * d.rewardRateOver days
      ≤ (d.grownOver unit days' - unit) * d.rewardRateOver days :=
        mul_le_mul_of_nonneg_right (sub_le_sub_right hgrown unit) hrate
    _ ≤ (d.grownOver unit days' - unit) * d.rewardRateOver days' :=
        mul_le_mul_of_nonneg_left hrates hgain'

theorem profileOver_mono (hneed : 0 ≤ d.maxNeedPoolOver unit currentSupply)
    (hpool : 0 ≤ d.interestPool) :
    d.profileOver unit currentSupply days ≤ d.profileOver unit currentSupply days' := by
  obtain ⟨-, hpre⟩ := preProfileOver_mono hunit hgrowing hhalf hrate h hdays
  have hproduct : d.preProfileOver unit days * d.interestPool ≤
      d.preProfileOver unit days' * d.interestPool := mul_le_mul_of_nonneg_right hpre hpool
  have hshare : d.shareOver unit currentSupply days ≤ d.shareOver unit currentSupply days' := by
    unfold shareOver
    rcases hneed.eq_or_lt with hzero | hpos
    · rw [← hzero, Int.ediv_zero, Int.ediv_zero]
    · exact Int.ediv_le_ediv hpos hproduct
  exact Int.ediv_le_ediv (by decide)
    (mul_le_mul_of_nonneg_right hshare (Int.natCast_nonneg d.profileScalePercent))

end Days

/-- The profile for a period reaches the pool, so that a part of the pool is paid. -/
def Capped (d : AssetLockData) (digits : ℕ) (currentSupply : ℤ) (lockPeriod : ℕ) : Prop :=
  d.interestPool ≤ d.profileOver (interestUnit digits) currentSupply (lockPeriod / interestDay)

/-- The part of the pool that is paid when the profile reaches it. -/
def receivedPool (d : AssetLockData) : ℤ := d.interestPool * d.profileReceivePercent / hundredPercent

section Periods

variable {digits p p' : ℕ} {currentSupply : ℤ} {i i' : Interest}

theorem actualProfileOver_of_capped (h : d.Capped digits currentSupply p) :
    d.actualProfileOver (interestUnit digits) currentSupply (p / interestDay) = d.receivedPool :=
  if_pos h

theorem actualProfileOver_of_not (h : ¬ d.Capped digits currentSupply p) :
    d.actualProfileOver (interestUnit digits) currentSupply (p / interestDay) =
      d.profileOver (interestUnit digits) currentSupply (p / interestDay) :=
  if_neg h

/-- What is paid for a longer period, unless it is capped. -/
theorem quote_mono (hnominal : interestBaseSupply ≤ d.nominalInterestPerday) (hp : p ≤ p')
    (h : d.getInterestIn .trapping digits currentSupply p = .ok i)
    (h' : d.getInterestIn .trapping digits currentSupply p' = .ok i')
    (hcap : d.Capped digits currentSupply p' → d.Capped digits currentSupply p ∨
      d.profileOver (interestUnit digits) currentSupply (p / interestDay) ≤ d.receivedPool) :
    i.quote ≤ i'.quote := by
  have hrun := run_of_getInterestIn h
  have hrun' := run_of_getInterestIn h'
  have hunit : 0 < interestUnit digits := by
    rw [interestUnit_eq]
    positivity
  have hmono : d.profileOver (interestUnit digits) currentSupply (p / interestDay) ≤
      d.profileOver (interestUnit digits) currentSupply (p' / interestDay) := profileOver_mono hunit
    ⟨interestBaseSupply_pos, hnominal⟩ hrun.halfPeriod_pos hrun.rate_nonneg
    (Nat.div_le_div_right hp) hrun'.days_lt hrun.need_nonneg hrun.pool_nonneg
  rw [hrun.quote, hrun'.quote]
  refine add_le_add_left ?_ _
  by_cases hcapped' : d.Capped digits currentSupply p'
  · rw [actualProfileOver_of_capped hcapped']
    by_cases hcapped : d.Capped digits currentSupply p
    · rw [actualProfileOver_of_capped hcapped]
    · rw [actualProfileOver_of_not hcapped]
      exact (hcap hcapped').resolve_left hcapped
  · -- the shorter one is not capped, either
    have hcapped : ¬ d.Capped digits currentSupply p := by
      intro hcapped
      exact hcapped' (hcapped.trans hmono)
    rw [actualProfileOver_of_not hcapped', actualProfileOver_of_not hcapped]
    exact hmono

end Periods

/-! ### The profit -/

theorem profitOf_eq {digits p : ℕ} {currentSupply amount profit : ℤ} {i : Interest}
    (h : d.getInterestIn .trapping digits currentSupply p = .ok i) (hamount : 0 ≤ amount)
    (hprofit : d.profitOf digits currentSupply amount p = .ok profit) :
    profit = amount * i.quote / i.base - amount := by
  obtain ⟨-, hfits, -⟩ := getInterestIn_fits h
  unfold profitOf at hprofit
  obtain ⟨⟨hamountFits, -⟩, hprofit⟩ := check_bind_eq_ok.mp hprofit
  obtain ⟨interest, hinterest, hprofit⟩ := except_bind_eq_ok.mp hprofit
  rw [getInterestIn_eq_ok h] at hinterest
  cases hinterest
  obtain ⟨total, htotal, hprofit⟩ := except_bind_eq_ok.mp hprofit
  cases hprofit
  have hid : (⟨amount, d.assetId⟩ : Asset).assetId = (d.price i).base.assetId := rfl
  rw [Asset.mul_of_base hid] at htotal
  obtain ⟨-, -, rfl⟩ := Asset.convert_eq_ok.mp htotal
  have hproduct : uint128 (uint128 amount * i.quote) = amount * i.quote := by
    rw [uint128_of_lt hamount (hamountFits.2.trans (by decide)),
      uint128_of_contains (product_contains hamount hamountFits.2 hfits)]
  change uint128 (uint128 amount * i.quote) / i.base - amount = _
  rw [hproduct]

/-- **A longer lock does not pay less**, unless the profile reaches the pool only for the longer
period, and the part of the pool that is then paid is less than the profile for the shorter one. A
larger amount does not pay less, and no profit is negative. -/
theorem profit_grows {digits : ℕ} {currentSupply : ℤ}
    (hnominal : interestBaseSupply ≤ d.nominalInterestPerday) :
    (∀ p p' i i' amount profit profit', p ≤ p' → 0 ≤ amount →
      d.getInterestIn .trapping digits currentSupply p = .ok i →
      d.getInterestIn .trapping digits currentSupply p' = .ok i' →
      d.profitOf digits currentSupply amount p = .ok profit →
      d.profitOf digits currentSupply amount p' = .ok profit' →
      (d.Capped digits currentSupply p' → d.Capped digits currentSupply p ∨
        d.profileOver (interestUnit digits) currentSupply (p / interestDay) ≤ d.receivedPool) →
      profit ≤ profit') ∧
    (∀ p i amount amount' profit profit', 0 ≤ amount → amount ≤ amount' →
      d.getInterestIn .trapping digits currentSupply p = .ok i →
      d.profitOf digits currentSupply amount p = .ok profit →
      d.profitOf digits currentSupply amount' p = .ok profit' → 0 ≤ profit ∧ profit ≤ profit') := by
  constructor
  · intro p p' i i' amount profit profit' hp hamount h h' hprofit hprofit' hcap
    have hbase := (getInterestIn_fits h).1
    have hbase' := (getInterestIn_fits h').1
    have hpos := (getInterestIn_fits h).2.1.base_pos
    rw [profitOf_eq h hamount hprofit, profitOf_eq h' hamount hprofit', hbase', ← hbase]
    refine sub_le_sub_right (Int.ediv_le_ediv hpos ?_) amount
    exact mul_le_mul_of_nonneg_left (quote_mono hnominal hp h h' hcap) hamount
  · intro p i amount amount' profit profit' hamount hle h hprofit hprofit'
    obtain ⟨-, hfits, hgrowing⟩ := getInterestIn_fits h
    have hnonneg : ∀ {x : ℤ}, 0 ≤ x → x ≤ x * i.quote / i.base := fun hx =>
      (Int.le_ediv_iff_mul_le hfits.base_pos).mpr (mul_le_mul_of_nonneg_left hgrowing.base_le hx)
    rw [profitOf_eq h hamount hprofit, profitOf_eq h (hamount.trans hle) hprofit']
    refine ⟨sub_nonneg.mpr (hnonneg hamount), ?_⟩
    -- the difference of the amounts earns a profit, too
    have hmore := hnonneg (sub_nonneg.mpr hle)
    have hsum : amount * i.quote / i.base + (amount' - amount) * i.quote / i.base ≤
        amount' * i.quote / i.base := by
      have hsplit : amount' * i.quote = amount * i.quote + (amount' - amount) * i.quote := by ring
      rw [hsplit]
      exact Int.ediv_add_ediv_le_add_ediv hfits.base_pos
    linarith

section Example

/-- The core asset of two million units of which half is in the pool. -/
private def halfPool : AssetLockData :=
  { assetId := core
    nominalInterestPerday := 1001126926400
    rewardCoefficient := 2000
    interestPool := 10 ^ 12
    maxPeriod := 720
    profileScalePercent := 20000
    profileReceivePercent := 5000
    canUnlockNotExpired := false }

/-- Two locks for half a year and for a year: the longer one pays more. -/
theorem profit_grows_year : ∃ profit profit',
    halfPool.profitOf 8 (2 * 10 ^ 12) (10 ^ 8) (180 * 86400) = .ok profit ∧
    halfPool.profitOf 8 (2 * 10 ^ 12) (10 ^ 8) (360 * 86400) = .ok profit' ∧ profit ≤ profit' ∧
    0 ≤ profit := by
  have hprofit : halfPool.profitOf 8 (2 * 10 ^ 12) (10 ^ 8) (180 * 86400) = .ok 26969385 := by
    decide +kernel
  have hprofit' : halfPool.profitOf 8 (2 * 10 ^ 12) (10 ^ 8) (360 * 86400) = .ok 66666667 := by
    decide +kernel
  have hrun : halfPool.getInterestIn .trapping 8 (2 * 10 ^ 12) (180 * 86400) =
      .ok ⟨10 ^ 12, 1269693851810⟩ := by
    decide +kernel
  have hrun' : halfPool.getInterestIn .trapping 8 (2 * 10 ^ 12) (360 * 86400) =
      .ok ⟨10 ^ 12, 1666666677074⟩ := by
    decide +kernel
  obtain ⟨hperiod, hamount⟩ := @profit_grows halfPool 8 (2 * 10 ^ 12) (by decide)
  have hmore := hperiod _ _ _ _ _ _ _ (by decide) (by decide) hrun hrun' hprofit hprofit'
    (fun hcapped => absurd hcapped (by unfold Capped; decide +kernel))
  exact ⟨_, _, hprofit, hprofit', hmore, (hamount _ _ _ _ _ _ (by decide) le_rfl hrun hprofit hprofit).1⟩

/-- Half of the pool for two years is less than what a year earns. -/
theorem not_profit_grows : ¬ ∀ (d : AssetLockData) (digits : ℕ) (currentSupply : ℤ),
    interestBaseSupply ≤ d.nominalInterestPerday → ∀ p p' i i' amount profit profit', p ≤ p' →
      0 ≤ amount → d.getInterestIn .trapping digits currentSupply p = .ok i →
      d.getInterestIn .trapping digits currentSupply p' = .ok i' →
      d.profitOf digits currentSupply amount p = .ok profit →
      d.profitOf digits currentSupply amount p' = .ok profit' → profit ≤ profit' := by
  intro hall
  have hrun : halfPool.getInterestIn .trapping 8 (2 * 10 ^ 12) (360 * 86400) =
      .ok ⟨10 ^ 12, 1666666677074⟩ := by
    decide +kernel
  have hrun' : halfPool.getInterestIn .trapping 8 (2 * 10 ^ 12) (720 * 86400) =
      .ok ⟨10 ^ 12, 1500000000000⟩ := by
    decide +kernel
  have hprofit : halfPool.profitOf 8 (2 * 10 ^ 12) (10 ^ 8) (360 * 86400) = .ok 66666667 := by
    decide +kernel
  have hprofit' : halfPool.profitOf 8 (2 * 10 ^ 12) (10 ^ 8) (720 * 86400) = .ok 50000000 := by
    decide +kernel
  have hle := hall halfPool 8 (2 * 10 ^ 12) (by decide) _ _ _ _ _ _ _ (by decide) (by decide) hrun
    hrun' hprofit hprofit'
  exact absurd hle (by decide)

end Example

end AssetLockData

end FinChain.Ledger
