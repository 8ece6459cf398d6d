import FinChain.Lib.MachineArithmetic
import FinChain.Ledger.Interest

/-!
# The arithmetic of the interest

`get_profit` and what it calls once more, with every conversion and every result of an operation
written out (`getProfitIn`). The trapping run stops at the first number that does not fit its type and
at a division by zero; the exact run is the same formula over the integers. When the trapping run does
not trap, the code computes what the exact run computes (`getProfitIn_matches`,
`getProfitIn_agrees`).
-/

namespace FinChain.Ledger

open Exec Machine

/-- The outcome of a computation. -/
abbrev Computed (α : Type) := Except (Stop LedgerError) α

/-- `multiply_of_interest`. -/
def multiplyOfInterestIn (A : Arithmetic) (unit : ℤ) (a b : Interest) : Computed Interest := do
  let aQuote ← A.narrow .uint128 a.quote
  let aBase ← A.narrow .uint128 a.base
  let bQuote ← A.narrow .uint128 b.quote
  let bBase ← A.narrow .uint128 b.base
  let x ← A.narrow .uint128 (unit * aQuote)
  let x ← quotient x aBase
  let x ← A.narrow .uint128 (x * bQuote)
  let x ← quotient x bBase
  let x ← A.narrow .uint64 x
  let quote ← A.narrow .int64 x
  return ⟨unit, quote⟩

/-- `if (pow & 0x01) result = multiply_of_interest(result,cur_base)`. -/
def timesBit (A : Arithmetic) (unit : ℤ) (bit : ℕ) (curBase result : Interest) : Computed Interest :=
  if bit = 1 then multiplyOfInterestIn A unit result curBase else return result

/-- The loop of `fast_pow_of_interest`. -/
def powLoopIn (A : Arithmetic) (unit : ℤ) : ℕ → (pow : ℕ) → (curBase result : Interest) →
    Computed Interest
  | 0, _, _, result => return result
  | fuel + 1, pow, curBase, result =>
    if pow = 0 then return result
    else do
      let result ← timesBit A unit (pow % 2) curBase result
      let curBase ← multiplyOfInterestIn A unit curBase curBase
      powLoopIn A unit fuel (pow / 2) curBase result

/-- `fast_pow_of_interest`. -/
def fastPowOfInterestIn (A : Arithmetic) (unit : ℤ) (rate : Interest) (pow : ℕ) : Computed Interest :=
  powLoopIn A unit 32 pow rate ⟨1, 1⟩

/-- An amount of an asset at an interest. -/
def mulInterestIn (A : Arithmetic) (amount : ℤ) (i : Interest) : Computed ℤ := do
  throwUnless .assertion (0 < i.base)
  let x ← A.narrow .uint128 amount
  let quote ← A.narrow .uint128 i.quote
  let x ← A.narrow .uint128 (x * quote)
  let x ← quotient x i.base
  throwUnless .assertion (x ≤ maxShareSupply)
  A.narrow .int64 x

namespace AssetLockData

variable (A : Arithmetic) (d : AssetLockData)

/-- `reward_rate`. -/
def rewardRateIn (lockDays : ℤ) : Computed ℤ := do
  let maxPeriod ← A.narrow .int32 d.maxPeriod
  let half := maxPeriod.tdiv 2
  let days ← A.narrow .int32 (lockDays - half)
  let scaled ← A.narrow .int32 (days * hundredPercent)
  let percent ← tquotient scaled half
  let percentOfYear ← A.narrow .int32 percent
  let product ← A.narrow .int64 (percentOfYear * d.rewardCoefficient)
  A.narrow .int64 (hundredPercent + product.tdiv hundredPercent)

/-- `pre_profile`. -/
def preProfileIn (unit rate : ℤ) (grown : Interest) : Computed ℤ := do
  let amount ← mulInterestIn A unit grown
  let gain ← A.narrow .int64 (amount - unit)
  let gain ← A.narrow .uint128 gain
  let rate ← A.narrow .uint128 rate
  let x ← A.narrow .uint128 (gain * rate)
  return x / hundredPercent

/-- `max_need_pool`. -/
def maxNeedPoolIn (top : Interest) (toDeposit : ℤ) : Computed ℤ := do
  let quote ← A.narrow .uint128 top.quote
  let base ← A.narrow .uint128 top.base
  let toDeposit ← A.narrow .uint128 toDeposit
  throwUnless .assertion (base ≤ quote)
  let x ← A.narrow .uint128 (quote * toDeposit)
  let x ← quotient x base
  let x ← A.narrow .uint128 (x - toDeposit)
  let factor ← A.narrow .uint32 (d.rewardCoefficient + hundredPercent)
  let x ← A.narrow .uint128 (x * factor)
  return x / hundredPercent

/-- `actual_profile` before it is compared with the pool. -/
def profileIn (pre need : ℤ) : Computed ℤ := do
  let pool ← A.narrow .uint128 d.interestPool
  let x ← A.narrow .uint128 (pre * pool)
  let x ← quotient x need
  let x ← A.narrow .uint128 (x * d.profileScalePercent)
  return x / hundredPercent

/-- `actual_profile`. -/
def actualProfileIn (profile : ℤ) : Computed ℤ :=
  if d.interestPool ≤ profile then do
    let pool ← A.narrow .uint128 d.interestPool
    let x ← A.narrow .uint128 (pool * d.profileReceivePercent)
    A.narrow .uint64 (x / hundredPercent)
  else return profile

/-- `_get_interest`; the amounts of the price. -/
def getInterestIn (digits : ℕ) (currentSupply : ℤ) (lockPeriod : ℕ) : Computed Interest := do
  let longest ← A.narrow .uint32 (d.maxPeriod * interestDay)
  throwUnless .assertion (lockPeriod ≤ longest)
  let unit ← A.narrow .uint64 (interestUnit digits)
  let lockDays ← A.narrow .int32 ((lockPeriod / interestDay : ℕ) : ℤ)
  let toDeposit ← A.narrow .int64 (currentSupply - d.interestPool)
  let unit ← A.narrow .int64 unit
  let nominal ← A.narrow .int64 d.nominalInterestPerday
  let top ← fastPowOfInterestIn A unit ⟨interestBaseSupply, nominal⟩ d.maxPeriod
  let rate ← d.rewardRateIn A lockDays
  let grown ← fastPowOfInterestIn A unit ⟨interestBaseSupply, nominal⟩ (lockPeriod / interestDay)
  let pre ← preProfileIn A unit rate grown
  let need ← d.maxNeedPoolIn A top toDeposit
  let profile ← d.profileIn A pre need
  let actual ← d.actualProfileIn A profile
  let actual ← A.narrow .uint64 actual
  let actual ← A.narrow .int64 actual
  -- a sum of two `share_type` that does not fit throws
  throwUnless .assertion (FitsShare (actual + unit))
  return ⟨unit, actual + unit⟩

/-- `get_profit`, of an asset with so many digits and such a supply. -/
def getProfitIn (digits : ℕ) (currentSupply amount : ℤ) (period : ℕ) : Computed ℤ := do
  let interest ← d.getInterestIn A digits currentSupply period
  let total ← mulInterestIn A amount interest
  A.narrow .int64 (total - amount)

end AssetLockData

/-! ### The exact run -/

theorem multiplyOfInterestIn_agrees (A : Arithmetic) (unit : ℤ) (a b : Interest) :
    Agrees (multiplyOfInterestIn .trapping unit a b) (multiplyOfInterestIn A unit a b) :=
  (agrees_narrow A _ _).bind fun _ => (agrees_narrow A _ _).bind fun _ =>
    (agrees_narrow A _ _).bind fun _ => (agrees_narrow A _ _).bind fun _ =>
      (agrees_narrow A _ _).bind fun _ => (Agrees.refl _).bind fun _ =>
        (agrees_narrow A _ _).bind fun _ => (Agrees.refl _).bind fun _ =>
          (agrees_narrow A _ _).bind fun _ => (agrees_narrow A _ _).bind fun _ => .refl _

theorem timesBit_agrees (A : Arithmetic) (unit : ℤ) (bit : ℕ) (curBase result : Interest) :
    Agrees (timesBit .trapping unit bit curBase result) (timesBit A unit bit curBase result) :=
  Agrees.ite (multiplyOfInterestIn_agrees A unit _ _) (.refl _)

theorem powLoopIn_agrees (A : Arithmetic) (unit : ℤ) (fuel pow : ℕ) (curBase result : Interest) :
    Agrees (powLoopIn .trapping unit fuel pow curBase result)
      (powLoopIn A unit fuel pow curBase result) := by
  induction fuel generalizing pow curBase result with
  | zero => exact .refl _
  | succ fuel ih =>
    unfold powLoopIn
    refine Agrees.ite (.refl _) ?_
    refine (timesBit_agrees A unit _ _ _).bind fun _ => ?_
    exact (multiplyOfInterestIn_agrees A unit _ _).bind fun _ => ih _ _ _

theorem mulInterestIn_agrees (A : Arithmetic) (amount : ℤ) (i : Interest) :
    Agrees (mulInterestIn .trapping amount i) (mulInterestIn A amount i) :=
  (Agrees.refl _).bind fun _ => (agrees_narrow A _ _).bind fun _ => (agrees_narrow A _ _).bind fun _ =>
    (agrees_narrow A _ _).bind fun _ => (Agrees.refl _).bind fun _ =>
      (Agrees.refl _).bind fun _ => agrees_narrow A _ _

namespace AssetLockData

variable (A : Arithmetic) (d : AssetLockData)

theorem rewardRateIn_agrees (lockDays : ℤ) :
    Agrees (d.rewardRateIn .trapping lockDays) (d.rewardRateIn A lockDays) :=
  (agrees_narrow A _ _).bind fun _ => (agrees_narrow A _ _).bind fun _ =>
    (agrees_narrow A _ _).bind fun _ => (Agrees.refl _).bind fun _ =>
      (agrees_narrow A _ _).bind fun _ => (agrees_narrow A _ _).bind fun _ => agrees_narrow A _ _

theorem preProfileIn_agrees (unit rate : ℤ) (grown : Interest) :
    Agrees (preProfileIn .trapping unit rate grown) (preProfileIn A unit rate grown) :=
  (mulInterestIn_agrees A _ _).bind fun _ => (agrees_narrow A _ _).bind fun _ =>
    (agrees_narrow A _ _).bind fun _ => (agrees_narrow A _ _).bind fun _ =>
      (agrees_narrow A _ _).bind fun _ => .refl _

theorem maxNeedPoolIn_agrees (top : Interest) (toDeposit : ℤ) :
    Agrees (d.maxNeedPoolIn .trapping top toDeposit) (d.maxNeedPoolIn A top toDeposit) :=
  (agrees_narrow A _ _).bind fun _ => (agrees_narrow A _ _).bind fun _ =>
    (agrees_narrow A _ _).bind fun _ => (Agrees.refl _).bind fun _ =>
      (agrees_narrow A _ _).bind fun _ => (Agrees.refl _).bind fun _ =>
        (agrees_narrow A _ _).bind fun _ => (agrees_narrow A _ _).bind fun _ =>
          (agrees_narrow A _ _).bind fun _ => .refl _

theorem profileIn_agrees (pre need : ℤ) :
    Agrees (d.profileIn .trapping pre need) (d.profileIn A pre need) :=
  (agrees_narrow A _ _).bind fun _ => (agrees_narrow A _ _).bind fun _ => (Agrees.refl _).bind fun _ =>
    (agrees_narrow A _ _).bind fun _ => .refl _

theorem actualProfileIn_agrees (profile : ℤ) :
    Agrees (d.actualProfileIn .trapping profile) (d.actualProfileIn A profile) :=
  Agrees.ite ((agrees_narrow A _ _).bind fun _ => (agrees_narrow A _ _).bind fun _ =>
    agrees_narrow A _ _) (.refl _)

theorem getInterestIn_agrees (digits : ℕ) (currentSupply : ℤ) (lockPeriod : ℕ) :
    Agrees (d.getInterestIn .trapping digits currentSupply lockPeriod)
      (d.getInterestIn A digits currentSupply lockPeriod) :=
  (agrees_narrow A _ _).bind fun _ => (Agrees.refl _).bind fun _ =>
    (agrees_narrow A _ _).bind fun _ => (agrees_narrow A _ _).bind fun _ =>
      (agrees_narrow A _ _).bind fun _ => (agrees_narrow A _ _).bind fun _ =>
        (agrees_narrow A _ _).bind fun _ => (powLoopIn_agrees A _ _ _ _ _).bind fun _ =>
          (d.rewardRateIn_agrees A _).bind fun _ => (powLoopIn_agrees A _ _ _ _ _).bind fun _ =>
            (preProfileIn_agrees A _ _ _).bind fun _ => (d.maxNeedPoolIn_agrees A _ _).bind fun _ =>
              (d.profileIn_agrees A _ _).bind fun _ => (d.actualProfileIn_agrees A _).bind fun _ =>
                (agrees_narrow A _ _).bind fun _ => (agrees_narrow A _ _).bind fun _ =>
                  (Agrees.refl _).bind fun _ => .refl _

/-- **The formula over the integers** has the outcome of a run that does not trap. -/
theorem getProfitIn_agrees (digits : ℕ) (currentSupply amount : ℤ) (period : ℕ) :
    Agrees (d.getProfitIn .trapping digits currentSupply amount period)
      (d.getProfitIn A digits currentSupply amount period) :=
  (d.getInterestIn_agrees A _ _ _).bind fun _ => (mulInterestIn_agrees A _ _).bind fun _ =>
    agrees_narrow A _ _

end AssetLockData

/-! ### The code -/

section Fitting

variable {x : ℤ}

theorem uint128_of_contains (h : IntType.uint128.Contains x) : uint128 x = x :=
  uint128_of_lt h.1 h.2

theorem int64_of_contains (h : IntType.int64.Contains x) : int64 x = x :=
  Int.bmod_eq_of_le (by exact h.1) (by exact h.2)

theorem int32_of_contains (h : IntType.int32.Contains x) : int32 x = x :=
  Int.bmod_eq_of_le (by exact h.1) (by exact h.2)

theorem matches_narrow {t : IntType} {y : ℤ} (h : t.Contains x → y = x) :
    Matches (Arithmetic.trapping.narrow t x) (.ok y : Except LedgerError ℤ) := by
  by_cases hx : t.Contains x
  · rw [narrow_of_contains hx, h hx]
    exact .ok x
  · rw [narrow_trapping_of_not hx]
    exact .trapped _

end Fitting

theorem multiplyOfInterestIn_matches (unit : ℤ) (a b : Interest) :
    Matches (multiplyOfInterestIn .trapping unit a b) (.ok (multiplyOfInterest unit a b)) := by
  refine Matches.narrow_bind fun haq => Matches.narrow_bind fun hab => Matches.narrow_bind fun hbq =>
    Matches.narrow_bind fun hbb => Matches.narrow_bind fun hx => Matches.quotient_bind fun _ =>
      Matches.narrow_bind fun hy => Matches.quotient_bind fun _ => Matches.narrow_bind fun _ =>
        Matches.narrow_bind fun hz => ?_
  unfold multiplyOfInterest
  rw [uint128_of_contains haq, uint128_of_contains hab, uint128_of_contains hbq,
    uint128_of_contains hbb, uint128_of_contains hx, uint128_of_contains hy, int64_of_contains hz]
  exact .ok _

theorem powLoopIn_matches (unit : ℤ) (fuel pow : ℕ) (curBase result : Interest) :
    Matches (powLoopIn .trapping unit fuel pow curBase result)
      (.ok (powLoop unit fuel pow curBase result)) := by
  induction fuel generalizing pow curBase result with
  | zero => exact .ok _
  | succ fuel ih =>
    unfold powLoopIn powLoop
    by_cases hpow : pow = 0
    · rw [if_pos hpow, if_pos hpow]
      exact .ok _
    rw [if_neg hpow, if_neg hpow]
    refine Matches.bind_ok (a := if pow % 2 = 1 then multiplyOfInterest unit result curBase else result)
      ?_ ((multiplyOfInterestIn_matches unit _ _).bind_ok (ih _ _ _))
    unfold timesBit
    split
    · exact multiplyOfInterestIn_matches unit _ _
    · exact .ok _

theorem fastPowOfInterestIn_matches (unit : ℤ) (rate : Interest) (pow : ℕ) :
    Matches (fastPowOfInterestIn .trapping unit rate pow) (.ok (fastPowOfInterest unit rate pow)) :=
  powLoopIn_matches unit 32 pow rate _

theorem matches_throwUnless {p q : Prop} [Decidable p] [Decidable q] (h : p ↔ q) :
    Matches (throwUnless LedgerError.assertion p) (check .assertion q) := by
  unfold throwUnless check
  by_cases hp : p
  · rw [if_pos hp, if_pos (h.mp hp)]
    exact .ok ()
  · rw [if_neg hp, if_neg (fun hq => hp (h.mpr hq))]
    exact .thrown _

/-- Both checks of a product are those of `operator *`. -/
theorem mulInterestIn_matches {id : ℕ} (amount : ℤ) (i : Interest) :
    Matches (mulInterestIn .trapping amount i)
      ((Asset.mul ⟨amount, id⟩ ⟨⟨i.base, id⟩, ⟨i.quote, id⟩⟩).map Asset.amount) := by
  have hbaseId : (⟨amount, id⟩ : Asset).assetId =
      (⟨⟨i.base, id⟩, ⟨i.quote, id⟩⟩ : Price).base.assetId := rfl
  rw [Asset.mul_of_base hbaseId]
  unfold Asset.convert mulInterestIn
  dsimp only
  by_cases hbase : 0 < i.base
  · rw [throwUnless_bind hbase]
    refine Matches.narrow_bind fun ha => Matches.narrow_bind fun _ => Matches.narrow_bind fun hx =>
      Matches.quotient_bind fun _ => ?_
    rw [uint128_of_contains ha, uint128_of_contains hx]
    by_cases hmax : amount * i.quote / i.base ≤ maxShareSupply
    · rw [throwUnless_bind hmax, if_pos ⟨hbase, hmax⟩]
      exact matches_narrow fun _ => rfl
    · rw [throwUnless_bind_of_not hmax, if_neg fun h => hmax h.2]
      exact .thrown _
  · rw [throwUnless_bind_of_not hbase, if_neg fun h => hbase h.1]
    exact .thrown _

namespace AssetLockData

variable (d : AssetLockData)

theorem rewardRateIn_matches (lockDays : ℕ) :
    Matches (d.rewardRateIn .trapping lockDays) (d.rewardRate lockDays) := by
  refine Matches.narrow_bind fun hmax => Matches.narrow_bind fun hdays =>
    Matches.narrow_bind fun hscaled => Matches.tquotient_bind fun hhalf =>
      Matches.narrow_bind fun _ => Matches.narrow_bind fun _ => ?_
  have hcheck : check LedgerError.assertion ((int32 d.maxPeriod).tdiv 2 ≠ 0) = .ok () := by
    rw [int32_of_contains hmax]
    exact if_pos hhalf
  unfold rewardRate
  dsimp only
  rw [hcheck, int32_of_contains hmax, int32_of_contains hdays, int32_of_contains hscaled]
  exact matches_narrow fun _ => rfl

theorem preProfileIn_matches (unit rate : ℤ) (grown : Interest) :
    Matches (preProfileIn .trapping unit rate grown)
      (Asset.mul ⟨unit, d.assetId⟩ (d.price grown) >>= fun a =>
        .ok (uint128 (uint128 (a.amount - unit) * uint128 rate) / hundredPercent)) := by
  have hmul : Matches (mulInterestIn .trapping unit grown)
      ((Asset.mul ⟨unit, d.assetId⟩ (d.price grown)).map Asset.amount) :=
    mulInterestIn_matches unit grown
  have hmap : (Asset.mul ⟨unit, d.assetId⟩ (d.price grown) >>= fun a =>
        .ok (uint128 (uint128 (a.amount - unit) * uint128 rate) / hundredPercent)) =
      ((Asset.mul ⟨unit, d.assetId⟩ (d.price grown)).map Asset.amount >>= fun x =>
        (.ok (uint128 (uint128 (x - unit) * uint128 rate) / hundredPercent) :
          Except LedgerError ℤ)) := by
    cases Asset.mul ⟨unit, d.assetId⟩ (d.price grown) with
    | ok a => rfl
    | error e => rfl
  rw [hmap]
  refine hmul.bind fun x => Matches.narrow_bind fun _ => Matches.narrow_bind fun hgain =>
    Matches.narrow_bind fun hrate => Matches.narrow_bind fun hx => ?_
  rw [uint128_of_contains hgain, uint128_of_contains hrate, uint128_of_contains hx]
  exact .ok _

theorem maxNeedPoolIn_matches (unit : ℤ) (nominal : Interest) (currentSupply : ℤ) :
    Matches (d.maxNeedPoolIn .trapping (fastPowOfInterest unit nominal d.maxPeriod)
      (currentSupply - d.interestPool)) (d.maxNeedPool unit nominal currentSupply) := by
  refine Matches.narrow_bind fun hquote => Matches.narrow_bind fun hbase =>
    Matches.narrow_bind fun hdeposit => ?_
  unfold maxNeedPool
  dsimp only
  rw [uint128_of_contains hquote, uint128_of_contains hbase, uint128_of_contains hdeposit]
  refine (matches_throwUnless Iff.rfl).bind fun _ => ?_
  refine Matches.narrow_bind fun hx => Matches.quotient_bind fun _ => Matches.narrow_bind fun hy =>
    Matches.narrow_bind fun _ => Matches.narrow_bind fun hz => ?_
  rw [uint128_of_contains hx, uint128_of_contains hy, uint128_of_contains hz]
  exact .ok _

/-- The part of the pool, together with the check that its divisor is not zero. -/
theorem actualProfileIn_matches (pre need : ℤ) :
    Matches (d.profileIn .trapping pre need >>= fun profile => d.actualProfileIn .trapping profile)
      (check .assertion (need ≠ 0) >>= fun _ => .ok (d.actualProfile pre need)) := by
  unfold profileIn
  simp only [bind_assoc]
  refine Matches.narrow_bind fun hpool => Matches.narrow_bind fun hx =>
    Matches.quotient_bind fun hneed => Matches.narrow_bind fun hy => ?_
  have hcheck : check LedgerError.assertion (need ≠ 0) = .ok () := if_pos hneed
  have hprofile : uint128 (uint128 (pre * uint128 d.interestPool) / need * d.profileScalePercent) =
      pre * d.interestPool / need * d.profileScalePercent := by
    rw [uint128_of_contains hpool, uint128_of_contains hx, uint128_of_contains hy]
  rw [hcheck]
  change Matches (d.actualProfileIn .trapping _) (.ok (d.actualProfile pre need))
  unfold actualProfile actualProfileIn
  dsimp only
  rw [hprofile]
  split
  · refine Matches.narrow_bind fun _ => Matches.narrow_bind fun hz => ?_
    rw [uint128_of_contains hpool, uint128_of_contains hz]
    exact matches_narrow fun h => Int.emod_eq_of_lt h.1 h.2
  · exact .ok _

/-- **`_get_interest`** computes what a run that does not trap computes. -/
theorem getInterestIn_matches (digits : ℕ) (currentSupply : ℤ) (lockPeriod : ℕ) :
    Matches (d.getInterestIn .trapping digits currentSupply lockPeriod >>= fun i => .ok (d.price i))
      (d.getInterest digits currentSupply lockPeriod) := by
  unfold getInterestIn getInterest preProfile
  simp only [bind_assoc]
  refine Matches.narrow_bind fun hlongest => ?_
  have hlongest' : ((d.maxPeriod * interestDay % 2 ^ 32 : ℕ) : ℤ) = d.maxPeriod * interestDay := by
    have hmod : ((d.maxPeriod * interestDay : ℕ) : ℤ) % 2 ^ 32 = d.maxPeriod * interestDay := by
      rw [Nat.cast_mul]
      exact Int.emod_eq_of_lt hlongest.1 hlongest.2
    exact_mod_cast hmod
  refine (matches_throwUnless ?_).bind fun _ => ?_
  · rw [← hlongest']
    exact Nat.cast_le
  refine Matches.narrow_bind fun _ => Matches.narrow_bind fun _ => Matches.narrow_bind fun _ =>
    Matches.narrow_bind fun _ => Matches.narrow_bind fun hnominal => ?_
  rw [int64_of_contains hnominal]
  refine (fastPowOfInterestIn_matches _ _ _).bind_ok ?_
  refine (d.rewardRateIn_matches _).bind fun rate => ?_
  refine (fastPowOfInterestIn_matches _ _ _).bind_ok ?_
  have hpre := d.preProfileIn_matches (interestUnit digits) rate
    (fastPowOfInterest (interestUnit digits) ⟨interestBaseSupply, d.nominalInterestPerday⟩
      (lockPeriod / interestDay))
  refine Matches.of_assoc (hpre.bind fun pre => ?_)
  refine (d.maxNeedPoolIn_matches _ _ _).bind fun need => ?_
  have hactual := d.actualProfileIn_matches pre need
  rw [← bind_assoc]
  refine Matches.of_assoc (k := fun actual => check .assertion (FitsShare (int64 actual + _)) >>=
    fun _ => pure (d.price ⟨_, int64 actual + _⟩)) (hactual.bind fun actual => ?_)
  refine Matches.narrow_bind fun _ => Matches.narrow_bind fun h => ?_
  rw [int64_of_contains h]
  exact (matches_throwUnless Iff.rfl).bind fun _ => .ok _

theorem getInterestIn_eq_ok {d : AssetLockData} {digits lockPeriod : ℕ} {currentSupply : ℤ}
    {i : Interest} (h : d.getInterestIn .trapping digits currentSupply lockPeriod = .ok i) :
    d.getInterest digits currentSupply lockPeriod = .ok (d.price i) := by
  refine (d.getInterestIn_matches digits currentSupply lockPeriod).eq_ok ?_
  rw [h]
  rfl

/-- **`get_profit`** computes what a run that does not trap computes. -/
theorem getProfitIn_matches (digits : ℕ) {currentSupply amount : ℤ} (period : ℕ)
    (hamount : FitsShare amount) (hpool : FitsShare d.interestPool) :
    Matches (d.getProfitIn .trapping digits currentSupply amount period)
      (d.profitOf digits currentSupply amount period) := by
  unfold getProfitIn profitOf
  have hcheck : check LedgerError.assertion (FitsShare amount ∧ FitsShare d.interestPool) = .ok () :=
    if_pos ⟨hamount, hpool⟩
  rw [hcheck]
  change Matches _ (d.getInterest digits currentSupply period >>= fun interest =>
    Asset.mul ⟨amount, d.assetId⟩ interest >>= fun total => pure (total.amount - amount))
  have hinterest := d.getInterestIn_matches digits currentSupply period
  cases hi : d.getInterestIn .trapping digits currentSupply period with
  | error stop =>
    rw [hi] at hinterest
    cases stop with
    | trapped => exact .trapped _
    | thrown e =>
      rw [hinterest.eq_thrown rfl]
      exact .thrown e
  | ok i =>
    rw [d.getInterestIn_eq_ok hi]
    have hmul : Matches (mulInterestIn .trapping amount i)
        ((Asset.mul ⟨amount, d.assetId⟩ (d.price i)).map Asset.amount) :=
      mulInterestIn_matches amount i
    change Matches (mulInterestIn .trapping amount i >>= fun total =>
      Arithmetic.trapping.narrow .int64 (total - amount)) (Asset.mul ⟨amount, d.assetId⟩ (d.price i) >>=
        fun total => pure (total.amount - amount))
    have hmap : (Asset.mul ⟨amount, d.assetId⟩ (d.price i) >>= fun total =>
        pure (total.amount - amount)) =
        ((Asset.mul ⟨amount, d.assetId⟩ (d.price i)).map Asset.amount >>= fun x =>
          (.ok (x - amount) : Except LedgerError ℤ)) := by
      cases Asset.mul ⟨amount, d.assetId⟩ (d.price i) with
      | ok a => rfl
      | error e => rfl
    rw [hmap]
    exact hmul.bind fun _ => matches_narrow fun _ => rfl

end AssetLockData

end FinChain.Ledger
