import FinChain.Lib.Loops
import FinChain.Ledger.InterestGrowth
import Mathlib.Algebra.Order.Field.Basic
import Mathlib.Data.Rat.Cast.Order

/-!
# Powers from below

`fast_pow_of_interest` of any precision. Its loop has no bound of its own: it goes on until the exponent is
used up (`fastPow_ends`). A product loses what does not divide evenly, twice, so that it is worth no more
than its factors; by induction over the bits of the exponent the power is worth no more than the exact one
(`ratio_powLoopOver_le`). Together with what is known about powers over the integers this makes it a lower
approximation of the exact power that grows with the exponent (`fastPow_lower`).
-/

namespace FinChain.Ledger

open Exec Machine

/-- `JRC_INTEREST_BASE_SUPPLY / GRAPHENE_BLOCKCHAIN_PRECISION * precision` -/
def unitOf (precision : ℕ) : ℤ := interestBaseSupply / 10 ^ 8 * precision

/-- What the loop of `fast_pow_of_interest` changes. -/
structure PowState where
  pow : ℕ
  curBase : Interest
  result : Interest

/-- `while (pow)`, with the body of the loop. -/
def powRound (A : Arithmetic) (precision : ℕ) (k : PowState) : Computed (PowState ⊕ Interest) :=
  if k.pow = 0 then return .inr k.result
  else do
    -- the base of every product is an asset, whose amount is an `int64_t`
    let unit ← A.narrow .uint64 (unitOf precision)
    let unit ← A.narrow .int64 unit
    let result ← timesBit A unit (k.pow % 2) k.curBase k.result
    let curBase ← multiplyOfInterestIn A unit k.curBase k.curBase
    return .inl ⟨k.pow / 2, curBase, result⟩

/-- The loop, for so many rounds. -/
def powRounds (A : Arithmetic) (precision : ℕ) : ℕ → PowState → EStateM (Stop LedgerError) Unit Interest
  | 0, k => pure k.result
  | rounds + 1, k => lift (powRound A precision k) >>= Sum.elim (powRounds A precision rounds) pure

/-- `fast_pow_of_interest( in, pow, precision )`, which starts from a price of one. -/
def fastPow (A : Arithmetic) (rate : Interest) (pow precision : ℕ) : EStateM (Stop LedgerError) Unit Interest :=
  powRounds A precision 32 ⟨pow, rate, ⟨1, 1⟩⟩

/-- Quote per base. -/
def Interest.ratio (i : Interest) : ℚ := i.quote / i.base

/-! ### The loop comes to an end -/

section Ends

variable {A : Arithmetic} {precision : ℕ}

theorem powRounds_unrolls : Unrolls (powRounds A precision) fun k => lift (powRound A precision k) :=
  fun _ _ => rfl

theorem powRound_next {k k' : PowState} (h : powRound A precision k = .ok (.inl k')) :
    k.pow ≠ 0 ∧ k'.pow = k.pow / 2 := by
  unfold powRound at h
  by_cases hpow : k.pow = 0
  · rw [if_pos hpow] at h
    cases h
  rw [if_neg hpow] at h
  obtain ⟨_, -, h⟩ := except_bind_eq_ok.mp h
  obtain ⟨_, -, h⟩ := except_bind_eq_ok.mp h
  obtain ⟨_, -, h⟩ := except_bind_eq_ok.mp h
  obtain ⟨_, -, h⟩ := except_bind_eq_ok.mp h
  cases h
  exact ⟨hpow, rfl⟩

/-- Every round uses up a bit of the exponent, so that 32 rounds are enough. -/
theorem fastPow_ends (rate : Interest) {pow : ℕ} (hpow : pow < 2 ^ 32) :
    Ends (fun k => lift (powRound A precision k)) ⟨pow, rate, ⟨1, 1⟩⟩ () (fastPow A rate pow precision ()) := by
  refine powRounds_unrolls.ends_of_rank (I := fun _ _ => True) (fun k _ => rounds k.pow) ?_ ?_ trivial ?_
  · intro k s k' s' _ h
    have hround : powRound A precision k = .ok (.inl k') := by
      revert h
      cases powRound A precision k with
      | ok next => exact fun h => by cases h; rfl
      | error e => exact fun h => by cases h
    obtain ⟨hne, hhalf⟩ := powRound_next hround
    show True ∧ rounds k'.pow < rounds k.pow
    rw [hhalf, rounds_of_ne_zero hne]
    exact ⟨trivial, Nat.lt_succ_self _⟩
  · intro k s _ hzero
    have hpow : k.pow = 0 := by
      by_contra hne
      rw [rounds_of_ne_zero hne] at hzero
      exact absurd hzero (Nat.succ_ne_zero _)
    refine .done ?_
    rw [powRound, if_pos hpow]
    rfl
  · exact Nat.digits_length_le_iff one_lt_two pow |>.mpr hpow

end Ends

/-! ### What the loop computes -/

section Computes

variable {precision : ℕ} {unit : ℤ} {c r : Interest}

theorem lift_bind {α β : Type} (x : Computed α) (f : α → Computed β) :
    (lift (x >>= f) : EStateM (Stop LedgerError) Unit β) = lift x >>= fun a => lift (f a) := by
  cases x with
  | ok a => rfl
  | error e => rfl

/-- With a unit that fits, the rounds are those of the loop with the unit given. -/
theorem powRounds_eq (hunit : IntType.int64.Contains (unitOf precision)) (rounds pow : ℕ) :
    powRounds .trapping precision rounds ⟨pow, c, r⟩ =
      lift (powLoopIn .trapping (unitOf precision) rounds pow c r) := by
  have hunit64 : IntType.uint64.Contains (unitOf precision) := by
    have hnonneg : 0 ≤ unitOf precision := mul_nonneg (by decide) (Int.natCast_nonneg _)
    exact ⟨hnonneg, hunit.2.trans (by decide)⟩
  induction rounds generalizing pow c r with
  | zero => rfl
  | succ rounds ih =>
    unfold powRounds powRound powLoopIn
    by_cases hpow : pow = 0
    · simp only [hpow, if_true]
      rfl
    · simp only [hpow, if_false, narrow_bind hunit64, narrow_bind hunit, lift_bind, bind_assoc]
      congr 1
      funext result
      congr 1
      funext curBase
      exact ih _

/-- Where the computation does not trap, it computes the power over the integers, and so does the
computation in machine integers. -/
theorem fastPow_computes (hprecision : 0 < precision) {rate : Interest} (hrate : rate.Growing) {pow : ℕ}
    (hok : fastPow .trapping rate pow precision () ≠ .error .trapped ()) :
    fastPow .trapping rate pow precision () = .ok (fastPowOver (unitOf precision) rate pow) () ∧
      fastPowOfInterest (unitOf precision) rate pow = fastPowOver (unitOf precision) rate pow := by
  have hunit : unitOf precision ≠ 0 := by
    have hpos : (0 : ℤ) < precision := Int.natCast_pos.mpr hprecision
    exact (mul_pos (by decide) hpos).ne'
  by_cases hpow : pow = 0
  · -- nothing is computed
    subst hpow
    rw [fastPow, powRounds, powRound, if_pos rfl, fastPowOfInterest, powLoop, if_pos rfl, fastPowOver, powLoopOver_zero]
    exact ⟨rfl, rfl⟩
  by_cases hfits : IntType.int64.Contains (unitOf precision)
  · rw [fastPow, powRounds_eq hfits] at hok ⊢
    have hagrees := powLoopIn_agrees .exact (unitOf precision) 32 pow rate ⟨1, 1⟩
    have hexact := fastPowOfInterestIn_exact hunit hrate.base_pos.ne' pow
    have htrap : powLoopIn .trapping (unitOf precision) 32 pow rate ⟨1, 1⟩ ≠ .error .trapped := by
      intro h
      rw [h] at hok
      exact hok rfl
    have hrun : powLoopIn .trapping (unitOf precision) 32 pow rate ⟨1, 1⟩ =
        .ok (fastPowOver (unitOf precision) rate pow) := (hagrees htrap).symm.trans hexact
    have hmatches := (fastPowOfInterestIn_matches (unitOf precision) rate pow).eq_ok hrun
    rw [hrun]
    exact ⟨rfl, Except.ok.inj hmatches⟩
  · -- the first round needs the unit
    refine absurd ?_ hok
    have hround : powRound .trapping precision ⟨pow, rate, ⟨1, 1⟩⟩ = .error .trapped := by
      unfold powRound
      simp only [hpow, if_false]
      by_cases h64 : IntType.uint64.Contains (unitOf precision)
      · rw [narrow_bind h64, narrow_trapping_bind_of_not hfits]
      · rw [narrow_trapping_bind_of_not h64]
    rw [fastPow, powRounds, bind_apply, hround]
    rfl

end Computes

/-! ### Below the exact power -/

section Below

variable {unit : ℤ} {a b c r : Interest}

theorem Interest.Growing.one_le_ratio (hc : c.Growing) : 1 ≤ c.ratio :=
  (one_le_div (Int.cast_pos.mpr hc.base_pos)).mpr (Int.cast_le.mpr hc.base_le)

/-- A quotient rounded down is no more than the quotient. -/
theorem cast_ediv_le {x y : ℤ} (hy : 0 < y) : ((x / y : ℤ) : ℚ) ≤ x / y := by
  rw [le_div_iff₀ (Int.cast_pos.mpr hy), ← Int.cast_mul]
  exact Int.cast_le.mpr (Int.ediv_mul_le x hy.ne')

theorem ratio_times_le (hunit : 0 < unit) (ha : 0 < a.base) (hb : 0 < b.base) (hquote : 0 ≤ b.quote) :
    (a.times unit b).ratio ≤ a.ratio * b.ratio := by
  have hunit' : (0 : ℚ) < unit := Int.cast_pos.mpr hunit
  have hb' : (0 : ℚ) < b.base := Int.cast_pos.mpr hb
  have hfactor : (0 : ℚ) ≤ b.quote := Int.cast_nonneg hquote
  have hworth : (a.worth unit : ℚ) ≤ unit * a.ratio := by
    calc (a.worth unit : ℚ) ≤ ((unit * a.quote : ℤ) : ℚ) / a.base := cast_ediv_le ha
      _ = unit * a.ratio := by rw [Int.cast_mul, mul_div_assoc]; rfl
  have hproduct : ((a.times unit b).quote : ℚ) ≤ unit * (a.ratio * b.ratio) := by
    calc ((a.times unit b).quote : ℚ) ≤ ((a.worth unit * b.quote : ℤ) : ℚ) / b.base := cast_ediv_le hb
      _ = a.worth unit * b.ratio := by rw [Int.cast_mul, mul_div_assoc]; rfl
      _ ≤ unit * a.ratio * b.ratio := mul_le_mul_of_nonneg_right hworth (div_nonneg hfactor hb'.le)
      _ = unit * (a.ratio * b.ratio) := mul_assoc _ _ _
  show ((a.times unit b).quote : ℚ) / unit ≤ _
  rwa [div_le_iff₀ hunit', mul_comm]

/-- Every round keeps the result times the remaining power below what it was. -/
theorem ratio_powLoopOver_le (hunit : 0 < unit) (hc : c.Growing) (hr : 0 < r.base) (hquote : 0 ≤ r.quote)
    (fuel pow : ℕ) : (powLoopOver unit fuel pow c r).ratio ≤ r.ratio * c.ratio ^ pow := by
  have hratio : ∀ {i : Interest}, 0 < i.base → 0 ≤ i.quote → 0 ≤ i.ratio := fun hbase hquote =>
    div_nonneg (Int.cast_nonneg hquote) (Int.cast_pos.mpr hbase).le
  induction fuel generalizing pow c r with
  | zero => exact le_mul_of_one_le_right (hratio hr hquote) (one_le_pow₀ hc.one_le_ratio)
  | succ fuel ih =>
    by_cases hpow : pow = 0
    · rw [hpow, powLoopOver_zero, pow_zero, mul_one]
    rw [powLoopOver_succ hpow]
    have hcquote : 0 ≤ c.quote := hc.base_pos.le.trans hc.base_le
    have hsquare := hc.square hunit
    have hsquared : (c.times unit c).ratio ≤ c.ratio ^ 2 := by
      rw [sq]
      exact ratio_times_le hunit hc.base_pos hc.base_pos hcquote
    -- the lowest bit goes into the result
    have hbit : (timesBitOver unit (pow % 2) c r).ratio ≤ r.ratio * c.ratio ^ (pow % 2) ∧
        0 < (timesBitOver unit (pow % 2) c r).base ∧ 0 ≤ (timesBitOver unit (pow % 2) c r).quote := by
      rcases Nat.mod_two_eq_zero_or_one pow with hbit | hbit
      · rw [hbit, timesBitOver_zero, pow_zero, mul_one]
        exact ⟨le_rfl, hr, hquote⟩
      · rw [hbit, timesBitOver_one, pow_one]
        refine ⟨ratio_times_le hunit hr hc.base_pos hcquote, hunit, Int.ediv_nonneg ?_ hc.base_pos.le⟩
        exact mul_nonneg (Int.ediv_nonneg (mul_nonneg hunit.le hquote) hr.le) hcquote
    obtain ⟨hresult, hbase, hnonneg⟩ := hbit
    have hcratio : 0 ≤ c.ratio := zero_le_one.trans hc.one_le_ratio
    have hsratio : 0 ≤ (c.times unit c).ratio := zero_le_one.trans hsquare.one_le_ratio
    calc (powLoopOver unit fuel (pow / 2) (c.times unit c) (timesBitOver unit (pow % 2) c r)).ratio
        ≤ (timesBitOver unit (pow % 2) c r).ratio * (c.times unit c).ratio ^ (pow / 2) :=
          ih hsquare hbase hnonneg _
      _ ≤ r.ratio * c.ratio ^ (pow % 2) * (c.ratio ^ 2) ^ (pow / 2) :=
          mul_le_mul hresult (pow_le_pow_left₀ hsratio hsquared _) (pow_nonneg hsratio _)
            (mul_nonneg (hratio hr hquote) (pow_nonneg hcratio _))
      _ = r.ratio * c.ratio ^ pow := by
          rw [mul_assoc, ← pow_mul, ← pow_add, Nat.mod_add_div]

/-- The worth of a power is its ratio, in units. -/
theorem ratio_fastPowOver (hunit : 0 < unit) {pow : ℕ} (hpow : pow < 2 ^ 32) :
    (fastPowOver unit c pow).ratio = (fastPowOver unit c pow).worth unit / unit := by
  by_cases h : pow = 0
  · subst h
    show (⟨1, 1⟩ : Interest).ratio = ((⟨1, 1⟩ : Interest).worth unit : ℚ) / unit
    rw [worth_one, div_self (Int.cast_ne_zero.mpr hunit.ne')]
    simp [Interest.ratio]
  · rw [Interest.ratio, Interest.worth, base_fastPowOver hpow h, Int.mul_ediv_cancel_left _ hunit.ne']

end Below

/-- **A lower approximation.** For every rate of at least one, every exponent and every precision for which no number
leaves its type the loop comes to an end; it computes a ratio that is at least one and at most the exact power, and no more than the
ratio for any larger exponent. -/
theorem fastPow_lower {precision : ℕ} (hprecision : 0 < precision) {rate : Interest} (hrate : rate.Growing)
    {pow : ℕ} (hpow : pow < 2 ^ 32) (hfits : fastPow .trapping rate pow precision () ≠ .error .trapped ()) :
    ∃ result, Ends (fun k => lift (powRound .trapping precision k)) ⟨pow, rate, ⟨1, 1⟩⟩ () (.ok result ()) ∧
      fastPowOfInterest (unitOf precision) rate pow = result ∧
      1 ≤ result.ratio ∧ result.ratio ≤ rate.ratio ^ pow ∧
      ∀ pow' result', pow ≤ pow' → pow' < 2 ^ 32 → fastPow .trapping rate pow' precision () = .ok result' () →
        result.ratio ≤ result'.ratio := by
  have hunit : 0 < unitOf precision := mul_pos (by decide) (Int.natCast_pos.mpr hprecision)
  have hunit' : (0 : ℚ) < unitOf precision := Int.cast_pos.mpr hunit
  obtain ⟨hrun, hmachine⟩ := fastPow_computes hprecision hrate hfits
  refine ⟨fastPowOver (unitOf precision) rate pow, ?_, hmachine, ?_, ?_, ?_⟩
  · have hends : Ends (fun k => lift (powRound .trapping precision k)) _ () _ := fastPow_ends rate hpow
    rwa [hrun] at hends
  · rw [ratio_fastPowOver hunit hpow, one_le_div hunit']
    exact Int.cast_le.mpr (le_worth_fastPowOver hrate hunit pow)
  · have hle := ratio_powLoopOver_le hunit hrate (r := ⟨1, 1⟩) one_pos zero_le_one 32 pow
    have hone : (⟨1, 1⟩ : Interest).ratio = 1 := by
      simp [Interest.ratio]
    rwa [hone, one_mul] at hle
  · intro pow' result' hle hpow' hrun'
    have hcomputes := (fastPow_computes hprecision hrate (by rw [hrun']; exact fun h => by cases h)).1
    rw [hrun'] at hcomputes
    obtain rfl : result' = fastPowOver (unitOf precision) rate pow' := by
      cases hcomputes
      rfl
    rw [ratio_fastPowOver hunit hpow, ratio_fastPowOver hunit hpow']
    exact div_le_div_of_nonneg_right (Int.cast_le.mpr (fastPowOver_mono hrate hunit hle hpow')) hunit'.le

/-- A rate of one and a half, three times, without decimals: 3.375. -/
theorem fastPow_lower_threeTimes :
    ∃ result, Ends (fun k => lift (powRound .trapping 1 k)) ⟨3, ⟨2, 3⟩, ⟨1, 1⟩⟩ () (.ok result ()) ∧
      fastPowOfInterest (unitOf 1) ⟨2, 3⟩ 3 = result ∧
      1 ≤ result.ratio ∧ result.ratio ≤ Interest.ratio ⟨2, 3⟩ ^ 3 ∧
      ∀ pow' result', 3 ≤ pow' → pow' < 2 ^ 32 → fastPow .trapping ⟨2, 3⟩ pow' 1 () = .ok result' () →
        result.ratio ≤ result'.ratio := by
  have hrun : (fastPow .trapping ⟨2, 3⟩ 3 1).run' () = some ⟨10000, 33750⟩ := by decide
  refine fastPow_lower one_pos ⟨by decide, by decide⟩ (by decide) ?_
  rw [ok_final_of_run' hrun]
  exact fun h => by cases h

end FinChain.Ledger
