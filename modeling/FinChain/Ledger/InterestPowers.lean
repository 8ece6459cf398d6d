import FinChain.Ledger.InterestArithmetic
import Mathlib.Data.Nat.Digits.Lemmas

/-!
# Powers of the interest

`fast_pow_of_interest` over the integers (`fastPowOver`). An `Interest` is worth so many of a fixed
number of units; a product is rounded down in every step. Three facts about a rate of at least one:

* the running result is never worth more than the running square, so the largest number that is
  formed is the last square, and the loop traps if and only if this one does not fit
  (`fastPowOfInterestIn_trapping`);
* every power is worth at least one (`le_worth_fastPowOver`);
* a larger exponent gives a power that is worth at least as much (`fastPowOver_mono`), although the
  two are rounded in different places.

With a rate below one nothing grows, and every power is worth less than one
(`fastPowOfInterestIn_shrinking`).
-/

namespace FinChain.Ledger

open Exec Machine

/-! ### Over the integers -/

/-- What an interest is worth, in units of which it takes so many for a rate of one. -/
def Interest.worth (unit : ℤ) (i : Interest) : ℤ := unit * i.quote / i.base

/-- `multiply_of_interest`, over the integers. -/
def Interest.times (unit : ℤ) (a b : Interest) : Interest := ⟨unit, a.worth unit * b.quote / b.base⟩

/-- The result after a bit of the exponent. -/
def timesBitOver (unit : ℤ) (bit : ℕ) (c r : Interest) : Interest :=
  if bit = 1 then r.times unit c else r

/-- The loop of `fast_pow_of_interest`, over the integers. -/
def powLoopOver (unit : ℤ) : ℕ → (pow : ℕ) → (c r : Interest) → Interest
  | 0, _, _, r => r
  | fuel + 1, pow, c, r =>
    if pow = 0 then r
    else powLoopOver unit fuel (pow / 2) (c.times unit c) (timesBitOver unit (pow % 2) c r)

/-- `fast_pow_of_interest`, over the integers. -/
def fastPowOver (unit : ℤ) (rate : Interest) (pow : ℕ) : Interest :=
  powLoopOver unit 32 pow rate ⟨1, 1⟩

/-- A rate after so many squarings. -/
def squaredOver (unit : ℤ) (k : ℕ) (c : Interest) : Interest := (fun i => i.times unit i)^[k] c

section Products

variable {unit : ℤ} {a b c r : Interest}

theorem worth_times (hunit : 0 < unit) : (a.times unit b).worth unit = (a.times unit b).quote :=
  Int.mul_ediv_cancel_left _ hunit.ne'

theorem squaredOver_succ (k : ℕ) : squaredOver unit (k + 1) c = squaredOver unit k (c.times unit c) :=
  Function.iterate_succ_apply _ k c

/-- A rate of at least one. -/
structure Interest.Growing (c : Interest) : Prop where
  base_pos : 0 < c.base
  base_le : c.base ≤ c.quote

namespace Interest.Growing

theorem unit_le_worth (hc : c.Growing) (hunit : 0 < unit) : unit ≤ c.worth unit :=
  (Int.le_ediv_iff_mul_le hc.base_pos).mpr (mul_le_mul_of_nonneg_left hc.base_le hunit.le)

/-- A product is worth at least its first factor. -/
theorem worth_le_times (hc : c.Growing) (hr : 0 ≤ r.worth unit) :
    r.worth unit ≤ (r.times unit c).quote :=
  (Int.le_ediv_iff_mul_le hc.base_pos).mpr (mul_le_mul_of_nonneg_left hc.base_le hr)

/-- A product with a factor of at least one is worth at least the other factor. -/
theorem worth_le_times_of_unit_le (hc : c.Growing) (hr : unit ≤ r.worth unit) :
    c.worth unit ≤ (r.times unit c).quote := by
  have hquote : 0 ≤ c.quote := hc.base_pos.le.trans hc.base_le
  exact Int.ediv_le_ediv hc.base_pos (mul_le_mul_of_nonneg_right hr hquote)

theorem times_mono (hc : c.Growing) (h : a.worth unit ≤ b.worth unit) :
    (a.times unit c).quote ≤ (b.times unit c).quote := by
  have hquote : 0 ≤ c.quote := hc.base_pos.le.trans hc.base_le
  exact Int.ediv_le_ediv hc.base_pos (mul_le_mul_of_nonneg_right h hquote)

theorem square (hc : c.Growing) (hunit : 0 < unit) : (c.times unit c).Growing := by
  refine ⟨hunit, ?_⟩
  have hworth := hc.unit_le_worth hunit
  exact hworth.trans (hc.worth_le_times (hunit.le.trans hworth))

theorem worth_le_square (hc : c.Growing) (hunit : 0 < unit) :
    c.worth unit ≤ (c.times unit c).worth unit := by
  rw [worth_times hunit]
  exact hc.worth_le_times (hunit.le.trans (hc.unit_le_worth hunit))

theorem quote_le_squared (hc : c.Growing) (hbase : c.base = unit) (k : ℕ) :
    c.quote ≤ (squaredOver unit k c).quote := by
  have hunit : 0 < unit := hbase ▸ hc.base_pos
  induction k generalizing c with
  | zero => exact le_rfl
  | succ k ih =>
    rw [squaredOver_succ]
    have hworth : c.worth unit = c.quote := by
      unfold worth
      rw [hbase, Int.mul_ediv_cancel_left _ hunit.ne']
    calc c.quote = c.worth unit := hworth.symm
      _ ≤ (c.times unit c).quote := hc.worth_le_times (hunit.le.trans (hc.unit_le_worth hunit))
      _ ≤ _ := ih (hc.square hunit) rfl

end Interest.Growing

end Products

/-! ### Larger exponents -/

section Powers

variable {unit : ℤ} {c r r' : Interest}

theorem timesBitOver_one : timesBitOver unit 1 c r = r.times unit c := if_pos rfl

theorem timesBitOver_zero : timesBitOver unit 0 c r = r := if_neg Nat.zero_ne_one

theorem powLoopOver_zero (fuel : ℕ) : powLoopOver unit fuel 0 c r = r := by
  cases fuel with
  | zero => rfl
  | succ fuel => exact if_pos rfl

theorem powLoopOver_succ {fuel pow : ℕ} (h : pow ≠ 0) : powLoopOver unit (fuel + 1) pow c r =
    powLoopOver unit fuel (pow / 2) (c.times unit c) (timesBitOver unit (pow % 2) c r) :=
  if_neg h

theorem worth_timesBitOver_le (hc : c.Growing) (hunit : 0 < unit) (hr : r.worth unit ≤ c.worth unit)
    (bit : ℕ) : (timesBitOver unit bit c r).worth unit ≤ (c.times unit c).worth unit := by
  unfold timesBitOver
  split
  · rw [worth_times hunit, worth_times hunit]
    exact hc.times_mono hr
  · exact hr.trans (hc.worth_le_square hunit)

theorem unit_le_worth_timesBitOver (hc : c.Growing) (hunit : 0 < unit) (hr : unit ≤ r.worth unit)
    (bit : ℕ) : unit ≤ (timesBitOver unit bit c r).worth unit := by
  unfold timesBitOver
  split
  · rw [worth_times hunit]
    exact hr.trans (hc.worth_le_times (hunit.le.trans hr))
  · exact hr

theorem le_worth_powLoopOver (hc : c.Growing) (hunit : 0 < unit) (hr : unit ≤ r.worth unit)
    (fuel pow : ℕ) : unit ≤ (powLoopOver unit fuel pow c r).worth unit := by
  induction fuel generalizing pow c r with
  | zero => exact hr
  | succ fuel ih =>
    by_cases hpow : pow = 0
    · rw [hpow, powLoopOver_zero]
      exact hr
    · rw [powLoopOver_succ hpow]
      exact ih (hc.square hunit) (unit_le_worth_timesBitOver hc hunit hr _) _

/-- The same exponent. -/
theorem powLoopOver_mono_result (hc : c.Growing) (hunit : 0 < unit)
    (hr : r.worth unit ≤ r'.worth unit) (fuel pow : ℕ) :
    (powLoopOver unit fuel pow c r).worth unit ≤ (powLoopOver unit fuel pow c r').worth unit := by
  induction fuel generalizing pow c r r' with
  | zero => exact hr
  | succ fuel ih =>
    by_cases hpow : pow = 0
    · rw [hpow, powLoopOver_zero, powLoopOver_zero]
      exact hr
    · rw [powLoopOver_succ hpow, powLoopOver_succ hpow]
      refine ih (hc.square hunit) ?_ _
      unfold timesBitOver
      split
      · rw [worth_times hunit, worth_times hunit]
        exact hc.times_mono hr
      · exact hr

/-- **A larger exponent**: at the highest bit in which the two differ, the smaller result is below
the square that the other one is multiplied with. -/
theorem powLoopOver_mono (hc : c.Growing) (hunit : 0 < unit) (hr : r.worth unit ≤ c.worth unit)
    (hr' : unit ≤ r'.worth unit) {fuel pow pow' : ℕ} (hlt : pow < pow') (hfuel : pow' < 2 ^ fuel) :
    (powLoopOver unit fuel pow c r).worth unit ≤ (powLoopOver unit fuel pow' c r').worth unit := by
  induction fuel generalizing pow pow' c r r' with
  | zero =>
    rw [pow_zero] at hfuel
    exact absurd hlt (by omega)
  | succ fuel ih =>
    have hpow' : pow' ≠ 0 := by omega
    have hhalf : pow' / 2 < 2 ^ fuel := by
      rw [pow_succ] at hfuel
      omega
    have hround : powLoopOver unit (fuel + 1) pow c r =
        powLoopOver unit fuel (pow / 2) (c.times unit c) (timesBitOver unit (pow % 2) c r) := by
      by_cases hpow : pow = 0
      · rw [hpow, powLoopOver_zero, Nat.zero_div, powLoopOver_zero]
        rfl
      · exact powLoopOver_succ hpow
    rw [hround, powLoopOver_succ hpow']
    rcases Nat.lt_or_ge (pow / 2) (pow' / 2) with hless | hge
    · exact ih (hc.square hunit) (worth_timesBitOver_le hc hunit hr _)
        (unit_le_worth_timesBitOver hc hunit hr' _) hless hhalf
    · -- only the lowest bit differs
      have hbits : pow / 2 = pow' / 2 ∧ pow % 2 = 0 ∧ pow' % 2 = 1 := by omega
      rw [hbits.1, hbits.2.1, hbits.2.2, timesBitOver_zero, timesBitOver_one]
      refine powLoopOver_mono_result (hc.square hunit) hunit ?_ _ _
      rw [worth_times hunit]
      exact hr.trans (hc.worth_le_times_of_unit_le hr')

end Powers

section FastPow

variable {unit : ℤ} {rate : Interest}

theorem worth_one : (⟨1, 1⟩ : Interest).worth unit = unit := by
  unfold Interest.worth
  rw [mul_one, Int.ediv_one]

theorem le_worth_fastPowOver (hrate : rate.Growing) (hunit : 0 < unit) (pow : ℕ) :
    unit ≤ (fastPowOver unit rate pow).worth unit :=
  le_worth_powLoopOver hrate hunit worth_one.ge 32 pow

theorem fastPowOver_mono (hrate : rate.Growing) (hunit : 0 < unit) {pow pow' : ℕ} (hle : pow ≤ pow')
    (hpow' : pow' < 2 ^ 32) :
    (fastPowOver unit rate pow).worth unit ≤ (fastPowOver unit rate pow').worth unit := by
  rcases Nat.lt_or_eq_of_le hle with hlt | rfl
  · have hone : (⟨1, 1⟩ : Interest).worth unit ≤ rate.worth unit := by
      rw [worth_one]
      exact hrate.unit_le_worth hunit
    exact powLoopOver_mono hrate hunit hone worth_one.ge hlt hpow'
  · exact le_rfl

end FastPow

/-! ### The exact run -/

theorem multiplyOfInterestIn_exact {unit : ℤ} {a b : Interest} (ha : a.base ≠ 0) (hb : b.base ≠ 0) :
    multiplyOfInterestIn .exact unit a b = .ok (a.times unit b) := by
  unfold multiplyOfInterestIn
  simp only [Arithmetic.narrow, ok_bind, quotient_bind ha, quotient_bind hb]
  rfl

theorem powLoopIn_exact {unit : ℤ} (hunit : unit ≠ 0) (fuel pow : ℕ) {c r : Interest}
    (hc : c.base ≠ 0) (hr : r.base ≠ 0) :
    powLoopIn .exact unit fuel pow c r = .ok (powLoopOver unit fuel pow c r) := by
  induction fuel generalizing pow c r with
  | zero => rfl
  | succ fuel ih =>
    unfold powLoopIn powLoopOver
    by_cases hpow : pow = 0
    · rw [if_pos hpow, if_pos hpow]
      rfl
    rw [if_neg hpow, if_neg hpow]
    have hbit : timesBit .exact unit (pow % 2) c r = .ok (timesBitOver unit (pow % 2) c r) := by
      unfold timesBit timesBitOver
      split
      · exact multiplyOfInterestIn_exact hr hc
      · rfl
    have hbase : (timesBitOver unit (pow % 2) c r).base ≠ 0 := by
      unfold timesBitOver
      split
      · exact hunit
      · exact hr
    rw [hbit, ok_bind, multiplyOfInterestIn_exact hc hc, ok_bind]
    exact ih _ hunit hbase

theorem fastPowOfInterestIn_exact {unit : ℤ} (hunit : unit ≠ 0) {rate : Interest}
    (hrate : rate.base ≠ 0) (pow : ℕ) :
    fastPowOfInterestIn .exact unit rate pow = .ok (fastPowOver unit rate pow) :=
  powLoopIn_exact hunit 32 pow hrate one_ne_zero

/-! ### The trapping run -/

/-- The amounts of an interest fit, and the base is not zero. -/
structure Interest.Fits (i : Interest) : Prop where
  base_pos : 0 < i.base
  base_lt : i.base < 2 ^ 63
  quote_nonneg : 0 ≤ i.quote
  quote_lt : i.quote < 2 ^ 63

section Trapping

variable {unit : ℤ} {a b c r : Interest}

theorem Interest.Fits.worth_nonneg (ha : a.Fits) (hunit : 0 < unit) : 0 ≤ a.worth unit :=
  Int.ediv_nonneg (mul_nonneg hunit.le ha.quote_nonneg) ha.base_pos.le

theorem Interest.Fits.times_nonneg (ha : a.Fits) (hb : b.Fits) (hunit : 0 < unit) :
    0 ≤ (a.times unit b).quote :=
  Int.ediv_nonneg (mul_nonneg (ha.worth_nonneg hunit) hb.quote_nonneg) hb.base_pos.le

theorem uint128_contains {x : ℤ} (h : 0 ≤ x) (hlt : x < 2 ^ 64) : IntType.uint128.Contains x :=
  ⟨h, hlt.trans (by decide)⟩

/-- **A product** traps if and only if it does not fit: nothing before it can be too large. -/
theorem multiplyOfInterestIn_trapping (hunit : 0 < unit) (hunit' : unit ≤ 10 ^ 16) (ha : a.Fits)
    (hb : b.Fits) : multiplyOfInterestIn .trapping unit a b =
      if (a.times unit b).quote < 2 ^ 63 then .ok (a.times unit b) else .error .trapped := by
  have haq : IntType.uint128.Contains a.quote :=
    uint128_contains ha.quote_nonneg (ha.quote_lt.trans (by decide))
  have hab : IntType.uint128.Contains a.base :=
    uint128_contains ha.base_pos.le (ha.base_lt.trans (by decide))
  have hbq : IntType.uint128.Contains b.quote :=
    uint128_contains hb.quote_nonneg (hb.quote_lt.trans (by decide))
  have hbb : IntType.uint128.Contains b.base :=
    uint128_contains hb.base_pos.le (hb.base_lt.trans (by decide))
  have hfirst : IntType.uint128.Contains (unit * a.quote) := by
    refine ⟨mul_nonneg hunit.le ha.quote_nonneg, ?_⟩
    calc unit * a.quote ≤ 10 ^ 16 * a.quote := mul_le_mul_of_nonneg_right hunit' ha.quote_nonneg
      _ ≤ 10 ^ 16 * 2 ^ 63 := mul_le_mul_of_nonneg_left ha.quote_lt.le (by decide)
      _ < 2 ^ 128 := by decide
  have hworth := ha.worth_nonneg hunit
  have hproduct : 0 ≤ a.worth unit * b.quote := mul_nonneg hworth hb.quote_nonneg
  have hnonneg := ha.times_nonneg hb hunit
  unfold multiplyOfInterestIn
  rw [narrow_bind haq, narrow_bind hab, narrow_bind hbq, narrow_bind hbb, narrow_bind hfirst,
    quotient_bind ha.base_pos.ne']
  change (Arithmetic.trapping.narrow .uint128 (a.worth unit * b.quote) >>= _) = _
  by_cases hfits : (a.times unit b).quote < 2 ^ 63
  · have hsecond : IntType.uint128.Contains (a.worth unit * b.quote) := by
      refine ⟨hproduct, ?_⟩
      have hlt : a.worth unit * b.quote < 2 ^ 63 * b.base :=
        (Int.ediv_lt_iff_lt_mul hb.base_pos).mp hfits
      calc a.worth unit * b.quote < 2 ^ 63 * b.base := hlt
        _ ≤ 2 ^ 63 * 2 ^ 63 := mul_le_mul_of_nonneg_left hb.base_lt.le (by decide)
        _ < 2 ^ 128 := by decide
    rw [if_pos hfits, narrow_bind hsecond, quotient_bind hb.base_pos.ne']
    change (Arithmetic.trapping.narrow .uint64 (a.times unit b).quote >>= _) = _
    have h64 : IntType.uint64.Contains (a.times unit b).quote := ⟨hnonneg, hfits.trans (by decide)⟩
    have h63 : IntType.int64.Contains (a.times unit b).quote :=
      ⟨le_trans (by decide) hnonneg, hfits⟩
    rw [narrow_bind h64, narrow_bind h63]
    rfl
  · rw [if_neg hfits]
    by_cases hsecond : IntType.uint128.Contains (a.worth unit * b.quote)
    · rw [narrow_bind hsecond, quotient_bind hb.base_pos.ne']
      change (Arithmetic.trapping.narrow .uint64 (a.times unit b).quote >>= _) = _
      by_cases h64 : IntType.uint64.Contains (a.times unit b).quote
      · rw [narrow_bind h64, narrow_trapping_bind_of_not fun h => hfits h.2]
      · rw [narrow_trapping_bind_of_not h64]
    · rw [narrow_trapping_bind_of_not hsecond]

theorem Interest.Fits.times (ha : a.Fits) (hb : b.Fits) (hunit : 0 < unit) (hunit' : unit ≤ 10 ^ 16)
    (h : (a.times unit b).quote < 2 ^ 63) : (a.times unit b).Fits :=
  ⟨hunit, hunit'.trans_lt (by decide), ha.times_nonneg hb hunit, h⟩

/-- The number of rounds: as many as the exponent has binary digits. -/
def rounds (pow : ℕ) : ℕ := (Nat.digits 2 pow).length

theorem rounds_zero : rounds 0 = 0 := rfl

theorem rounds_of_ne_zero {pow : ℕ} (h : pow ≠ 0) : rounds pow = rounds (pow / 2) + 1 := by
  unfold rounds
  rw [Nat.digits_def' one_lt_two (Nat.pos_of_ne_zero h), List.length_cons]

theorem rounds_mono {pow pow' : ℕ} (h : pow ≤ pow') : rounds pow ≤ rounds pow' :=
  Nat.le_length_digits_le 2 _ _ h

/-- **The loop** traps if and only if the last square does not fit. -/
theorem powLoopIn_trapping (hunit : 0 < unit) (hunit' : unit ≤ 10 ^ 16) {fuel pow : ℕ}
    (hfuel : pow < 2 ^ fuel) (hc : c.Growing) (hfits : c.Fits) (hr : r.Fits)
    (hle : r.worth unit ≤ c.worth unit) : powLoopIn .trapping unit fuel pow c r =
      if (squaredOver unit (rounds pow) c).quote < 2 ^ 63 then .ok (powLoopOver unit fuel pow c r)
      else .error .trapped := by
  induction fuel generalizing pow c r with
  | zero =>
    have hzero : pow = 0 := by
      rw [pow_zero] at hfuel
      omega
    rw [hzero, rounds_zero]
    exact (if_pos hfits.quote_lt).symm
  | succ fuel ih =>
    by_cases hpow : pow = 0
    · rw [hpow, rounds_zero, powLoopOver_zero]
      exact (if_pos hfits.quote_lt).symm
    rw [powLoopOver_succ hpow, rounds_of_ne_zero hpow, squaredOver_succ]
    unfold powLoopIn
    rw [if_neg hpow]
    have hsquare := multiplyOfInterestIn_trapping hunit hunit' hfits hfits
    have hgrowing := hc.square hunit
    by_cases hlt : (c.times unit c).quote < 2 ^ 63
    · -- the round fits
      rw [if_pos hlt] at hsquare
      have hproduct : (r.times unit c).quote ≤ (c.times unit c).quote := hc.times_mono hle
      have hbit : timesBit .trapping unit (pow % 2) c r = .ok (timesBitOver unit (pow % 2) c r) ∧
          (timesBitOver unit (pow % 2) c r).Fits := by
        unfold timesBit timesBitOver
        split
        · rw [multiplyOfInterestIn_trapping hunit hunit' hr hfits, if_pos (hproduct.trans_lt hlt)]
          exact ⟨rfl, hr.times hfits hunit hunit' (hproduct.trans_lt hlt)⟩
        · exact ⟨rfl, hr⟩
      rw [hbit.1, ok_bind, hsquare, ok_bind]
      have hhalf : pow / 2 < 2 ^ fuel := by
        rw [pow_succ] at hfuel
        omega
      exact ih hhalf hgrowing (hfits.times hfits hunit hunit' hlt) hbit.2
        (worth_timesBitOver_le hc hunit hle _)
    · -- the square traps, if the product before it does not
      rw [if_neg hlt] at hsquare
      have hlast : ¬ (squaredOver unit (rounds (pow / 2)) (c.times unit c)).quote < 2 ^ 63 := by
        intro h
        exact hlt ((hgrowing.quote_le_squared rfl _).trans_lt h)
      rw [if_neg hlast, hsquare]
      unfold timesBit
      split
      · rw [multiplyOfInterestIn_trapping hunit hunit' hr hfits]
        split
        · rfl
        · rfl
      · rfl

/-- A square fits when a later one does. -/
theorem squaredOver_lt (hunit : 0 < unit) (hc : c.Growing) (hfits : c.Fits) {k k' : ℕ} (hle : k ≤ k')
    (h : (squaredOver unit k' c).quote < 2 ^ 63) : (squaredOver unit k c).quote < 2 ^ 63 := by
  induction k generalizing k' c with
  | zero => exact hfits.quote_lt
  | succ k ih =>
    obtain ⟨j, rfl⟩ : ∃ j, k' = j + 1 := ⟨k' - 1, by omega⟩
    rw [squaredOver_succ] at h ⊢
    have hgrowing := hc.square hunit
    have hlt : (c.times unit c).quote < 2 ^ 63 := (hgrowing.quote_le_squared rfl j).trans_lt h
    by_cases hunit' : unit < 2 ^ 63
    · exact ih hgrowing ⟨hunit, hunit', hfits.times_nonneg hfits hunit, hlt⟩ (by omega) h
    · exact absurd (hgrowing.base_le.trans_lt hlt) hunit'

theorem fits_powLoopOver (hunit : 0 < unit) (hunit' : unit ≤ 10 ^ 16) {fuel pow : ℕ}
    (hc : c.Growing) (hfits : c.Fits) (hr : r.Fits) (hle : r.worth unit ≤ c.worth unit)
    (h : (squaredOver unit (rounds pow) c).quote < 2 ^ 63) : (powLoopOver unit fuel pow c r).Fits := by
  induction fuel generalizing pow c r with
  | zero => exact hr
  | succ fuel ih =>
    by_cases hpow : pow = 0
    · rw [hpow, powLoopOver_zero]
      exact hr
    rw [rounds_of_ne_zero hpow, squaredOver_succ] at h
    rw [powLoopOver_succ hpow]
    have hgrowing := hc.square hunit
    have hlt : (c.times unit c).quote < 2 ^ 63 := (hgrowing.quote_le_squared rfl _).trans_lt h
    refine ih hgrowing (hfits.times hfits hunit hunit' hlt) ?_ (worth_timesBitOver_le hc hunit hle _) h
    unfold timesBitOver
    split
    · exact hr.times hfits hunit hunit' ((hc.times_mono hle).trans_lt hlt)
    · exact hr

theorem base_powLoopOver {fuel pow : ℕ} (hfuel : pow < 2 ^ fuel) (h : pow ≠ 0 ∨ r.base = unit) :
    (powLoopOver unit fuel pow c r).base = unit := by
  induction fuel generalizing pow c r with
  | zero =>
    rw [pow_zero] at hfuel
    exact h.resolve_left fun hpow => hpow (by omega)
  | succ fuel ih =>
    by_cases hpow : pow = 0
    · rw [hpow, powLoopOver_zero]
      exact h.resolve_left fun hne => hne hpow
    rw [powLoopOver_succ hpow]
    have hhalf : pow / 2 < 2 ^ fuel := by
      rw [pow_succ] at hfuel
      omega
    refine ih hhalf ?_
    rcases Nat.mod_two_eq_zero_or_one pow with hbit | hbit
    · exact .inl (by omega)
    · rw [hbit, timesBitOver_one]
      exact .inr rfl

theorem one_fits : (⟨1, 1⟩ : Interest).Fits := ⟨by decide, by decide, by decide, by decide⟩

theorem fastPowOfInterestIn_trapping (hunit : 0 < unit) (hunit' : unit ≤ 10 ^ 16) {pow : ℕ}
    (hpow : pow < 2 ^ 32) (hc : c.Growing) (hfits : c.Fits) : fastPowOfInterestIn .trapping unit c pow =
      if (squaredOver unit (rounds pow) c).quote < 2 ^ 63 then .ok (fastPowOver unit c pow)
      else .error .trapped := by
  refine powLoopIn_trapping hunit hunit' hpow hc hfits one_fits ?_
  rw [worth_one]
  exact hc.unit_le_worth hunit

theorem fits_fastPowOver (hunit : 0 < unit) (hunit' : unit ≤ 10 ^ 16) {pow : ℕ} (hc : c.Growing)
    (hfits : c.Fits) (h : (squaredOver unit (rounds pow) c).quote < 2 ^ 63) :
    (fastPowOver unit c pow).Fits := by
  refine fits_powLoopOver hunit hunit' hc hfits one_fits ?_ h
  rw [worth_one]
  exact hc.unit_le_worth hunit

theorem base_fastPowOver {pow : ℕ} (hpow : pow < 2 ^ 32) (h : pow ≠ 0) :
    (fastPowOver unit c pow).base = unit :=
  base_powLoopOver hpow (.inl h)

end Trapping

/-! ### A rate below one -/

section Shrinking

variable {unit : ℤ} {c r : Interest}

/-- A rate below one. -/
def Interest.Shrinking (c : Interest) : Prop := c.quote < c.base

/-- A product with a rate below one is worth less than one unit rate. -/
theorem times_lt (hunit : 0 < unit) (hfits : c.Fits) (hc : c.Shrinking)
    (hle : r.worth unit ≤ unit) : (r.times unit c).quote < unit := by
  refine (Int.ediv_lt_iff_lt_mul hfits.base_pos).mpr ?_
  calc r.worth unit * c.quote ≤ unit * c.quote := mul_le_mul_of_nonneg_right hle hfits.quote_nonneg
    _ < unit * c.base := mul_lt_mul_of_pos_left hc hunit

theorem worth_le_of_shrinking (hunit : 0 < unit) (hfits : c.Fits) (hc : c.Shrinking) :
    c.worth unit ≤ unit := by
  refine (Int.ediv_lt_iff_lt_mul hfits.base_pos).mpr ?_ |>.le
  exact mul_lt_mul_of_pos_left hc hunit

theorem squaredOver_shrinking (hunit : 0 < unit) (hunit' : unit ≤ 10 ^ 16) (hfits : c.Fits)
    (hc : c.Shrinking) (k : ℕ) : (squaredOver unit k c).quote < 2 ^ 63 := by
  induction k generalizing c with
  | zero => exact hfits.quote_lt
  | succ k ih =>
    have hlt := times_lt hunit hfits hc (worth_le_of_shrinking hunit hfits hc)
    have hbound : (c.times unit c).quote < 2 ^ 63 := hlt.trans_le (hunit'.trans (by decide))
    rw [squaredOver_succ]
    exact ih (hfits.times hfits hunit hunit' hbound) hlt

theorem powLoopIn_shrinking (hunit : 0 < unit) (hunit' : unit ≤ 10 ^ 16) {fuel pow : ℕ}
    (hfuel : pow < 2 ^ fuel) (hfits : c.Fits) (hc : c.Shrinking) (hr : r.Fits)
    (hle : r.worth unit ≤ unit) :
    powLoopIn .trapping unit fuel pow c r = .ok (powLoopOver unit fuel pow c r) ∧
      (powLoopOver unit fuel pow c r).Fits ∧ (powLoopOver unit fuel pow c r).worth unit ≤ unit ∧
      (0 < pow ∨ r.worth unit < unit → (powLoopOver unit fuel pow c r).worth unit < unit) := by
  induction fuel generalizing pow c r with
  | zero =>
    rw [pow_zero] at hfuel
    refine ⟨rfl, hr, hle, ?_⟩
    rintro (hpos | hlt)
    · omega
    · exact hlt
  | succ fuel ih =>
    by_cases hpow : pow = 0
    · rw [hpow, powLoopOver_zero]
      refine ⟨rfl, hr, hle, ?_⟩
      rintro (hpos | hlt)
      · exact absurd hpos (lt_irrefl 0)
      · exact hlt
    have hbound : ∀ {x : Interest}, x.quote < unit → x.quote < 2 ^ 63 := fun hx =>
      hx.trans_le (hunit'.trans (by decide))
    have hsquareLt := times_lt hunit hfits hc (worth_le_of_shrinking hunit hfits hc)
    have hsquare := multiplyOfInterestIn_trapping hunit hunit' hfits hfits
    rw [if_pos (hbound hsquareLt)] at hsquare
    have hproductLt := times_lt hunit hfits hc hle
    have hproduct := multiplyOfInterestIn_trapping hunit hunit' hr hfits
    rw [if_pos (hbound hproductLt)] at hproduct
    have hsquareFits := hfits.times hfits hunit hunit' (hbound hsquareLt)
    have hhalf : pow / 2 < 2 ^ fuel := by
      rw [pow_succ] at hfuel
      omega
    rw [powLoopOver_succ hpow]
    unfold powLoopIn
    rw [if_neg hpow]
    rcases Nat.mod_two_eq_zero_or_one pow with hbit | hbit
    · -- the bit is not set, so that another one is
      rw [hbit, timesBitOver_zero]
      have hnone : timesBit .trapping unit 0 c r = .ok r := rfl
      rw [hnone, ok_bind, hsquare, ok_bind]
      obtain ⟨hrun, hfits', hle', hlt'⟩ := ih hhalf hsquareFits hsquareLt hr hle
      refine ⟨hrun, hfits', hle', fun _ => hlt' (.inl ?_)⟩
      omega
    · rw [hbit, timesBitOver_one]
      have hone : timesBit .trapping unit 1 c r = .ok (r.times unit c) := (if_pos rfl).trans hproduct
      rw [hone, ok_bind, hsquare, ok_bind]
      have hworth : (r.times unit c).worth unit < unit := by
        rw [worth_times hunit]
        exact hproductLt
      obtain ⟨hrun, hfits', hle', hlt'⟩ := ih hhalf hsquareFits hsquareLt
        (hr.times hfits hunit hunit' (hbound hproductLt)) hworth.le
      exact ⟨hrun, hfits', hle', fun _ => hlt' (.inr hworth)⟩

theorem fastPowOfInterestIn_shrinking (hunit : 0 < unit) (hunit' : unit ≤ 10 ^ 16) {pow : ℕ}
    (hpow : pow < 2 ^ 32) (hfits : c.Fits) (hc : c.Shrinking) :
    fastPowOfInterestIn .trapping unit c pow = .ok (fastPowOver unit c pow) ∧
      (fastPowOver unit c pow).Fits ∧
      (0 < pow → (fastPowOver unit c pow).worth unit < unit) := by
  obtain ⟨hrun, hfits', -, hlt⟩ := powLoopIn_shrinking hunit hunit' hpow hfits hc one_fits worth_one.le
  exact ⟨hrun, hfits', fun hpos => hlt (.inl hpos)⟩

end Shrinking

end FinChain.Ledger
