import FinChain.Chain.GlobalParameters
import Mathlib.Algebra.Order.Ring.Nat
import Mathlib.Tactic.Ring

/-!
# Scaling the registration fee

After every `accounts_per_fee_scale` new accounts `account_create_evaluator` shifts the fee for the next
ones to the left, and the maintenance shifts it back by all these bits at once. The counter is reset then,
so that a new interval begins with the fee that the last one began with.

This works as long as the scaled fee is a number of 64 bits: the shift to the left loses the bits above,
and no shift to the right brings them back (`fee_restored_iff`). The counter has 32 bits, and so has the
number of bits that the maintenance shifts by; neither matters before that, since a fee that is not zero
survives less than 64 bits (`shifted_eq_undone`).
-/

namespace FinChain.Chain

open Exec Ledger

/-- The parameters, and `accounts_registered_this_interval`. -/
structure Registrations where
  parameters : GlobalParameters
  pendingParameters : Option GlobalParameters := none
  accountsRegisteredThisInterval : UInt32

namespace Registrations

/-- What `account_create_evaluator::do_apply` does to them. -/
def register (s : Registrations) : Except Trap Registrations := do
  let registered := s.accountsRegisteredThisInterval + 1
  let rest ← remainder registered.toNat s.parameters.accountsPerFeeScale.toNat
  if rest = 0 then do
    let fee ← shiftLeft s.parameters.basicFee s.parameters.accountFeeScaleBitshifts.toNat
    .ok { s with
      parameters := { s.parameters with basicFee := fee }
      accountsRegisteredThisInterval := registered }
  else .ok { s with accountsRegisteredThisInterval := registered }

/-- New accounts, one after the other. -/
def registerAll (s : Registrations) : ℕ → Except Trap Registrations
  | 0 => .ok s
  | n + 1 => do
    let s ← s.registerAll n
    s.register

/-- "Remove scaling of account registration fee": how far the fee is shifted back, as a `uint32_t`. -/
def scaledBits (s : Registrations) : Except Trap UInt32 := do
  let scalings ← divide s.accountsRegisteredThisInterval.toNat s.parameters.accountsPerFeeScale.toNat
  .ok (s.parameters.accountFeeScaleBitshifts.toUInt32 * .ofNat scalings)

/-- What `perform_chain_maintenance` does to them. -/
def maintain (s : Registrations) : Except Trap Registrations := do
  let bits ← s.scaledBits
  let fee ← shiftRight s.parameters.basicFee bits.toNat
  .ok {
    parameters := s.pendingParameters.getD { s.parameters with basicFee := fee }
    pendingParameters := none
    accountsRegisteredThisInterval := 0 }

end Registrations

/-! ### What a fee survives -/

/-- How often the fee is scaled by `n` new accounts. -/
def scalings (perScale : ℕ) : ℕ → ℕ
  | 0 => 0
  | n + 1 => scalings perScale n + if (n + 1) % 2 ^ 32 % perScale = 0 then 1 else 0

/-- By how many bits the maintenance shifts the fee back. -/
def undoneBits (bits perScale n : ℕ) : ℕ := bits * (n % 2 ^ 32 / perScale) % 2 ^ 32

/-- **The fee survives** `n` new accounts: nothing is divided by zero, no shift is too wide, and the scaled
fee is a number of 64 bits. -/
structure GlobalParameters.Restores (p : GlobalParameters) (n : ℕ) : Prop where
  perScale_pos : 0 < p.accountsPerFeeScale.toNat
  narrow : scalings p.accountsPerFeeScale.toNat n = 0 ∨ p.accountFeeScaleBitshifts.toNat < 64
  narrow' : undoneBits p.accountFeeScaleBitshifts.toNat p.accountsPerFeeScale.toNat n < 64
  fits : p.basicFee.toNat *
    2 ^ (p.accountFeeScaleBitshifts.toNat * scalings p.accountsPerFeeScale.toNat n) < 2 ^ 64

/-- As long as the counter does not wrap around, it tells how often the fee was scaled. -/
theorem scalings_eq {perScale n : ℕ} (h : n < 2 ^ 32) : scalings perScale n = n / perScale := by
  induction n with
  | zero => exact (Nat.zero_div _).symm
  | succ n ih =>
    unfold scalings
    rw [ih (by omega), Nat.mod_eq_of_lt h, Nat.succ_div]
    simp only [Nat.dvd_iff_mod_eq_zero]

theorem scalings_mono {perScale m n : ℕ} (h : m ≤ n) : scalings perScale m ≤ scalings perScale n := by
  induction h with
  | refl => exact le_rfl
  | step _ ih => exact ih.trans (Nat.le_add_right _ _)

/-- **Both shifts agree**, if they are shifts by less than a word. -/
theorem shifted_eq_undone {bits perScale n : ℕ} (hpos : 0 < perScale) (hscale : perScale < 2 ^ 16)
    (h : bits * scalings perScale n < 64) : undoneBits bits perScale n = bits * scalings perScale n := by
  unfold undoneBits
  by_cases hn : n < 2 ^ 32
  · rw [scalings_eq hn] at h ⊢
    rw [Nat.mod_eq_of_lt hn, Nat.mod_eq_of_lt (by omega)]
  · -- after so many accounts the fee was scaled thousands of times
    have hmany : 64 ≤ scalings perScale n := by
      calc 64 ≤ (2 ^ 32 - 1) / perScale := by
            rw [Nat.le_div_iff_mul_le hpos]
            omega
        _ = scalings perScale (2 ^ 32 - 1) := (scalings_eq (by decide)).symm
        _ ≤ scalings perScale n := scalings_mono (by omega)
    have hzero : bits = 0 := by
      by_contra hne
      have hle : 1 * 64 ≤ bits * scalings perScale n := Nat.mul_le_mul (Nat.pos_of_ne_zero hne) hmany
      omega
    rw [hzero, zero_mul, zero_mul, Nat.zero_mod]

/-- **Shifting there and back** gives the same number if and only if it fits. -/
theorem shift_back_iff {fee shifted undone : ℕ} (hagree : shifted < 64 → undone = shifted) :
    fee * 2 ^ shifted % 2 ^ 64 / 2 ^ undone = fee ↔ fee * 2 ^ shifted < 2 ^ 64 := by
  constructor
  · intro hback
    by_contra hlarge
    by_cases hnarrow : shifted < 64
    · -- what is left is shorter than before
      rw [hagree hnarrow] at hback
      have hle : fee * 2 ^ shifted ≤ fee * 2 ^ shifted % 2 ^ 64 := by
        calc fee * 2 ^ shifted = fee * 2 ^ shifted % 2 ^ 64 / 2 ^ shifted * 2 ^ shifted := by rw [hback]
          _ ≤ fee * 2 ^ shifted % 2 ^ 64 := Nat.div_mul_le_self _ _
      have hlt : fee * 2 ^ shifted % 2 ^ 64 < 2 ^ 64 := Nat.mod_lt _ (by decide)
      omega
    · -- nothing is left
      have hdvd : 2 ^ 64 ∣ fee * 2 ^ shifted :=
        Dvd.dvd.mul_left (pow_dvd_pow 2 (not_lt.mp hnarrow)) fee
      rw [Nat.mod_eq_zero_of_dvd hdvd, Nat.zero_div] at hback
      rw [← hback, zero_mul] at hlarge
      exact hlarge (by decide)
  · intro hfits
    rw [Nat.mod_eq_of_lt hfits]
    rcases Nat.eq_zero_or_pos fee with hzero | hpos
    · rw [hzero, zero_mul, Nat.zero_div]
    · have hnarrow : shifted < 64 := by
        have hle : 2 ^ shifted ≤ fee * 2 ^ shifted := Nat.le_mul_of_pos_left _ hpos
        exact (Nat.pow_lt_pow_iff_right (by decide)).mp (hle.trans_lt hfits)
      rw [hagree hnarrow, Nat.mul_div_cancel _ (Nat.two_pow_pos _)]

/-! ### Intervals -/

namespace Registrations

variable {p : GlobalParameters} {n : ℕ}

/-- Right after a maintenance. -/
def start (p : GlobalParameters) : Registrations where
  parameters := p
  accountsRegisteredThisInterval := 0

/-- After `n` new accounts. -/
def after (p : GlobalParameters) (n : ℕ) : Registrations where
  parameters :=
    { p with
      basicFee := .ofNat (p.basicFee.toNat *
        2 ^ (p.accountFeeScaleBitshifts.toNat * scalings p.accountsPerFeeScale.toNat n)) }
  accountsRegisteredThisInterval := .ofNat n

theorem after_zero : after p 0 = start p := by
  unfold after start scalings
  rw [mul_zero, pow_zero, mul_one, UInt64.ofNat_toNat]
  rfl

theorem register_after_iff {s : Registrations} : (after p n).register = .ok s ↔
    0 < p.accountsPerFeeScale.toNat ∧
      (scalings p.accountsPerFeeScale.toNat (n + 1) = scalings p.accountsPerFeeScale.toNat n ∨
        p.accountFeeScaleBitshifts.toNat < 64) ∧ s = after p (n + 1) := by
  have hcount : (UInt32.ofNat n + 1).toNat = (n + 1) % 2 ^ 32 := by
    rw [UInt32.toNat_add, UInt32.toNat_ofNat']
    exact Nat.mod_add_mod n (2 ^ 32) 1
  have hnext : UInt32.ofNat n + 1 = .ofNat (n + 1) := (UInt32.ofNat_add n 1).symm
  unfold register
  change (remainder (UInt32.ofNat n + 1).toNat p.accountsPerFeeScale.toNat >>= _) = _ ↔ _
  rw [hcount]
  by_cases hpos : 0 < p.accountsPerFeeScale.toNat
  · rw [and_iff_right hpos]
    rw [remainder_of_pos hpos]
    change (if (n + 1) % 2 ^ 32 % p.accountsPerFeeScale.toNat = 0 then _ else _) = _ ↔ _
    by_cases hdue : (n + 1) % 2 ^ 32 % p.accountsPerFeeScale.toNat = 0
    · -- the fee is scaled
      have hscalings : scalings p.accountsPerFeeScale.toNat (n + 1) =
          scalings p.accountsPerFeeScale.toNat n + 1 := by
        rw [scalings, if_pos hdue]
      have hne : scalings p.accountsPerFeeScale.toNat (n + 1) ≠ scalings p.accountsPerFeeScale.toNat n := by
        rw [hscalings]
        exact Nat.succ_ne_self _
      rw [if_pos hdue, or_iff_right hne]
      by_cases hnarrow : p.accountFeeScaleBitshifts.toNat < 64
      · have hshift : shiftLeft (after p n).parameters.basicFee p.accountFeeScaleBitshifts.toNat =
            .ok (after p (n + 1)).parameters.basicFee := by
          unfold shiftLeft
          rw [if_pos hnarrow]
          change Except.ok (UInt64.ofNat ((UInt64.ofNat _).toNat * _)) = Except.ok (UInt64.ofNat _)
          rw [hscalings, Nat.mul_succ, pow_add, ← mul_assoc, UInt64.ofNat_mul, UInt64.ofNat_toNat,
            ← UInt64.ofNat_mul]
        rw [and_iff_right hnarrow]
        change shiftLeft (after p n).parameters.basicFee p.accountFeeScaleBitshifts.toNat >>= _ = _ ↔ _
        rw [hshift]
        change Except.ok (Registrations.mk (after p (n + 1)).parameters none (UInt32.ofNat n + 1)) = _ ↔ _
        rw [hnext]
        exact ⟨fun h => (Except.ok.inj h).symm, fun h => congrArg Except.ok h.symm⟩
      · have hshift : shiftLeft (after p n).parameters.basicFee p.accountFeeScaleBitshifts.toNat =
            .error .shiftTooWide := if_neg hnarrow
        change shiftLeft (after p n).parameters.basicFee p.accountFeeScaleBitshifts.toNat >>= _ = _ ↔ _
        rw [hshift]
        refine iff_of_false ?_ fun h => hnarrow h.1
        intro h
        cases h
    · have hscalings : scalings p.accountsPerFeeScale.toNat (n + 1) =
          scalings p.accountsPerFeeScale.toNat n := by
        rw [scalings, if_neg hdue, add_zero]
      have hsame : (after p (n + 1)).parameters = (after p n).parameters := by
        unfold after
        rw [hscalings]
      rw [if_neg hdue, and_iff_right (Or.inl hscalings)]
      change Except.ok (Registrations.mk (after p n).parameters none (UInt32.ofNat n + 1)) = _ ↔ _
      rw [hnext, ← hsame]
      exact ⟨fun h => (Except.ok.inj h).symm, fun h => congrArg Except.ok h.symm⟩
  · -- `%` by zero
    have hzero : p.accountsPerFeeScale.toNat = 0 := Nat.eq_zero_of_not_pos hpos
    unfold remainder
    rw [if_pos hzero]
    refine iff_of_false ?_ fun h => hpos h.1
    intro h
    cases h

/-- **Any number of new accounts.** -/
theorem registerAll_iff {s : Registrations} : (start p).registerAll n = .ok s ↔
    (n = 0 ∨ 0 < p.accountsPerFeeScale.toNat) ∧
      (scalings p.accountsPerFeeScale.toNat n = 0 ∨ p.accountFeeScaleBitshifts.toNat < 64) ∧
      s = after p n := by
  induction n generalizing s with
  | zero =>
    rw [after_zero]
    unfold registerAll scalings
    simp only [Except.ok.injEq, true_or, true_and]
    exact eq_comm
  | succ n ih =>
    unfold registerAll
    rw [except_bind_eq_ok]
    constructor
    · rintro ⟨s₁, h₁, h⟩
      obtain ⟨-, hnarrow, rfl⟩ := ih.mp h₁
      obtain ⟨hpos, hnarrow', hs⟩ := register_after_iff.mp h
      refine ⟨.inr hpos, ?_, hs⟩
      rcases hnarrow with hnone | hnarrow
      · rcases hnarrow' with hsame | hnarrow
        · exact .inl (hsame.trans hnone)
        · exact .inr hnarrow
      · exact .inr hnarrow
    · rintro ⟨hpos, hnarrow, hs⟩
      have hpos' := hpos.resolve_left (Nat.succ_ne_zero n)
      have hle : scalings p.accountsPerFeeScale.toNat n ≤ scalings p.accountsPerFeeScale.toNat (n + 1) :=
        scalings_mono (Nat.le_succ n)
      refine ⟨after p n, ih.mpr ⟨.inr hpos', ?_, rfl⟩, register_after_iff.mpr ⟨hpos', ?_, hs⟩⟩
      · exact hnarrow.imp_left fun hnone => Nat.eq_zero_of_le_zero (hle.trans hnone.le)
      · refine hnarrow.imp_left fun hnone => ?_
        omega

/-- **The maintenance**, if no parameters are pending. -/
theorem maintain_after_iff {s : Registrations} : (after p n).maintain = .ok s ↔
    0 < p.accountsPerFeeScale.toNat ∧
      undoneBits p.accountFeeScaleBitshifts.toNat p.accountsPerFeeScale.toNat n < 64 ∧
      s = start { p with
        basicFee := .ofNat ((after p n).parameters.basicFee.toNat /
          2 ^ undoneBits p.accountFeeScaleBitshifts.toNat p.accountsPerFeeScale.toNat n) } := by
  unfold maintain scaledBits divide
  change ((if p.accountsPerFeeScale.toNat = 0 then Except.error Trap.divisionByZero
    else .ok ((UInt32.ofNat n).toNat / p.accountsPerFeeScale.toNat)) >>= _ >>= _) = _ ↔ _
  by_cases hpos : 0 < p.accountsPerFeeScale.toNat
  · rw [if_neg hpos.ne', and_iff_right hpos]
    have hbits : (p.accountFeeScaleBitshifts.toUInt32 *
        .ofNat ((UInt32.ofNat n).toNat / p.accountsPerFeeScale.toNat)).toNat =
          undoneBits p.accountFeeScaleBitshifts.toNat p.accountsPerFeeScale.toNat n := by
      have hsmall : n % 2 ^ 32 / p.accountsPerFeeScale.toNat < 2 ^ 32 :=
        (Nat.div_le_self _ _).trans_lt (Nat.mod_lt _ (by decide))
      rw [UInt32.toNat_mul, UInt8.toNat_toUInt32, UInt32.toNat_ofNat', UInt32.toNat_ofNat',
        Nat.mod_eq_of_lt hsmall]
      rfl
    change (shiftRight (after p n).parameters.basicFee (p.accountFeeScaleBitshifts.toUInt32 *
      .ofNat ((UInt32.ofNat n).toNat / p.accountsPerFeeScale.toNat)).toNat >>= _) = _ ↔ _
    rw [hbits]
    unfold shiftRight
    by_cases hnarrow : undoneBits p.accountFeeScaleBitshifts.toNat p.accountsPerFeeScale.toNat n < 64
    · rw [if_pos hnarrow, and_iff_right hnarrow]
      exact ⟨fun h => (Except.ok.inj h).symm, fun h => congrArg Except.ok h.symm⟩
    · rw [if_neg hnarrow]
      refine iff_of_false ?_ fun h => hnarrow h.1
      intro h
      cases h
  · rw [if_pos (Nat.eq_zero_of_not_pos hpos)]
    refine iff_of_false ?_ fun h => hpos h.1
    intro h
    cases h

/-- **When the registration fee is restored**: if and only if no bit of it is lost. -/
theorem fee_restored_iff (p : GlobalParameters) (n : ℕ) :
    (∃ s s', (start p).registerAll n = .ok s ∧ s.maintain = .ok s' ∧
      s'.parameters.basicFee = p.basicFee) ↔ p.Restores n := by
  have hscale : p.accountsPerFeeScale.toNat < 2 ^ 16 := p.accountsPerFeeScale.toNat_lt
  -- what the maintenance makes of the fee
  have hback : ∀ hpos : 0 < p.accountsPerFeeScale.toNat,
      UInt64.ofNat ((after p n).parameters.basicFee.toNat /
        2 ^ undoneBits p.accountFeeScaleBitshifts.toNat p.accountsPerFeeScale.toNat n) = p.basicFee ↔
      p.basicFee.toNat *
        2 ^ (p.accountFeeScaleBitshifts.toNat * scalings p.accountsPerFeeScale.toNat n) < 2 ^ 64 := by
    intro hpos
    have hfee : (after p n).parameters.basicFee.toNat = p.basicFee.toNat *
        2 ^ (p.accountFeeScaleBitshifts.toNat * scalings p.accountsPerFeeScale.toNat n) % 2 ^ 64 :=
      UInt64.toNat_ofNat'
    have hsmall : (after p n).parameters.basicFee.toNat /
        2 ^ undoneBits p.accountFeeScaleBitshifts.toNat p.accountsPerFeeScale.toNat n < 2 ^ 64 :=
      (Nat.div_le_self _ _).trans_lt (after p n).parameters.basicFee.toNat_lt
    rw [← UInt64.toNat_inj, UInt64.toNat_ofNat', Nat.mod_eq_of_lt hsmall, hfee]
    exact shift_back_iff (shifted_eq_undone hpos hscale)
  constructor
  · rintro ⟨s, s', hall, hmaintain, hsame⟩
    obtain ⟨-, hnarrow, rfl⟩ := registerAll_iff.mp hall
    obtain ⟨hpos, hnarrow', rfl⟩ := maintain_after_iff.mp hmaintain
    exact ⟨hpos, hnarrow, hnarrow', (hback hpos).mp hsame⟩
  · intro h
    refine ⟨_, _, registerAll_iff.mpr ⟨.inr h.perScale_pos, h.narrow, rfl⟩,
      maintain_after_iff.mpr ⟨h.perScale_pos, h.narrow', rfl⟩, ?_⟩
    exact (hback h.perScale_pos).mpr h.fits

section Example

/-- The fee is scaled by four bits after every account. -/
private def everyAccount : GlobalParameters := { hardForkParameters with accountsPerFeeScale := 1 }

/-- After ten accounts, the highest bits of the fee are lost for good. -/
theorem not_fee_restored :
    ¬ ∀ (p : GlobalParameters) (n : ℕ) (s s' : Registrations), p.validate = true →
      (start p).registerAll n = .ok s → s.maintain = .ok s' →
        s'.parameters.basicFee = p.basicFee := by
  intro hall
  have hvalid : everyAccount.validate = true := by decide
  obtain ⟨s, hs, s', hs', hne⟩ : ∃ s, (start everyAccount).registerAll 10 = .ok s ∧
      ∃ s', s.maintain = .ok s' ∧ s'.parameters.basicFee ≠ everyAccount.basicFee :=
    ⟨_, rfl, _, rfl, by decide⟩
  exact hne (hall everyAccount 10 s s' hvalid hs hs')

end Example

end Registrations

end FinChain.Chain
