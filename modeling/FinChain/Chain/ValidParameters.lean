import FinChain.Chain.RegistrationFee
import FinChain.Chain.Slots
import FinChain.Chain.ProposalChanges

/-!
# Parameters that were validated

The parameters are divisors: of the counter of new accounts, of times in slots and maintenance intervals,
and of the time that a budget is for (`RunsOn`). They also bound the proposals by which the committee
changes them (`Governable`). If a value divides by zero, every later block with a new account or a
maintenance fails, and if no proposal of the committee can be created, it cannot be replaced.

`chain_parameters::validate` takes care of the intervals. It says nothing about `accounts_per_fee_scale`,
and it compares a difference of unsigned numbers with the block interval: a review period that is longer
than the lifetime of proposals makes the difference a huge one (`runs_on_and_governable_iff`).
-/

namespace FinChain.Chain

open Exec Ledger FinChain.Protocol

/-! ### Maintenance and budget -/

/-- `next_maintenance_time` after a maintenance with the block. -/
def GlobalParameters.followingMaintenance (p : GlobalParameters) (nextMaintenanceTime : ℕ)
    (b : SlotBlock) : Except Trap ℕ :=
  let maintenanceInterval := p.maintenanceInterval.toNat
  if nextMaintenanceTime ≤ b.timestamp then
    if b.blockNum = 1 then do
      let intervals ← divide b.timestamp maintenanceInterval
      .ok (word32 (word32 (intervals + 1) * maintenanceInterval))
    else do
      let y ← divide (b.timestamp - nextMaintenanceTime) maintenanceInterval
      .ok (word32 (nextMaintenanceTime + word32 ((y + 1) * maintenanceInterval)))
  else .ok nextMaintenanceTime

/-- `blocks_to_maint` of `process_budget`, a `uint64_t`. -/
def GlobalParameters.blocksToMaint (p : GlobalParameters) (timeToMaint : ℕ) : Except Trap ℕ :=
  divide ((timeToMaint + p.blockInterval.toNat - 1) % 2 ^ 64) p.blockInterval.toNat

/-! ### What is promised -/

/-- **The chain runs on**: nothing divides by zero. -/
structure RunsOn (p : GlobalParameters) : Prop where
  accountCreate : ∀ s : Registrations, s.parameters = p → s.register ≠ .error .divisionByZero
  removeScaling : ∀ s : Registrations, s.parameters = p → s.maintain ≠ .error .divisionByZero
  maintenance : ∀ next b, p.followingMaintenance next b ≠ .error .divisionByZero
  slotTime : ∀ s : SlotState, s.parameters = p → ∀ n, s.getSlotTime n ≠ .error .divisionByZero
  slotAtTime : ∀ s : SlotState, s.parameters = p → ∀ t forMissBlock,
    s.getSlotAtTime t forMissBlock ≠ .error .divisionByZero
  budget : ∀ timeToMaint, p.blocksToMaint timeToMaint ≠ .error .divisionByZero

/-- A proposal with the review period that the committee requires. -/
def GlobalParameters.reviewed {Op : Type} (p : GlobalParameters) (fee : Asset) (payer : ℕ) (ops : List Op)
    (expirationTime : ℕ) : ProposalCreate Op where
  fee := fee
  feePayingAccount := payer
  proposedOps := ops
  expirationTime := expirationTime
  reviewPeriodSeconds := some p.committeeProposalReviewPeriod.toNat

/-- **The chain is governable**: proposals live longer than the review period and a block interval, and at
some time of the head block a proposal with the review period can be created for any operations that may
be proposed at all. -/
structure Governable (p : GlobalParameters) : Prop where
  longer : p.committeeProposalReviewPeriod.toNat + p.blockInterval.toNat < p.maximumProposalLifetime.toNat
  creatable : ∃ headTime expirationTime : ℕ, expirationTime < 2 ^ 32 ∧
    ∀ {Key Other R : Type} [LinearOrder Key] (E : Surroundings Key Other R) (fee : Asset) (payer depth : ℕ)
      (ops : List (Operation Key Other)) (s : ProposalBooks Key Other R),
      (requiredOf E ops).other = [] → ops ≠ [] → Operation.validateAll E ops = true →
      s.properties = ⟨headTime, p.maximumProposalLifetime.toNat, p.committeeProposalReviewPeriod.toNat,
        depth⟩ →
      (p.reviewed fee payer ops expirationTime).doEvaluate E s = .ok () s

/-! ### Divisions -/

variable {p : GlobalParameters}

/-- What comes before or after a division does not divide by zero. -/
theorem bind_ne_divisionByZero {α β : Type} {x : Except Trap α} {f : α → Except Trap β}
    (hx : x ≠ .error .divisionByZero) (hf : ∀ a, f a ≠ .error .divisionByZero) :
    x >>= f ≠ .error .divisionByZero := by
  cases x with
  | ok a => exact hf a
  | error e =>
    intro h
    exact hx (congrArg Except.error (Except.error.inj h))

theorem divide_ne {x y : ℕ} (h : 0 < y) : divide x y ≠ .error .divisionByZero := by
  rw [divide_of_pos h]
  exact nofun

theorem remainder_ne {x y : ℕ} (h : 0 < y) : remainder x y ≠ .error .divisionByZero := by
  rw [remainder_of_pos h]
  exact nofun

theorem shiftLeft_ne {x : UInt64} {bits : ℕ} : shiftLeft x bits ≠ .error .divisionByZero := by
  unfold shiftLeft
  split <;> exact nofun

theorem shiftRight_ne {x : UInt64} {bits : ℕ} : shiftRight x bits ≠ .error .divisionByZero := by
  unfold shiftRight
  split <;> exact nofun

theorem getSlotTime_ne {s : SlotState} (hpos : 0 < s.blockInterval) (n : ℕ) :
    s.getSlotTime n ≠ .error .divisionByZero := by
  unfold SlotState.getSlotTime
  split
  · exact nofun
  · split
    · exact nofun
    · exact bind_ne_divisionByZero (divide_ne hpos) fun _ => nofun

/-- **Nothing divides by zero** if the divisors are positive. -/
theorem runsOn_of_pos (hinterval : 0 < p.blockInterval.toNat) (hmaintenance : 0 < p.maintenanceInterval.toNat)
    (hscale : 0 < p.accountsPerFeeScale.toNat) : RunsOn p where
  accountCreate := by
    rintro s rfl
    refine bind_ne_divisionByZero (remainder_ne hscale) fun rest => ?_
    split
    · exact bind_ne_divisionByZero shiftLeft_ne fun _ => nofun
    · exact nofun
  removeScaling := by
    rintro s rfl
    refine bind_ne_divisionByZero ?_ fun bits => bind_ne_divisionByZero shiftRight_ne fun _ => nofun
    exact bind_ne_divisionByZero (divide_ne hscale) fun _ => nofun
  maintenance := by
    intro next b
    unfold GlobalParameters.followingMaintenance
    dsimp only
    split
    · split
      · exact bind_ne_divisionByZero (divide_ne hmaintenance) fun _ => nofun
      · exact bind_ne_divisionByZero (divide_ne hmaintenance) fun _ => nofun
    · exact nofun
  slotTime := by
    rintro s rfl n
    exact getSlotTime_ne hinterval n
  slotAtTime := by
    rintro s rfl t forMissBlock
    refine bind_ne_divisionByZero (getSlotTime_ne hinterval 1) fun first => ?_
    split
    · exact nofun
    · split
      · exact nofun
      · exact bind_ne_divisionByZero (divide_ne hinterval) fun _ => nofun
  budget := fun _ => divide_ne hinterval

/-- A new account divides by `accounts_per_fee_scale`. -/
theorem RunsOn.accountsPerFeeScale_pos (h : RunsOn p) : 0 < p.accountsPerFeeScale.toNat := by
  by_contra hzero
  refine h.accountCreate (Registrations.start p) rfl ?_
  have hdivisor : p.accountsPerFeeScale.toNat = 0 := Nat.eq_zero_of_not_pos hzero
  unfold Registrations.register remainder
  change (if p.accountsPerFeeScale.toNat = 0 then _ else _) >>= _ = _
  rw [if_pos hdivisor]
  rfl

/-! ### Proposals of the committee -/

/-- **A proposal of the committee** can be created at the very begin of time. -/
theorem governable_of_longer (h : p.committeeProposalReviewPeriod.toNat + p.blockInterval.toNat <
    p.maximumProposalLifetime.toNat) : Governable p where
  longer := h
  creatable := by
    have hlifetime : p.maximumProposalLifetime.toNat < 2 ^ 32 := p.maximumProposalLifetime.toNat_lt
    refine ⟨0, p.maximumProposalLifetime.toNat, hlifetime, ?_⟩
    intro Key Other R _ E fee payer depth ops s hother hops hvalid hproperties
    have hend : timePointSec ((0 : ℕ) + p.maximumProposalLifetime.toNat : ℤ) =
        p.maximumProposalLifetime.toNat := by
      rw [Nat.cast_zero, zero_add]
      exact timePointSec_of_lt hlifetime
    have hshort : p.committeeProposalReviewPeriod.toNat < p.maximumProposalLifetime.toNat := by omega
    have hnonempty : ops.isEmpty = false := List.isEmpty_eq_false_iff.mpr hops
    unfold ProposalCreate.doEvaluate
    rw [get_bind, hproperties]
    refine assert_bind_eq_ok.mpr ⟨by change 0 < p.maximumProposalLifetime.toNat; omega,
      assert_bind_eq_ok.mpr ⟨by rw [hend]; exact le_rfl, assert_bind_eq_ok.mpr ⟨?_,
      assert_bind_eq_ok.mpr ⟨List.isEmpty_iff.mpr hother, bind_eq_ok.mpr ⟨(), s, ?_,
        assert_eq_ok.mpr ⟨⟨hnonempty, hvalid⟩, rfl⟩⟩⟩⟩⟩⟩
    · intro seconds hseconds
      cases hseconds
      exact hshort
    · unfold ProposalCreate.checkCommittee
      split
      · rw [get_bind]
        refine require_bind_eq_ok.mpr ⟨_, rfl, assert_eq_ok.mpr ⟨?_, rfl⟩⟩
        rw [hproperties]
      · rfl

/-- **When validated parameters keep the chain running and governable**: if and only if the fee is scaled
after some accounts at all, and the review period is not longer than the lifetime of proposals. -/
theorem runs_on_and_governable_iff (hvalid : p.validate = true) : (RunsOn p ∧ Governable p) ↔
    0 < p.accountsPerFeeScale.toNat ∧
      p.committeeProposalReviewPeriod.toNat ≤ p.maximumProposalLifetime.toNat := by
  obtain ⟨hinterval, hmaintenance, -, hreview⟩ := GlobalParameters.validate_spec hvalid
  constructor
  · rintro ⟨hruns, hgovernable⟩
    have hlonger := hgovernable.longer
    exact ⟨hruns.accountsPerFeeScale_pos, by omega⟩
  · rintro ⟨hscale, hle⟩
    refine ⟨runsOn_of_pos hinterval (hinterval.trans hmaintenance) hscale, governable_of_longer ?_⟩
    -- the difference does not wrap around
    have hdifference : (p.maximumProposalLifetime - p.committeeProposalReviewPeriod).toNat =
        p.maximumProposalLifetime.toNat - p.committeeProposalReviewPeriod.toNat :=
      UInt32.toNat_sub_of_le _ _ hle
    rw [hdifference] at hreview
    omega

/-- The parameters of the hard fork are such. -/
theorem runs_on_and_governable_hardFork : RunsOn hardForkParameters ∧ Governable hardForkParameters :=
  (runs_on_and_governable_iff (by decide)).mpr ⟨by decide, by decide⟩

/-- Neither follows from validation: not if fees are scaled after zero accounts, and not if proposals live
for no time at all. -/
theorem not_runs_on_and_governable : (¬ ∀ p : GlobalParameters, p.validate = true → RunsOn p) ∧
    ¬ ∀ p : GlobalParameters, p.validate = true → Governable p := by
  constructor
  · intro hall
    have hruns := hall { hardForkParameters with accountsPerFeeScale := 0 } (by decide)
    exact hruns.accountCreate (Registrations.start _) rfl rfl
  · intro hall
    have hgovernable := hall { hardForkParameters with maximumProposalLifetime := 0 } (by decide)
    exact absurd hgovernable.longer (by decide)

end FinChain.Chain
