import FinChain.Ledger.State

/-!
# Chain parameters

`chain_parameters`, as far as they are validated, and as far as other code divides by them, shifts by them
or is bound by them. The committee decides on them, and a new value is only ever looked at by `validate`.
The fields have the widths that they have in the source, and the checks are made in the same arithmetic: a
difference of two lengths wraps around if the second is the larger one.

In C++ neither a division by zero nor a shift by the width of a number has a result. Both are a `Trap`
here.
-/

namespace FinChain.Chain

open Ledger

/-- What has no result in the arithmetic of the source. -/
inductive Trap
  | divisionByZero
  | shiftTooWide
  deriving DecidableEq, Repr

/-- A division. -/
def divide (x y : ℕ) : Except Trap ℕ := if y = 0 then .error .divisionByZero else .ok (x / y)

/-- A remainder. -/
def remainder (x y : ℕ) : Except Trap ℕ := if y = 0 then .error .divisionByZero else .ok (x % y)

/-- `<<` of a `uint64_t`, which loses the highest bits. -/
def shiftLeft (x : UInt64) (bits : ℕ) : Except Trap UInt64 :=
  if bits < 64 then .ok (.ofNat (x.toNat * 2 ^ bits)) else .error .shiftTooWide

/-- `>>` of a `uint64_t`. -/
def shiftRight (x : UInt64) (bits : ℕ) : Except Trap UInt64 :=
  if bits < 64 then .ok (.ofNat (x.toNat / 2 ^ bits)) else .error .shiftTooWide

theorem divide_of_pos {x y : ℕ} (h : 0 < y) : divide x y = .ok (x / y) := if_neg h.ne'

theorem remainder_of_pos {x y : ℕ} (h : 0 < y) : remainder x y = .ok (x % y) := if_neg h.ne'

/-- `chain_parameters`; of the fee schedule only the `basic_fee` of `account_create_operation`. -/
structure GlobalParameters where
  basicFee : UInt64
  blockInterval : UInt8
  maintenanceInterval : UInt32
  maintenanceSkipSlots : UInt8
  committeeProposalReviewPeriod : UInt32
  maximumTransactionSize : UInt32
  maximumBlockSize : UInt32
  maximumTimeUntilExpiration : UInt32
  maximumProposalLifetime : UInt32
  reservePercentOfFee : UInt16
  networkPercentOfFee : UInt16
  lifetimeReferrerPercentOfFee : UInt16
  accountsPerFeeScale : UInt16
  accountFeeScaleBitshifts : UInt8
  deriving DecidableEq

/-- `GRAPHENE_MIN_BLOCK_INTERVAL`. -/
def minBlockInterval : ℕ := 1

/-- `GRAPHENE_MAX_BLOCK_INTERVAL`. -/
def maxBlockInterval : ℕ := 30

/-- `GRAPHENE_MIN_TRANSACTION_SIZE_LIMIT`. -/
def minTransactionSizeLimit : ℕ := 1024

/-- `GRAPHENE_MIN_BLOCK_SIZE_LIMIT`. -/
def minBlockSizeLimit : ℕ := minTransactionSizeLimit * 5

/-- `chain_parameters::validate`, its assertions in their order. That of the fee schedule checks
nothing. -/
def GlobalParameters.validate (p : GlobalParameters) : Bool :=
  p.reservePercentOfFee.toNat ≤ hundredPercent &&
  p.networkPercentOfFee.toNat ≤ hundredPercent &&
  p.lifetimeReferrerPercentOfFee.toNat ≤ hundredPercent &&
  p.networkPercentOfFee.toNat + p.lifetimeReferrerPercentOfFee.toNat ≤ hundredPercent &&
  minBlockInterval ≤ p.blockInterval.toNat &&
  p.blockInterval.toNat ≤ maxBlockInterval &&
  0 < p.blockInterval.toNat &&
  -- "Maintenance interval must be longer than block interval"
  p.blockInterval.toNat < p.maintenanceInterval.toNat &&
  -- "Maintenance interval must be a multiple of block interval"
  p.maintenanceInterval.toNat % p.blockInterval.toNat = 0 &&
  -- "Transaction size limit is too low"
  minTransactionSizeLimit ≤ p.maximumTransactionSize.toNat &&
  -- "Block size limit is too low"
  minBlockSizeLimit ≤ p.maximumBlockSize.toNat &&
  -- "Maximum transaction expiration time must be greater than a block interval"
  p.blockInterval.toNat < p.maximumTimeUntilExpiration.toNat &&
  -- "Committee proposal review period must be less than the maximum proposal lifetime"
  p.blockInterval.toNat < (p.maximumProposalLifetime - p.committeeProposalReviewPeriod).toNat

/-- What the validated parameters promise each other. -/
theorem GlobalParameters.validate_spec {p : GlobalParameters} (h : p.validate = true) :
    0 < p.blockInterval.toNat ∧ p.blockInterval.toNat < p.maintenanceInterval.toNat ∧
      p.maintenanceInterval.toNat % p.blockInterval.toNat = 0 ∧
      p.blockInterval.toNat < (p.maximumProposalLifetime - p.committeeProposalReviewPeriod).toNat := by
  unfold validate at h
  simp only [Bool.and_eq_true, decide_eq_true_eq] at h
  obtain ⟨⟨⟨⟨⟨⟨⟨-, hpos⟩, hlonger⟩, hmultiple⟩, -⟩, -⟩, -⟩, hreview⟩ := h
  exact ⟨hpos, hlonger, hmultiple, hreview⟩

/-- The parameters that `hard_fork_fast_update_fee` makes pending. -/
def hardForkParameters : GlobalParameters where
  basicFee := 100000000
  blockInterval := 3
  maintenanceInterval := 86400
  maintenanceSkipSlots := 3
  committeeProposalReviewPeriod := 1209600
  maximumTransactionSize := 2048
  maximumBlockSize := 2048000000
  maximumTimeUntilExpiration := 86400
  maximumProposalLifetime := 2419200
  reservePercentOfFee := 2000
  networkPercentOfFee := 2000
  lifetimeReferrerPercentOfFee := 3000
  accountsPerFeeScale := 1000
  accountFeeScaleBitshifts := 4

example : hardForkParameters.validate = true := by decide

end FinChain.Chain
