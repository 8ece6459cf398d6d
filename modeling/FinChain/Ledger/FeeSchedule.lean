import FinChain.Ledger.MarketPostings
import FinChain.Ledger.Maintenance

/-!
# Computed fees

`fee_schedule::calculate_fee` finds the parameters of an operation, asks the operation for its fee,
scales it and converts it at a core exchange rate. The conversion rounds down, so the result may be worth
less than what was asked for, and a loop raises it until it is worth enough. `set_fee` writes the result
into the operation, and asks again, since the fee is part of the bytes that are paid for.

Of an operation only what its `calculate_fee` reads is modelled: how large a memo is, how long a symbol
is, and how large everything is that is packed beside the fee. The fee itself is packed as an amount, which
always takes eight bytes, and the id of its asset, which takes more for a later asset. So a second fee in
the same asset never changes the size, and `set_fee` is done after two rounds at most.
-/

namespace FinChain.Ledger

open Exec

/-! ### Parameters -/

/-- `GRAPHENE_BLOCKCHAIN_PRECISION`. -/
def blockchainPrecision : ℤ := 100000000

/-- The `fee_parameters_type` of an operation. A parameter that it does not have is zero. -/
structure FeeParameters where
  fee : ℤ := 0
  pricePerKbyte : ℤ := 0
  basicFee : ℤ := 0
  premiumFee : ℤ := 0
  membershipAnnualFee : ℤ := 0
  membershipLifetimeFee : ℤ := 0
  symbol3 : ℤ := 0
  symbol4 : ℤ := 0
  longSymbol : ℤ := 0
  pricePerOutput : ℤ := 0
  deriving DecidableEq

/-- The parameters of the operation with the given tag, by default. -/
def FeeParameters.default : ℕ → FeeParameters
  | 0 => { fee := 20 * blockchainPrecision, pricePerKbyte := 10 * blockchainPrecision }
  | 1 => { fee := 5 * blockchainPrecision }
  | 3 => { fee := 20 * blockchainPrecision }
  | 5 => { basicFee := 5 * blockchainPrecision, premiumFee := 2000 * blockchainPrecision,
           pricePerKbyte := blockchainPrecision }
  | 6 => { fee := 20 * blockchainPrecision, pricePerKbyte := blockchainPrecision }
  | 7 => { fee := 300000 }
  | 8 => { membershipAnnualFee := 2000 * blockchainPrecision,
           membershipLifetimeFee := 10000 * blockchainPrecision }
  | 9 | 12 | 13 | 18 => { fee := 500 * blockchainPrecision }
  | 10 => { symbol3 := 500000 * blockchainPrecision, symbol4 := 300000 * blockchainPrecision,
            longSymbol := 5000 * blockchainPrecision, pricePerKbyte := 10 }
  | 11 => { fee := 500 * blockchainPrecision, pricePerKbyte := 10 }
  | 14 => { fee := 20 * blockchainPrecision, pricePerKbyte := blockchainPrecision }
  | 15 | 21 | 30 | 33 | 43 => { fee := 20 * blockchainPrecision }
  | 16 | 19 | 24 | 25 | 26 | 31 | 32 | 36 => { fee := blockchainPrecision }
  | 17 => { fee := 100 * blockchainPrecision }
  | 20 | 29 | 34 => { fee := 5000 * blockchainPrecision }
  | 22 | 23 | 27 | 38 => { fee := 20 * blockchainPrecision, pricePerKbyte := 10 }
  | 35 => { fee := blockchainPrecision, pricePerKbyte := 10 }
  | 39 | 40 => { fee := 5 * blockchainPrecision, pricePerOutput := 5 * blockchainPrecision }
  | 41 => { fee := 5 * blockchainPrecision }
  | 45 | 46 | 47 | 48 =>
    { fee := 20 * blockchainPrecision, pricePerKbyte := 10 * blockchainPrecision }
  | _ => {}

/-- `fee_schedule`; the parameters by the tag of their operation. -/
structure FeeSchedule where
  parameters : ℕ → Option FeeParameters
  scale : ℕ := hundredPercent

/-! ### Operations -/

/-- What `calculate_fee` of an operation reads, beside the size of the operation. A memo is given by the
size it is packed in. -/
inductive FeeBasis
  | transfer (memo : Option ℕ)
  | fillOrder
  | accountCreate (name : List Char)
  | accountUpdate (newOptions : Bool)
  | accountUpgrade (upgradeToLifetimeMember : Bool)
  | assetCreate (symbolSize : ℕ)
  | assetUpdate
  | assetIssue (memo : ℕ)
  | proposalCreate
  | proposalUpdate
  | withdrawPermissionClaim (memo : Option ℕ)
  | custom
  | assertion (predicates : ℕ)
  | balanceClaim
  | overrideTransfer (memo : Option ℕ)
  | transferToBlind (outputs : ℕ)
  | blindTransfer (outputs : ℕ)
  | assetSettleCancel
  | fbaDistribute
  /-- Any other operation, by its tag. -/
  | other (which : ℕ)
  deriving DecidableEq

/-- `operation::which`. -/
def FeeBasis.which : FeeBasis → ℕ
  | transfer _ => 0
  | fillOrder => 4
  | accountCreate _ => 5
  | accountUpdate _ => 6
  | accountUpgrade _ => 8
  | assetCreate _ => 10
  | assetUpdate => 11
  | assetIssue _ => 14
  | proposalCreate => 22
  | proposalUpdate => 23
  | withdrawPermissionClaim _ => 27
  | custom => 35
  | assertion _ => 36
  | balanceClaim => 37
  | overrideTransfer _ => 38
  | transferToBlind _ => 39
  | blindTransfer _ => 40
  | assetSettleCancel => 42
  | fbaDistribute => 44
  | other which => which

/-- An operation, as far as its fee is concerned. -/
structure PricedOperation where
  fee : Asset
  basis : FeeBasis
  /-- The size of everything that is packed beside the fee. -/
  rest : ℕ
  deriving DecidableEq

/-- `set_fee_visitor`. -/
def PricedOperation.withFee (op : PricedOperation) (fee : Asset) : PricedOperation :=
  { op with fee := fee }

/-- `pack_size`, for a size of packed asset ids. -/
def PricedOperation.packSize (idSize : ℕ → ℕ) (op : PricedOperation) : ℕ :=
  8 + idSize op.fee.assetId + op.rest

/-- `is_cheap_name`. -/
def isCheapName (name : List Char) : Bool :=
  name.any (fun c => ('0' ≤ c && c ≤ '9') || c = '.' || c = '-' || c = '/') ||
    !name.any (fun c => c = 'a' || c = 'e' || c = 'i' || c = 'o' || c = 'u' || c = 'y')

/-! ### `calculate_fee` of the operations

Fees are unsigned 64-bit numbers, whose sums wrap around, but a few operations add as `share_type`, which
throws. -/

/-- `base_operation::calculate_data_fee`. -/
def calculateDataFee (bytes : ℕ) (pricePerKbyte : ℤ) : Except LedgerError ℤ :=
  let result := uint128 (uint128 bytes * pricePerKbyte) / 1024
  if result ≤ maxShareSupply then .ok result else .error .assertion

/-- A fee and a fee for data. -/
def plusDataFee (fee : ℤ) (bytes : ℕ) (pricePerKbyte : ℤ) : Except LedgerError ℤ := do
  let data ← calculateDataFee bytes pricePerKbyte
  .ok (uint64 (fee + data))

/-- A fee and a fee for data, if there is any, added as `share_type`. -/
def plusDataFeeIf (fee : ℤ) (bytes : Option ℕ) (pricePerKbyte : ℤ) : Except LedgerError ℤ :=
  match bytes with
  | none => .ok (uint64 fee)
  | some bytes => do
    let data ← calculateDataFee bytes pricePerKbyte
    let sum ← toShare (int64 fee + data)
    .ok (uint64 sum)

/-- `calc_fee_visitor`; the `calculate_fee` of each operation. -/
def PricedOperation.calculateFee (idSize : ℕ → ℕ) (k : FeeParameters) (op : PricedOperation) :
    Except LedgerError ℤ :=
  match op.basis with
  | .transfer memo | .withdrawPermissionClaim memo | .overrideTransfer memo =>
    plusDataFeeIf k.fee memo k.pricePerKbyte
  | .accountCreate name =>
    plusDataFee (if isCheapName name then k.basicFee else k.premiumFee) (op.packSize idSize)
      k.pricePerKbyte
  | .accountUpdate newOptions =>
    plusDataFeeIf k.fee (if newOptions then some (op.packSize idSize) else none) k.pricePerKbyte
  | .accountUpgrade upgradeToLifetimeMember =>
    .ok (uint64 (if upgradeToLifetimeMember then k.membershipLifetimeFee else k.membershipAnnualFee))
  | .assetCreate symbolSize =>
    plusDataFee
      (match symbolSize with
        | 3 => k.symbol3
        | 4 => k.symbol4
        | _ => k.longSymbol)
      (op.packSize idSize) k.pricePerKbyte
  | .assetIssue memo => plusDataFee k.fee memo k.pricePerKbyte
  | .assetUpdate | .proposalCreate | .proposalUpdate | .custom =>
    plusDataFee k.fee (op.packSize idSize) k.pricePerKbyte
  | .assertion predicates => .ok (uint64 (k.fee * predicates))
  | .transferToBlind outputs | .blindTransfer outputs =>
    .ok (uint64 (k.fee + outputs * k.pricePerOutput))
  | .fillOrder | .balanceClaim | .assetSettleCancel | .fbaDistribute => .ok 0
  -- `calculate_fee` of `base_operation`, and those that do the same
  | .other _ => .ok (uint64 k.fee)

namespace FeeSchedule

/-- The fee of some operations, once it has reached the largest share supply. -/
def lowered (which : ℕ) (scaled : ℤ) : ℤ :=
  if maxShareSupply ≤ scaled then
    if 22 ≤ which ∧ which ≤ 24 then scaled - maxShareSupply + 300000000
    else if which = 10 then scaled - maxShareSupply + 10000000000000
    else if which = 11 ∨ which = 14 then scaled - maxShareSupply + 1000000000
    else scaled
  else scaled

/-- The scaled fee in core. -/
def scaledFee (S : FeeSchedule) (idSize : ℕ → ℕ) (op : PricedOperation) : Except LedgerError ℤ := do
  let params := (S.parameters op.basis.which).getD (.default op.basis.which)
  let baseValue ← op.calculateFee idSize params
  let scaled := lowered op.basis.which (uint128 (uint128 baseValue * S.scale) / hundredPercent)
  if scaled ≤ maxShareSupply then .ok scaled else .error .assertion

end FeeSchedule

/-- The loop that raises an amount until it is worth enough; the amount and how often it was raised. An
amount can be raised until it does not fit, which is thrown. -/
def raiseUntil (rate : Price) (scaled : ℤ) (assetId : ℕ) : ℕ → ℤ → Except LedgerError (ℤ × ℕ)
  | 0, _ => .error .assertion
  | room + 1, amount => do
    let worth ← Asset.mul ⟨amount, assetId⟩ rate
    let less ← worth.lt ⟨scaled, core⟩
    if less then do
      let (raised, corrections) ← raiseUntil rate scaled assetId room (amount + 1)
      .ok (raised, corrections + 1)
    else .ok (amount, 0)

namespace FeeSchedule

/-- The conversion of a fee in core; the fee, and how often it was raised. -/
def convertScaled (scaled : ℤ) (rate : Price) : Except LedgerError (Asset × ℕ) := do
  let result ← Asset.mul ⟨scaled, core⟩ rate
  let (raised, corrections) ← raiseUntil rate scaled result.assetId (2 ^ 63 - result.amount).toNat
    result.amount
  if raised ≤ maxShareSupply then .ok (⟨raised, result.assetId⟩, corrections) else .error .assertion

/-- `fee_schedule::calculate_fee`. -/
def calculateFee (S : FeeSchedule) (idSize : ℕ → ℕ) (op : PricedOperation) (rate : Price) :
    Except LedgerError Asset := do
  let scaled ← S.scaledFee idSize op
  let (fee, _) ← convertScaled scaled rate
  .ok fee

/-- `MAX_FEE_STABILIZATION_ITERATION`. -/
def maxFeeStabilizationIteration : ℕ := 4

/-- The loop of `set_fee`: the operation, `f` and `f_max`. -/
def stabilize (S : FeeSchedule) (idSize : ℕ → ℕ) (rate : Price) :
    ℕ → PricedOperation → Asset → Asset → Except LedgerError (PricedOperation × Asset)
  | 0, op, _, fMax => .ok (op, fMax)
  | rounds + 1, op, f, fMax => do
    let op := op.withFee fMax
    let f₂ ← S.calculateFee idSize op rate
    if f = f₂ then .ok (op, fMax)
    else do
      let less ← fMax.lt f₂
      stabilize S idSize rate rounds op f₂ (if less then f₂ else fMax)

/-- `fee_schedule::set_fee`; the operation with its fee, and the fee that is returned. -/
def setFee (S : FeeSchedule) (idSize : ℕ → ℕ) (op : PricedOperation) (rate : Price) :
    Except LedgerError (PricedOperation × Asset) := do
  let f ← S.calculateFee idSize op rate
  S.stabilize idSize rate maxFeeStabilizationIteration op f f

end FeeSchedule

/-- `price::unit_price`. -/
def Price.unit : Price := ⟨⟨1, core⟩, ⟨1, core⟩⟩

/-- The check of `evaluator::evaluate` that the fee is sufficient; the fee in core. -/
def checkFee (settings : Settings) (S : FeeSchedule) (idSize : ℕ → ℕ) (payer : ℕ)
    (op : PricedOperation) : LedgerM ℤ := do
  let coreFeePaid ← prepareFee settings payer op.fee
  let requiredFee ← lift (S.calculateFee idSize op .unit)
  assert .insufficientFee (requiredFee.amount ≤ coreFeePaid)
  pure coreFeePaid

end FinChain.Ledger
