import FinChain.Ledger.Fees
import FinChain.Lib.Commitments
import FinChain.Protocol.Authority

/-!
# Confidential balances

The three operations on blinded balances: `transfer_to_blind` turns a public balance into blinded ones,
`blind_transfer` turns blinded balances into others, and `transfer_from_blind` turns them into a public
balance again. A blinded balance is a commitment that hides its amount. `confidential_supply` of an asset
is what all blinded balances in it should add up to.

Each operation is checked in two places. `validate` looks at the operation alone: the inputs and the
outputs must add up, and with more than one output the range proofs must claim a range within the
maximum supply. That a range proof belongs to the commitment of its output is not checked. The evaluator
finds the inputs, consumes them, creates the outputs and updates `confidential_supply`; the fee of the
last two operations is surplus of the inputs, and passes through the temp account.

The cryptography is a parameter (`CommitmentScheme`), and so is the order of commitments by their bytes.
A vector is packed with its size in 32 bits.
-/

namespace FinChain.Protocol

deriving instance DecidableEq for Authority

/-- `is_impossible`. -/
def Authority.isImpossible {Key : Type} (a : Authority Key) : Bool :=
  (a.accountAuths.map Prod.snd).sum + (a.keyAuths.map Prod.snd).sum < a.weightThreshold

end FinChain.Protocol

namespace FinChain.Ledger

open Exec Protocol

variable {Commitment RangeProof Key : Type}

/-- `blinded_balance_object`. -/
structure BlindedBalance (Commitment Key : Type) where
  commitment : Commitment
  assetId : ℕ
  owner : Authority Key

/-- `blind_input`. -/
structure BlindInput (Commitment Key : Type) where
  commitment : Commitment
  owner : Authority Key

/-- `blind_output`. -/
structure BlindOutput (Commitment RangeProof Key : Type) where
  commitment : Commitment
  rangeProof : RangeProof
  owner : Authority Key

/-- `transfer_to_blind_operation`. -/
structure TransferToBlind (Commitment RangeProof Key : Type) where
  fee : Asset
  amount : Asset
  fromAccount : ℕ
  blindingFactor : ℕ
  outputs : List (BlindOutput Commitment RangeProof Key)
  outputs_fit : outputs.length < 2 ^ 32

/-- `transfer_from_blind_operation`. -/
structure TransferFromBlind (Commitment Key : Type) where
  fee : Asset
  amount : Asset
  toAccount : ℕ
  blindingFactor : ℕ
  inputs : List (BlindInput Commitment Key)

/-- `blind_transfer_operation`. -/
structure BlindTransfer (Commitment RangeProof Key : Type) where
  fee : Asset
  inputs : List (BlindInput Commitment Key)
  outputs : List (BlindOutput Commitment RangeProof Key)
  outputs_fit : outputs.length < 2 ^ 32

/-- The objects, with the blinded balances. `confidential_supply` is a member of the dynamic data of an
asset in the source. -/
structure BlindBooks (Commitment Key : Type) where
  books : Books
  confidentialSupply : ℕ → ℤ := fun _ => 0
  blinded : Index (BlindedBalance Commitment Key) := .empty
  /-- A history variable: the ids of the balances that were consumed, newest first. No step reads it. -/
  consumed : List ℕ := []

/-- Functions on these objects. -/
abbrev BlindM (Commitment Key : Type) := EStateM LedgerError (BlindBooks Commitment Key)

/-- A function that leaves the blinded balances alone. -/
def onPublicBooks {α : Type} (x : LedgerM α) : BlindM Commitment Key α := fun s =>
  match x s.books with
  | .ok a b => .ok a { s with books := b }
  | .error e b => .error e { s with books := b }

/-- `AssetObject.allow_confidential`. -/
def AssetObject.allowConfidential (a : AssetObject) : Bool := .disableConfidential ∉ a.options.flags

/-- A number of type `int64_t` as one of type `uint64_t`. -/
def u64 (x : ℤ) : ℕ := (x % 2 ^ 64).toNat

theorem u64_of_lt {x : ℤ} {n : ℕ} (h : x = n) (hn : n < 2 ^ 64) : u64 x = n := by
  unfold u64
  omega

/-! ### Validation -/

section Validate

variable [LinearOrder Commitment] (E : CommitmentScheme Commitment RangeProof)

/-- The loop over the outputs: they are sorted by commitment, and their owners are possible. -/
def OutputsOrdered (outputs : List (BlindOutput Commitment RangeProof Key)) : Prop :=
  (outputs.map BlindOutput.commitment).IsChain (· < ·) ∧ ∀ out ∈ outputs, out.owner.isImpossible = false

instance (outputs : List (BlindOutput Commitment RangeProof Key)) : Decidable (OutputsOrdered outputs) :=
  inferInstanceAs (Decidable (_ ∧ _))

/-- The range a proof claims. -/
def rangeFits (out : BlindOutput Commitment RangeProof Key) : Bool :=
  (E.rangeGetInfo out.rangeProof).any fun info => (info.2 : ℤ) ≤ maxShareSupply

/-- "if( outputs.size() > 1 )". -/
def RangesFit (outputs : List (BlindOutput Commitment RangeProof Key)) : Prop :=
  1 < outputs.length → ∀ out ∈ outputs, rangeFits E out = true

instance (outputs : List (BlindOutput Commitment RangeProof Key)) : Decidable (RangesFit E outputs) :=
  inferInstanceAs (Decidable (_ → _))

/-- `transfer_to_blind_operation::validate`. -/
def TransferToBlind.validate (op : TransferToBlind Commitment RangeProof Key) : Except LedgerError Unit := do
  check .assertion (0 ≤ op.fee.amount)
  check .assertion (0 < op.amount.amount)
  check .assertion (OutputsOrdered op.outputs)
  check .assertion (op.outputs ≠ [])
  let publicC := E.blind op.blindingFactor (u64 op.amount.amount)
  check .assertion (E.verifySum [publicC] (op.outputs.map BlindOutput.commitment) 0 = true)
  check .assertion (RangesFit E op.outputs)

/-- `transfer_from_blind_operation::validate`. -/
def TransferFromBlind.validate (op : TransferFromBlind Commitment Key) : Except LedgerError Unit := do
  check .assertion (0 < op.amount.amount)
  check .assertion (0 ≤ op.fee.amount)
  check .assertion (op.inputs ≠ [])
  check .assertion (op.amount.assetId = op.fee.assetId)
  let publicC := E.blind op.blindingFactor (u64 (op.fee.amount + op.amount.amount))
  check .assertion ((op.inputs.map BlindInput.commitment).IsChain (· < ·))
  check .assertion (E.verifySum (op.inputs.map BlindInput.commitment) [publicC] 0 = true)

/-- `blind_transfer_operation::validate`. -/
def BlindTransfer.validate (op : BlindTransfer Commitment RangeProof Key) : Except LedgerError Unit := do
  check .assertion ((op.inputs.map BlindInput.commitment).IsChain (· < ·))
  check .assertion (OutputsOrdered op.outputs)
  check .assertion (op.inputs ≠ [])
  check .assertion (E.verifySum (op.inputs.map BlindInput.commitment)
    (op.outputs.map BlindOutput.commitment) op.fee.amount = true)
  check .assertion (RangesFit E op.outputs)

end Validate

/-! ### Evaluation -/

section Evaluate

variable [DecidableEq Commitment] [DecidableEq Key]

/-- `by_commitment`. -/
def BlindBooks.findCommitment (s : BlindBooks Commitment Key) (c : Commitment) :
    Option (ℕ × BlindedBalance Commitment Key) :=
  s.blinded.entries.find? fun e => e.2.commitment = c

/-- `o.amount.asset_id(db())`. -/
def requireAsset (assetId : ℕ) : BlindM Commitment Key AssetObject := do
  let s ← get
  require .notFound (s.books.assets.lookup assetId)

/-- "verify all accounts exist and are valid". -/
def verifyOwners (outputs : List (BlindOutput Commitment RangeProof Key)) : BlindM Commitment Key Unit := do
  let s ← get
  assert .notFound (∀ out ∈ outputs, ∀ a ∈ out.owner.accountAuths, (s.books.statistics.lookup a.1).isSome)

/-- The loop over the inputs in `do_evaluate`. -/
def verifyInputs (assetId : ℕ) : List (BlindInput Commitment Key) → BlindM Commitment Key Unit
  | [] => pure ()
  | input :: inputs => do
    let s ← get
    let found ← require .notFound (s.findCommitment input.commitment)
    assert .assertion (found.2.assetId = assetId)
    assert .assertion (found.2.owner = input.owner)
    verifyInputs assetId inputs

/-- The loop over the inputs in `do_apply`. -/
def consumeInputs : List (BlindInput Commitment Key) → BlindM Commitment Key Unit
  | [] => pure ()
  | input :: inputs => do
    let s ← get
    let found ← require .notFound (s.findCommitment input.commitment)
    update fun s => { s with blinded := s.blinded.erase found.1, consumed := found.1 :: s.consumed }
    consumeInputs inputs

/-- The loop over the outputs in `do_apply`. Commitments are unique. -/
def createOutputs (assetId : ℕ) :
    List (BlindOutput Commitment RangeProof Key) → BlindM Commitment Key Unit
  | [] => pure ()
  | out :: outputs => do
    let s ← get
    assert .assertion (s.findCommitment out.commitment = none)
    update fun s =>
      { s with
        blinded := s.blinded.create
          { commitment := out.commitment, assetId := assetId, owner := out.owner } }
    createOutputs assetId outputs

/-- Modify `confidential_supply`. -/
def addConfidential (assetId : ℕ) (delta : ℤ) : BlindM Commitment Key Unit := do
  let s ← get
  let _ ← require .notFound (s.books.dynamicData.lookup assetId)
  assert .assertion (0 ≤ s.confidentialSupply assetId + delta)
  update fun s =>
    { s with
      confidentialSupply :=
        Function.update s.confidentialSupply assetId (s.confidentialSupply assetId + delta) }

/-- `evaluator::evaluate` and `evaluator::apply` around the parts of an evaluator. -/
def runBlind (S : Settings) (skipFeeScheduleCheck : Bool) (feePayer : ℕ) (fee : Asset)
    (kind : OperationKind) (payFee : Settings → ℕ → ℤ → LedgerM Unit)
    (doEvaluate doApply : BlindM Commitment Key Unit) : BlindM Commitment Key Unit := do
  let prepared ← onPublicBooks (prepareFee S feePayer fee)
  let s ← get
  assert .insufficientFee (skipFeeScheduleCheck = true ∨ S.calculateFee s.books kind ≤ prepared)
  doEvaluate
  onPublicBooks (convertFee fee prepared)
  onPublicBooks (payFee S feePayer prepared)
  doApply
  onPublicBooks (adjustBalance feePayer fee.neg)

namespace TransferToBlind

variable (op : TransferToBlind Commitment RangeProof Key)

/-- `transfer_to_blind_evaluator::do_evaluate`. -/
def doEvaluate : BlindM Commitment Key Unit := do
  let a ← requireAsset op.amount.assetId
  assert .assertion (a.allowConfidential = true)
  assert .assertion (a.isTransferRestricted = false)
  assert .assertion (.whiteList ∉ a.options.flags)
  verifyOwners op.outputs

/-- `transfer_to_blind_evaluator::do_apply`. -/
def doApply : BlindM Commitment Key Unit := do
  onPublicBooks (adjustBalance op.fromAccount op.amount.neg)
  addConfidential op.amount.assetId op.amount.amount
  createOutputs op.amount.assetId op.outputs

end TransferToBlind

namespace TransferFromBlind

variable (op : TransferFromBlind Commitment Key)

/-- `transfer_from_blind_evaluator::do_evaluate`. -/
def doEvaluate : BlindM Commitment Key Unit := do
  let _ ← requireAsset op.fee.assetId
  verifyInputs op.fee.assetId op.inputs

/-- `transfer_from_blind_evaluator::do_apply`. -/
def doApply : BlindM Commitment Key Unit := do
  onPublicBooks (adjustBalance tempAccount op.fee)
  onPublicBooks (adjustBalance op.toAccount op.amount)
  consumeInputs op.inputs
  addConfidential op.amount.assetId (-(op.amount.amount + op.fee.amount))

end TransferFromBlind

namespace BlindTransfer

variable (op : BlindTransfer Commitment RangeProof Key)

/-- `blind_transfer_evaluator::do_evaluate`. -/
def doEvaluate : BlindM Commitment Key Unit := do
  let _ ← requireAsset op.fee.assetId
  verifyOwners op.outputs
  verifyInputs op.fee.assetId op.inputs

/-- `blind_transfer_evaluator::do_apply`. -/
def doApply : BlindM Commitment Key Unit := do
  onPublicBooks (adjustBalance tempAccount op.fee)
  consumeInputs op.inputs
  createOutputs op.fee.assetId op.outputs
  addConfidential op.fee.assetId (-op.fee.amount)

end BlindTransfer

end Evaluate

/-- The three operations. -/
inductive BlindOperation (Commitment RangeProof Key : Type)
  | transferToBlind (op : TransferToBlind Commitment RangeProof Key)
  | blindTransfer (op : BlindTransfer Commitment RangeProof Key)
  | transferFromBlind (op : TransferFromBlind Commitment Key)

namespace BlindOperation

def validate [LinearOrder Commitment] (E : CommitmentScheme Commitment RangeProof) :
    BlindOperation Commitment RangeProof Key → Except LedgerError Unit
  | transferToBlind op => op.validate E
  | blindTransfer op => op.validate E
  | transferFromBlind op => op.validate E

def run [DecidableEq Commitment] [DecidableEq Key] (S : Settings) (skip : Bool) :
    BlindOperation Commitment RangeProof Key → BlindM Commitment Key Unit
  | transferToBlind op =>
    runBlind S skip op.fromAccount op.fee .transferToBlind TransferToBlind.payFee op.doEvaluate op.doApply
  | blindTransfer op =>
    runBlind S skip tempAccount op.fee .blindTransfer BlindTransfer.payFee op.doEvaluate op.doApply
  | transferFromBlind op =>
    runBlind S skip tempAccount op.fee .transferFromBlind TransferFromBlind.payFee op.doEvaluate op.doApply

end BlindOperation

end FinChain.Ledger
