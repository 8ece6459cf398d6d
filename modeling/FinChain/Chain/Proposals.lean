import FinChain.Chain.ProposalObject
import FinChain.Ledger.State
import FinChain.Protocol.Authority

/-!
# Proposals and their review period

A proposal is created with the operations it proposes, collects approvals, and is executed when it has
enough of them: at once when an update brings the last one, or when it expires. With a review period it
is executed only when it expires, and no approvals are to be added from the beginning of the period on,
so that it can still be prevented. Whoever proposes what needs the authority of the committee has to
allow for such a period.

The operations of a proposal are applied within the evaluator of the last update, one level deeper, and
a proposal may in turn contain operations on proposals. `applyOperation` has the levels that the stack
allows for; what is thrown when there are none left is no exception of the source, and no handler
catches it.

The rest of the state is arbitrary, and so is what other operations and fees do to it
(`Surroundings`).
-/

namespace FinChain.Chain

attribute [local instance] isTrans_le antisymm_le

open Exec Ledger FinChain.Protocol

/-! ### Operations -/

/-- `proposal_create_operation`. -/
structure ProposalCreate (Op : Type) where
  fee : Asset
  feePayingAccount : ℕ
  proposedOps : List Op
  expirationTime : ℕ
  reviewPeriodSeconds : Option ℕ

/-- `proposal_delete_operation`. -/
structure ProposalDelete where
  feePayingAccount : ℕ
  usingOwnerAuthority : Bool := false
  fee : Asset
  proposal : ℕ

/-- `operation`: those on proposals, and all others. -/
inductive Operation (Key Other : Type)
  | other (op : Other)
  | proposalCreate (op : ProposalCreate (Operation Key Other))
  | proposalUpdate (fee : Asset) (op : ProposalUpdate Key)
  | proposalDelete (op : ProposalDelete)

/-- The parts of `dynamic_global_property_object` and `chain_parameters` that matter for proposals. -/
structure ChainProperties where
  headTime : ℕ
  maximumProposalLifetime : ℕ
  committeeProposalReviewPeriod : ℕ
  maxAuthorityDepth : ℕ

inductive ProposalError
  | notFound
  | assertion
  | reviewPeriodRequired
  | reviewPeriodInsufficient
  /-- Not an exception of the source. -/
  | stackOverflow
  deriving DecidableEq, Repr

/-- The rest of the chain: other operations, the accounts, and the fees. -/
structure Surroundings (Key Other R : Type) where
  validate : Other → Bool
  requiredAuthorities : Other → Required Key
  getActive : R → ℕ → Option (Authority Key)
  getOwner : R → ℕ → Option (Authority Key)
  /-- `prepare_fee`, and the check of the fee schedule. -/
  prepareFee : Operation Key Other → ChainProperties → R → Except ProposalError Unit
  /-- `convert_fee` and `pay_fee`. -/
  payFee : Operation Key Other → ChainProperties → R → Except ProposalError R
  /-- `db_adjust_balance` of the fee. -/
  chargeFee : Operation Key Other → ChainProperties → R → Except ProposalError R
  /-- Evaluation and application of another operation, which may be part of a proposal. -/
  apply : Other → Bool → ChainProperties → R → Except ProposalError R

/-- What happened to proposals. -/
inductive ProposalEvent
  /-- The proposal was created, when the committee required this review period. -/
  | created (id committeeReviewPeriod : ℕ)
  | executed (id time : ℕ)
  deriving DecidableEq, Repr

structure ProposalBooks (Key Other R : Type) where
  properties : ChainProperties
  proposals : Index (ProposalObject Key (Operation Key Other))
  rest : R
  /-- A history variable. No step reads it. -/
  history : List ProposalEvent := []

variable {Key Other R : Type} [LinearOrder Key]

abbrev ProposalM (Key Other R : Type) := EStateM ProposalError (ProposalBooks Key Other R)

/-! ### Validation and required authorities -/

/-- `proposal_update_operation::validate`. -/
def ProposalUpdate.validate (fee : Asset) (op : ProposalUpdate Key) : Bool :=
  decide (0 ≤ fee.amount ∧
    ¬ (op.activeApprovalsToAdd = ∅ ∧ op.activeApprovalsToRemove = ∅ ∧ op.ownerApprovalsToAdd = ∅ ∧
      op.ownerApprovalsToRemove = ∅ ∧ op.keyApprovalsToAdd = ∅ ∧ op.keyApprovalsToRemove = ∅) ∧
    -- "Cannot add and remove approval at the same time."
    Disjoint op.activeApprovalsToAdd op.activeApprovalsToRemove ∧
    Disjoint op.ownerApprovalsToAdd op.ownerApprovalsToRemove ∧
    Disjoint op.keyApprovalsToAdd op.keyApprovalsToRemove)

mutual

/-- `operation_validate`. -/
def Operation.validate (E : Surroundings Key Other R) : Operation Key Other → Bool
  | .other op => E.validate op
  | .proposalCreate ⟨_, _, ops, _, _⟩ => !ops.isEmpty && validateAll E ops
  | .proposalUpdate fee op => op.validate fee
  | .proposalDelete op => decide (0 ≤ op.fee.amount)

/-- `operation_validate` of a list of operations. -/
def Operation.validateAll (E : Surroundings Key Other R) : List (Operation Key Other) → Bool
  | [] => true
  | op :: ops => op.validate E && validateAll E ops

end

/-- The authority that needs the signatures of all keys. -/
def keyAuthority (keys : Finset Key) : Authority Key where
  weightThreshold := keys.card
  accountAuths := []
  keyAuths := (keys.sort (· ≤ ·)).map fun k => (k, 1)
  accounts_nodup := List.nodup_nil
  keys_nodup := by
    rw [List.map_map]
    change ((keys.sort (· ≤ ·)).map id).Nodup
    rw [List.map_id]
    exact Finset.sort_nodup keys (· ≤ ·)

/-- `operation_get_required_authorities`. An update of a proposal always asks for another authority,
if only for one without keys. -/
def Operation.requiredAuthorities (E : Surroundings Key Other R) : Operation Key Other → Required Key
  | .other op => E.requiredAuthorities op
  | .proposalCreate op => { active := {op.feePayingAccount} }
  | .proposalUpdate _ op =>
    { active :=
        insert op.feePayingAccount (op.activeApprovalsToAdd ∪ op.activeApprovalsToRemove)
      owner := op.ownerApprovalsToAdd ∪ op.ownerApprovalsToRemove
      other := [keyAuthority (op.keyApprovalsToAdd ∪ op.keyApprovalsToRemove)] }
  | .proposalDelete op => { active := {op.feePayingAccount} }

/-- The authorities that a list of operations requires. -/
def requiredOf (E : Surroundings Key Other R) (ops : List (Operation Key Other)) : Required Key :=
  ops.foldl (fun r op => r.add (op.requiredAuthorities E)) {}

/-! ### Proposals -/

/-- The review period has begun. -/
def ProposalObject.InReview {Op : Type} (p : ProposalObject Key Op) (now : ℕ) : Prop :=
  ∃ time, p.reviewPeriodTime = some time ∧ time ≤ now

instance {Op : Type} (p : ProposalObject Key Op) (now : ℕ) : Decidable (p.InReview now) :=
  match h : p.reviewPeriodTime with
  | none => isFalse fun ⟨_, htime, _⟩ => by
      rw [h] at htime
      cases htime
  | some time =>
    if hle : time ≤ now then isTrue ⟨time, h, hle⟩
    else isFalse fun ⟨_, htime, hle'⟩ => by
      rw [h] at htime
      cases htime
      exact hle hle'

/-- `proposal_object::is_authorized_to_execute`. -/
def ProposalObject.isAuthorizedToExecute (E : Surroundings Key Other R)
    (p : ProposalObject Key (Operation Key Other)) (properties : ChainProperties) (rest : R) : Bool :=
  let accounts : Accounts Key :=
    { getActive := E.getActive rest
      getOwner := E.getOwner rest
      activeApprovals := p.availableActiveApprovals
      ownerApprovals := p.availableOwnerApprovals }
  match verifyAuthority (Operation.requiredAuthorities E) accounts properties.maxAuthorityDepth true
      p.proposedOps p.availableKeyApprovals with
  | .ok _ => true
  | .error _ => false

/-- An undo session: what throws in it has changed nothing. -/
def inSession {α : Type} (x : ProposalM Key Other R α) : ProposalM Key Other R α := fun s =>
  match x s with
  | .ok a s' => .ok a s'
  | .error e _ => .error e s

/-- `remove` of a proposal. -/
def removeProposal (id : ℕ) : ProposalM Key Other R Unit := do
  let s ← get
  let _ ← require .notFound (s.proposals.lookup id)
  update fun s => { s with proposals := s.proposals.erase id }

/-- `push_proposal`, where `apply` applies an operation of the proposal. -/
def pushProposal (apply : Operation Key Other → ProposalM Key Other R Unit) (id : ℕ)
    (p : ProposalObject Key (Operation Key Other)) : ProposalM Key Other R Unit :=
  inSession do
    p.proposedOps.forM apply
    removeProposal id
    update fun s => { s with history := .executed id s.properties.headTime :: s.history }

/-- Run `x`, and if it throws an exception go on with `handle`. -/
def onException (x handle : ProposalM Key Other R Unit) : ProposalM Key Other R Unit :=
  tryCatch x fun e => if e = .stackOverflow then throw e else handle

/-! ### Evaluators -/

/-- A change of the rest of the state. -/
def onRest (f : ChainProperties → R → Except ProposalError R) : ProposalM Key Other R Unit := do
  let s ← get
  let r ← lift (f s.properties s.rest)
  update fun s => { s with rest := r }

/-- `start_evaluate` of an operation on proposals. -/
def startEvaluate (E : Surroundings Key Other R) (op : Operation Key Other)
    (doEvaluate doApply : ProposalM Key Other R Unit) : ProposalM Key Other R Unit := do
  let s ← get
  lift (E.prepareFee op s.properties s.rest)
  doEvaluate
  onRest (E.payFee op)
  doApply
  onRest (E.chargeFee op)

namespace ProposalCreate

/-- "If we're dealing with the committee authority, make sure this transaction has a sufficient review
period." -/
def checkCommittee (op : ProposalCreate (Operation Key Other)) (r : Required Key) :
    ProposalM Key Other R Unit :=
  if committeeAccount ∈ r.active ∪ r.owner then do
    let s ← get
    let seconds ← require .reviewPeriodRequired op.reviewPeriodSeconds
    assert .reviewPeriodInsufficient (s.properties.committeeProposalReviewPeriod ≤ seconds)
  else pure ()

def doEvaluate (E : Surroundings Key Other R) (op : ProposalCreate (Operation Key Other)) :
    ProposalM Key Other R Unit := do
  let s ← get
  -- "Proposal has already expired on creation."
  assert .assertion (s.properties.headTime < op.expirationTime)
  -- "Proposal expiration time is too far in the future."
  assert .assertion (op.expirationTime ≤
    timePointSec (s.properties.headTime + s.properties.maximumProposalLifetime))
  -- "Proposal review period must be less than its overall lifetime."
  assert .assertion (∀ seconds ∈ op.reviewPeriodSeconds,
    seconds < op.expirationTime - s.properties.headTime)
  assert .assertion ((requiredOf E op.proposedOps).other.isEmpty = true)
  op.checkCommittee (requiredOf E op.proposedOps)
  assert .assertion (op.proposedOps.isEmpty = false ∧ Operation.validateAll E op.proposedOps = true)

/-- The proposal that is created. -/
def proposal (E : Surroundings Key Other R) (op : ProposalCreate (Operation Key Other)) :
    ProposalObject Key (Operation Key Other) where
  expirationTime := op.expirationTime
  reviewPeriodTime := op.reviewPeriodSeconds.map fun seconds =>
    timePointSec (op.expirationTime - seconds)
  proposedOps := op.proposedOps
  -- "owner authority approval implies active authority approval"
  requiredActiveApprovals :=
    (requiredOf E op.proposedOps).active \ (requiredOf E op.proposedOps).owner
  requiredOwnerApprovals := (requiredOf E op.proposedOps).owner

def doApply (E : Surroundings Key Other R) (op : ProposalCreate (Operation Key Other)) :
    ProposalM Key Other R Unit :=
  update fun s =>
    { s with
      proposals := s.proposals.create (op.proposal E)
      history :=
        .created s.proposals.next s.properties.committeeProposalReviewPeriod :: s.history }

end ProposalCreate

namespace ProposalUpdate

def doEvaluate (op : ProposalUpdate Key) : ProposalM Key Other R Unit := do
  let s ← get
  let p ← require .notFound (s.proposals.lookup op.proposal)
  -- "This proposal is in its review period. No new approvals may be added."
  assert .assertion (p.InReview s.properties.headTime →
    op.activeApprovalsToAdd = ∅ ∧ op.ownerApprovalsToAdd = ∅)
  assert .assertion (op.activeApprovalsToRemove ⊆ p.availableActiveApprovals)
  assert .assertion (op.ownerApprovalsToRemove ⊆ p.availableOwnerApprovals)

/-- "If the proposal has a review period, don't bother attempting to authorize/execute it." An
exception of the proposal is logged. -/
def execute (E : Surroundings Key Other R) (apply : Operation Key Other → ProposalM Key Other R Unit)
    (op : ProposalUpdate Key) : ProposalM Key Other R Unit := do
  let s ← get
  let p ← require .notFound (s.proposals.lookup op.proposal)
  if p.reviewPeriodTime.isSome then pure ()
  else if p.isAuthorizedToExecute E s.properties s.rest then
    onException (pushProposal apply op.proposal p) (pure ())
  else pure ()

def doApply (E : Surroundings Key Other R) (apply : Operation Key Other → ProposalM Key Other R Unit)
    (op : ProposalUpdate Key) : ProposalM Key Other R Unit := do
  update fun s => { s with proposals := s.proposals.modify op.proposal op.modify }
  op.execute E apply

end ProposalUpdate

namespace ProposalDelete

def doEvaluate (op : ProposalDelete) : ProposalM Key Other R Unit := do
  let s ← get
  let p ← require .notFound (s.proposals.lookup op.proposal)
  -- "Provided authority is not authoritative for this proposal."
  assert .assertion (op.feePayingAccount ∈
    if op.usingOwnerAuthority then p.requiredOwnerApprovals else p.requiredActiveApprovals)

def doApply (op : ProposalDelete) : ProposalM Key Other R Unit := removeProposal op.proposal

end ProposalDelete

/-- `apply_operation`, in a transaction or as part of a proposal, with so many levels of the stack
left. -/
def applyOperation (E : Surroundings Key Other R) :
    ℕ → Bool → Operation Key Other → ProposalM Key Other R Unit
  | 0, _, _ => throw .stackOverflow
  | _ + 1, proposed, .other op => onRest (E.apply op proposed)
  | _ + 1, _, .proposalCreate op =>
    startEvaluate E (.proposalCreate op) (op.doEvaluate E) (op.doApply E)
  | levels + 1, _, .proposalUpdate fee op =>
    startEvaluate E (.proposalUpdate fee op) op.doEvaluate
      (op.doApply E (applyOperation E levels true))
  | _ + 1, _, .proposalDelete op => startEvaluate E (.proposalDelete op) op.doEvaluate op.doApply

/-! ### Expired proposals -/

/-- The order of the index of proposals by expiration. -/
def expiresBefore (a b : ℕ × ProposalObject Key (Operation Key Other)) : Prop :=
  a.2.expirationTime < b.2.expirationTime ∨
    a.2.expirationTime = b.2.expirationTime ∧ a.1 ≤ b.1

instance : DecidableRel (@expiresBefore Key Other) :=
  fun _ _ => inferInstanceAs (Decidable (_ ∨ _))

/-- The first proposal by expiration, if it has expired. -/
def ProposalBooks.firstExpired (s : ProposalBooks Key Other R) :
    Option (ℕ × ProposalObject Key (Operation Key Other)) :=
  (s.proposals.entries.insertionSort expiresBefore).head?.filter fun e =>
    decide (e.2.expirationTime ≤ s.properties.headTime)

/-- An expired proposal is executed if it has enough approvals, and removed in any case. -/
def finishProposal (E : Surroundings Key Other R) (levels id : ℕ)
    (p : ProposalObject Key (Operation Key Other)) : ProposalM Key Other R Unit := do
  let s ← get
  if p.isAuthorizedToExecute E s.properties s.rest then
    onException (pushProposal (applyOperation E levels true) id p) (removeProposal id)
  else removeProposal id

/-- The loop of `clear_expired_proposals`. -/
def clearProposals (E : Surroundings Key Other R) (levels : ℕ) : ℕ → ProposalM Key Other R Unit
  | 0 => pure ()
  | fuel + 1 => do
    let s ← get
    match s.firstExpired with
    | none => pure ()
    | some (id, p) => do
      finishProposal E levels id p
      clearProposals E levels fuel

/-- `clear_expired_proposals`. In every round a proposal that has expired is removed, and none is
created. -/
def clearExpiredProposals (E : Surroundings Key Other R) (levels : ℕ) : ProposalM Key Other R Unit := do
  let s ← get
  clearProposals E levels s.proposals.entries.length

end FinChain.Chain
