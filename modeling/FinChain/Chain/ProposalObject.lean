import Mathlib.Data.Finset.SDiff

/-!
# Proposals

`proposal_object`: a transaction that waits for approval. The approvals that are there are collected in three
sets, of accounts that approve with their active or their owner authority, and of keys; a proposal with a
review period is left alone from the time on at which that begins.
-/

namespace FinChain.Chain

/-- `proposal_object`, with the operations of the proposed transaction. -/
structure ProposalObject (Key Op : Type) where
  expirationTime : ℕ
  reviewPeriodTime : Option ℕ := none
  proposedOps : List Op
  requiredActiveApprovals : Finset ℕ := ∅
  availableActiveApprovals : Finset ℕ := ∅
  requiredOwnerApprovals : Finset ℕ := ∅
  availableOwnerApprovals : Finset ℕ := ∅
  availableKeyApprovals : Finset Key := ∅

/-- `proposal_update_operation`. -/
structure ProposalUpdate (Key : Type) where
  feePayingAccount : ℕ
  proposal : ℕ
  activeApprovalsToAdd : Finset ℕ := ∅
  activeApprovalsToRemove : Finset ℕ := ∅
  ownerApprovalsToAdd : Finset ℕ := ∅
  ownerApprovalsToRemove : Finset ℕ := ∅
  keyApprovalsToAdd : Finset Key := ∅
  keyApprovalsToRemove : Finset Key := ∅

/-- The modification that `proposal_update_evaluator::do_apply` makes. -/
def ProposalUpdate.modify {Key Op : Type} [DecidableEq Key] (op : ProposalUpdate Key)
    (p : ProposalObject Key Op) : ProposalObject Key Op :=
  { p with
    availableActiveApprovals :=
      (p.availableActiveApprovals ∪ op.activeApprovalsToAdd) \ op.activeApprovalsToRemove
    availableOwnerApprovals :=
      (p.availableOwnerApprovals ∪ op.ownerApprovalsToAdd) \ op.ownerApprovalsToRemove
    availableKeyApprovals :=
      (p.availableKeyApprovals ∪ op.keyApprovalsToAdd) \ op.keyApprovalsToRemove }

end FinChain.Chain
