import FinChain.Lib.Exec
import FinChain.Chain.ForkDatabase
import FinChain.Chain.BlockDatabase
import Mathlib.Data.List.Sort
import Mathlib.Algebra.Ring.Nat

/-!
# Applying a block

The state of `database` and the functions that apply a transaction and a block to it, in the
order of `_apply_block`. A function returns or throws and leaves a state behind in both cases
(`EStateM`); taking the changes of a failed block back is the business of the undo session around
it.

The undo database is its abstraction by snapshots, which it refines (`Refines`). The sessions that
proposals open inside a block are balanced and not shown here. Pending transactions are not part
of the state either: `push_block` takes them off before and puts them back after it has changed
the chain. No skip flags are set and there are no checkpoints.

`chain` is a history variable. It lists the blocks applied so far, newest first, each with the
object state it was applied to. No step reads it.
-/

namespace FinChain.Chain

open Exec

variable {Op R : Type}

/-- The state of `database`. -/
structure Database (Op R : Type) where
  /-- The object state with `_undo_db`. -/
  undo : SnapshotStack (Objects R)
  forkDb : ForkDatabase Op
  blockDb : BlockDatabase Op
  buffers : VoteBuffers
  chain : List (SignedBlock Op × Objects R)

/-- Functions of `database`. -/
abbrev DatabaseM (Op R : Type) := EStateM ChainError (Database Op R)

namespace Database

/-- `max_undo`, as `GRAPHENE_MAX_UNDO_HISTORY` initialises it. -/
def maxUndo : ℕ := 10000

/-- `GRAPHENE_100_PERCENT` and `GRAPHENE_IRREVERSIBLE_THRESHOLD`. -/
def hundredPercent : ℕ := 10000

def irreversibleThreshold : ℕ := 7000

/-- The current objects. -/
def objects (s : Database Op R) : Objects R := s.undo.current

/-- The state with other objects. -/
def withObjects (s : Database Op R) (o : Objects R) : Database Op R :=
  { s with undo := { s.undo with current := o } }

/-- Replace the objects by a function of them. -/
def modifyObjects (g : Objects R → Objects R) : DatabaseM Op R Unit :=
  update fun s => s.withObjects (g s.objects)

/-- Replace the part of the objects that is a parameter, unless the code there throws. -/
def modifyRest (g : Objects R → Option R) : DatabaseM Op R Unit := do
  let s ← get
  match g s.objects with
  | none => throw .assertion
  | some r => modifyObjects fun o => { o with rest := r }

/-! ### Transactions -/

/-- The expiration checks of `_apply_transaction`: "Skip all manner of expiration and TaPoS
checking if we're on block 1". -/
def notExpired (o : Objects R) (trx : Transaction Op) : Prop :=
  0 < o.headBlockNumber →
    trx.expiration ≤ o.time + o.maximumTimeUntilExpiration ∧ o.time ≤ trx.expiration

instance (o : Objects R) (trx : Transaction Op) : Decidable (notExpired o trx) :=
  inferInstanceAs (Decidable (_ → _))

/-- `_apply_transaction`. -/
def applyTransaction (P : Protocol Op R) (trx : Transaction Op) : DatabaseM Op R Unit := do
  let s ← get
  assert .assertion (P.trxId trx ∉ s.objects.transactions.map Prod.fst)
  assert .assertion (P.acceptable s.objects trx = true)
  assert .assertion (notExpired s.objects trx)
  modifyObjects fun o =>
    { o with transactions := (P.trxId trx, trx.expiration) :: o.transactions }
  modifyRest fun o => P.evaluate o trx

/-- `clear_expired_transactions`. The index is ordered by expiration, so the loop that removes its
first element while it has expired removes all that have. -/
def clearExpiredTransactions : DatabaseM Op R Unit :=
  modifyObjects fun o =>
    { o with transactions := o.transactions.filter fun e => o.time ≤ e.2 }

/-! ### The head block -/

/-- `set_max_size` of the undo and of the fork database. -/
def setMaxSize (n : ℕ) : DatabaseM Op R Unit :=
  update fun s =>
    { s with undo := { s.undo with maxSize := n }, forkDb := s.forkDb.setMaxSize n }

/-- `update_global_dynamic_data`. The sizes of the undo history and of the fork database follow
the irreversible block of the previous head, and they are not undone when the block fails. -/
def updateGlobalDynamicData (P : Protocol Op R) (b : SignedBlock Op) : DatabaseM Op R Unit := do
  modifyObjects fun o =>
    { o with
      headBlockNumber := b.blockNum
      headBlockId := P.blockId b
      time := b.timestamp
      rest := P.countSlots o b }
  let s ← get
  assert .undoHistory
    (s.objects.headBlockNumber - s.objects.lastIrreversibleBlockNum < maxUndo)
  setMaxSize (s.objects.headBlockNumber - s.objects.lastIrreversibleBlockNum + 1)

/-- `update_signing_witness`. -/
def updateSigningWitness (P : Protocol Op R) (b : SignedBlock Op) : DatabaseM Op R Unit := do
  modifyRest fun o => P.paySigningWitness o b
  modifyObjects fun o =>
    { o with lastConfirmedBlockNum := Function.update o.lastConfirmedBlockNum b.witness b.blockNum }

/-- The block number `update_last_irreversible_block` proposes: seven out of ten active witnesses
have confirmed it. -/
def confirmedBlockNum (o : Objects R) : ℕ :=
  let offset := (hundredPercent - irreversibleThreshold) * o.activeWitnesses.length / hundredPercent
  let confirmed := (o.activeWitnesses.map o.lastConfirmedBlockNum).insertionSort (· ≤ ·)
  -- "to maintain block missing from block 34560000 to 34700000"
  if 34560000 ≤ o.headBlockNumber ∧ o.headBlockNumber ≤ 34700000 then o.headBlockNumber - 20
  else confirmed.getD offset 0

/-- `update_last_irreversible_block`. -/
def updateLastIrreversibleBlock : DatabaseM Op R Unit :=
  modifyObjects fun o =>
    if o.lastIrreversibleBlockNum < confirmedBlockNum o then
      { o with lastIrreversibleBlockNum := confirmedBlockNum o }
    else o

/-! ### Maintenance -/

/-- `std::vector::resize`: elements that were there stay. -/
def resize (n : ℕ) (l : List ℕ) : List ℕ :=
  l.take n ++ List.replicate (n - l.length) 0

/-- The constructor of `vote_tally_helper`. -/
def resizeBuffers (P : Protocol Op R) (o : Objects R) (v : VoteBuffers) : VoteBuffers where
  voteTally := resize (P.nextAvailableVoteId o) v.voteTally
  witnessCountHistogram := resize (P.maximumWitnessCount o / 2 + 1) v.witnessCountHistogram
  committeeCountHistogram := resize (P.maximumCommitteeCount o / 2 + 1) v.committeeCountHistogram
  totalVotingStake := 0

/-- Add a stake to an element of a buffer of 64-bit numbers; offsets beyond the end are ignored. -/
def addStake (stake : ℕ) (l : List ℕ) (offset : ℕ) : List ℕ :=
  l.modify offset fun n => (n + stake) % 2 ^ 64

/-- `vote_tally_helper::operator()`. -/
def tallyVote (P : Protocol Op R) (o : Objects R) (vote : Vote) (v : VoteBuffers) : VoteBuffers :=
  if vote.counted then
    { voteTally := vote.votes.foldl (addStake vote.votingStake) v.voteTally
      witnessCountHistogram :=
        if vote.numWitness ≤ P.maximumWitnessCount o then
          addStake vote.votingStake v.witnessCountHistogram
            (min (vote.numWitness / 2) (v.witnessCountHistogram.length - 1))
        else v.witnessCountHistogram
      committeeCountHistogram :=
        if vote.numCommittee ≤ P.maximumCommitteeCount o then
          addStake vote.votingStake v.committeeCountHistogram
            (min (vote.numCommittee / 2) (v.committeeCountHistogram.length - 1))
        else v.committeeCountHistogram
      totalVotingStake := (v.totalVotingStake + vote.votingStake) % 2 ^ 64 }
  else v

/-- `tally_helper` on one account. -/
def tallyAccount (P : Protocol Op R) (account : ℕ) : DatabaseM Op R Unit := do
  let s ← get
  match P.vote s.objects account with
  | none => throw .assertion
  | some vote => update fun s => { s with buffers := tallyVote P s.objects vote s.buffers }

/-- The body of the loop of `perform_account_maintenance`: `tally_helper`, then `fee_helper`. -/
def maintainAccount (P : Protocol Op R) (account : ℕ) : DatabaseM Op R Unit := do
  tallyAccount P account
  modifyRest fun o => P.processFees o account

/-- `clear_canary`: the buffers are emptied when the rest of the maintenance returns or throws. -/
def clearBuffers : DatabaseM Op R Unit :=
  update fun s =>
    { s with buffers :=
      { voteTally := []
        witnessCountHistogram := []
        committeeCountHistogram := []
        totalVotingStake := s.buffers.totalVotingStake } }

/-- The second half of `perform_chain_maintenance`. -/
def finishMaintenance (P : Protocol Op R) (b : SignedBlock Op) : DatabaseM Op R Unit := do
  let s ← get
  match P.endMaintenance s.objects s.buffers b with
  | none => throw .assertion
  | some r => modifyObjects fun o =>
      { o with
        activeWitnesses := r.activeWitnesses
        maximumTimeUntilExpiration := r.maximumTimeUntilExpiration
        nextMaintenanceTime := r.nextMaintenanceTime
        rest := r.rest }

/-- `perform_chain_maintenance`. The canaries are set up only after the loop over the accounts. -/
def performChainMaintenance (P : Protocol Op R) (b : SignedBlock Op) : DatabaseM Op R Unit := do
  modifyRest fun o => P.beginMaintenance o
  update fun s => { s with buffers := resizeBuffers P s.objects s.buffers }
  let s ← get
  (P.accounts s.objects).forM (maintainAccount P)
  tryCatch (finishMaintenance P b) fun e => do
    clearBuffers
    throw e
  clearBuffers

/-! ### Blocks -/

/-- `validate_block_header`. -/
def validateBlockHeader (P : Protocol Op R) (b : SignedBlock Op) : DatabaseM Op R Unit := do
  let s ← get
  assert .assertion (s.objects.headBlockId = b.previous)
  assert .assertion (s.objects.time < b.timestamp)
  assert .assertion (P.scheduled s.objects b = true)

/-- The maintenance of a block that was found to need it. -/
def maintainIf (maintNeeded : Bool) (P : Protocol Op R) (b : SignedBlock Op) :
    DatabaseM Op R Unit :=
  if maintNeeded then performChainMaintenance P b else pure ()

/-- `_apply_block`. -/
def applyBlock (P : Protocol Op R) (b : SignedBlock Op) : DatabaseM Op R Unit := do
  assert .assertion (b.transactionMerkleRoot = P.merkleRoot b.transactions)
  validateBlockHeader P b
  let s ← get
  b.transactions.forM (applyTransaction P)
  updateGlobalDynamicData P b
  updateSigningWitness P b
  updateLastIrreversibleBlock
  -- whether there is maintenance to do was decided before the transactions
  maintainIf (s.objects.nextMaintenanceTime ≤ b.timestamp) P b
  clearExpiredTransactions
  modifyRest fun o => P.endOfBlock o b

end Database

end FinChain.Chain
