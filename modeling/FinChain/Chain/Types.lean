import FinChain.Lib.SnapshotStack
import Mathlib.Data.Nat.Pairing

/-!
# Blocks, transactions and the objects they change

The data the block logic of `database` works on. Operations stay a parameter `Op`, and of the
object state only the parts the block logic itself reads or writes are spelled out (`Objects`);
everything else is one value `rest : R`.

`Protocol` collects the code the block logic calls but does not depend on in any other way: the
hash functions of the `fc` library, the operation evaluators with the checks before them, and the
steps at the end of a block. Each of them is a function of the object state, and by its type it
can replace `rest` only. This is what the source bears out: the head block, the last irreversible
block and the transaction index are written by the functions modelled here and by no evaluator.

Block numbers and times are natural numbers; chains stay far below `2 ^ 32` blocks and seconds.
-/

namespace FinChain.Chain

/-- `block_id_type`: the block number in the first four bytes, then the hash of the header. -/
structure BlockId where
  /-- `block_header::num_from_id`. -/
  num : ℕ
  hash : ℕ
  deriving DecidableEq, Repr

/-- `block_id_type()`, the head block id before the first block. -/
def BlockId.zero : BlockId := ⟨0, 0⟩

/-- `signed_transaction`. -/
structure Transaction (Op : Type) where
  refBlockNum : ℕ
  refBlockPrefix : ℕ
  expiration : ℕ
  operations : List Op
  signatures : List ℕ
  deriving DecidableEq

/-- `signed_block`. -/
structure SignedBlock (Op : Type) where
  previous : BlockId
  timestamp : ℕ
  witness : ℕ
  transactionMerkleRoot : ℕ
  witnessSignature : ℕ
  transactions : List (Transaction Op)
  deriving DecidableEq

/-- `block_header::block_num`. -/
def SignedBlock.blockNum {Op : Type} (b : SignedBlock Op) : ℕ :=
  b.previous.num + 1

/-- The exceptions of the block logic. -/
inductive ChainError
  /-- "attempting to push a block that is too old". -/
  | tooOld
  /-- `unlinkable_block_exception`: "block does not link to known chain". -/
  | unlinkable
  /-- `pop_empty_chain`: "there are no blocks to pop". -/
  | popEmptyChain
  /-- "no blocks to pop" and "poping block would leave head block null" of the fork database. -/
  | noForkItem
  /-- `key_not_found_exception`: "Block ${id} not contained in block database". -/
  | keyNotFound
  /-- `undo_database_exception`: the chain has outgrown the undo history. -/
  | undoHistory
  /-- An `FC_ASSERT` of the undo database. -/
  | undo
  /-- Any other failed check, also those of the evaluators. -/
  | assertion
  /-- The exception of a block of the new branch, thrown on when a fork switch failed. -/
  | switchFailed (e : ChainError)
  deriving DecidableEq, Repr

/-- The object state of the chain. -/
structure Objects (R : Type) where
  /-- `dynamic_global_property_object::head_block_number`. -/
  headBlockNumber : ℕ
  headBlockId : BlockId
  /-- `dynamic_global_property_object::time`, the time of the head block. -/
  time : ℕ
  lastIrreversibleBlockNum : ℕ
  nextMaintenanceTime : ℕ
  /-- `chain_parameters::maximum_time_until_expiration`. -/
  maximumTimeUntilExpiration : ℕ
  activeWitnesses : List ℕ
  /-- `witness_object::last_confirmed_block_num`. -/
  lastConfirmedBlockNum : ℕ → ℕ
  /-- The transaction index: the id and the expiration of each `transaction_object`. -/
  transactions : List (ℕ × ℕ)
  rest : R

/-- What `vote_tally_helper` reads off one account. -/
structure Vote where
  /-- `count_non_member_votes`, or the account is a member. -/
  counted : Bool
  votingStake : ℕ
  /-- The instance numbers of the votes of the opinion account. -/
  votes : List ℕ
  numWitness : ℕ
  numCommittee : ℕ

/-- The vectors the votes are counted in. They are members of `database` outside the undo log. -/
structure VoteBuffers where
  voteTally : List ℕ := []
  witnessCountHistogram : List ℕ := []
  committeeCountHistogram : List ℕ := []
  totalVotingStake : ℕ := 0
  deriving DecidableEq

/-- What the second half of the chain maintenance decides. -/
structure MaintenanceResult (R : Type) where
  activeWitnesses : List ℕ
  maximumTimeUntilExpiration : ℕ
  nextMaintenanceTime : ℕ
  rest : R

/-- The code called by the block logic. -/
structure Protocol (Op R : Type) where
  /-- The hash of the signed header, of which `signed_block_header::id` keeps the last bytes. -/
  headerHash : SignedBlock Op → ℕ
  /-- `signed_block::calculate_merkle_root`. -/
  merkleRoot : List (Transaction Op) → ℕ
  /-- `transaction::id`. -/
  trxId : Transaction Op → ℕ
  /-- The signature and slot checks of `validate_block_header`. -/
  scheduled : Objects R → SignedBlock Op → Bool
  /-- `transaction::validate`, `verify_authority` and the TaPoS check. -/
  acceptable : Objects R → Transaction Op → Bool
  /-- The operations of a transaction, one after the other, and the check of the temp account. -/
  evaluate : Objects R → Transaction Op → Option R
  /-- The counters of missed blocks and filled slots in `update_global_dynamic_data`. -/
  countSlots : Objects R → SignedBlock Op → R
  /-- `deposit_witness_pay` and the slot of the witness in `update_signing_witness`. -/
  paySigningWitness : Objects R → SignedBlock Op → Option R
  /-- `distribute_fba_balances` and `create_buyback_orders`. -/
  beginMaintenance : Objects R → Option R
  nextAvailableVoteId : Objects R → ℕ
  maximumWitnessCount : Objects R → ℕ
  maximumCommitteeCount : Objects R → ℕ
  /-- The accounts, by name. -/
  accounts : Objects R → List ℕ
  /-- The vote of an account; `none` when its voting account does not exist. -/
  vote : Objects R → ℕ → Option Vote
  /-- `account_statistics_object::process_fees`. -/
  processFees : Objects R → ℕ → Option R
  /-- The updates of the witnesses, committee, workers and parameters from the counted votes, and
  the budget. -/
  endMaintenance : Objects R → VoteBuffers → SignedBlock Op → Option (MaintenanceResult R)
  /-- From `create_block_summary` to `update_witness_schedule`, without the transaction index. -/
  endOfBlock : Objects R → SignedBlock Op → Option R

/-- `signed_block_header::id`. -/
def Protocol.blockId {Op R : Type} (P : Protocol Op R) (b : SignedBlock Op) : BlockId :=
  ⟨b.blockNum, P.headerHash b⟩

@[simp] theorem Protocol.blockId_num {Op R : Type} (P : Protocol Op R) (b : SignedBlock Op) :
    (P.blockId b).num = b.blockNum := rfl

/-- No block has the id of the empty chain. -/
theorem Protocol.blockId_ne_zero {Op R : Type} (P : Protocol Op R) (b : SignedBlock Op) :
    P.blockId b ≠ .zero := by
  intro h
  have hnum : b.previous.num + 1 = 0 := congrArg BlockId.num h
  omega

/-- A block does not have the id of its predecessor. -/
theorem Protocol.blockId_ne_previous {Op R : Type} (P : Protocol Op R) (b : SignedBlock Op) :
    P.blockId b ≠ b.previous := by
  intro h
  have hnum : b.previous.num + 1 = b.previous.num := congrArg BlockId.num h
  omega

/-! ### A protocol for examples -/

/-- A protocol in which only the checks of the block logic itself can fail. Block ids are the
header's predecessor and signature, transaction ids its expiration and reference block. -/
def Protocol.permissive : Protocol ℕ Unit where
  headerHash b := Nat.pair b.previous.hash b.witnessSignature
  merkleRoot trxs := trxs.length
  trxId trx := Nat.pair trx.expiration trx.refBlockNum
  scheduled _ _ := true
  acceptable _ _ := true
  evaluate _ _ := some ()
  countSlots _ _ := ()
  paySigningWitness _ _ := some ()
  beginMaintenance _ := some ()
  nextAvailableVoteId _ := 0
  maximumWitnessCount _ := 0
  maximumCommitteeCount _ := 0
  accounts _ := []
  vote _ _ := none
  processFees _ _ := some ()
  endMaintenance o _ _ := some
    { activeWitnesses := o.activeWitnesses
      maximumTimeUntilExpiration := o.maximumTimeUntilExpiration
      nextMaintenanceTime := o.nextMaintenanceTime + 86400
      rest := () }
  endOfBlock _ _ := some ()

/-- Its genesis objects, with the given active witnesses. -/
def Protocol.permissiveGenesis (activeWitnesses : List ℕ) : Objects Unit where
  headBlockNumber := 0
  headBlockId := .zero
  time := 0
  lastIrreversibleBlockNum := 0
  nextMaintenanceTime := 86400
  maximumTimeUntilExpiration := 86400
  activeWitnesses := activeWitnesses
  lastConfirmedBlockNum _ := 0
  transactions := []
  rest := ()

/-- If the hash of a header has that of its predecessor in it, ids determine the predecessor. -/
theorem Protocol.previous_of_blockId {Op R : Type} {P : Protocol Op R}
    (hhash : ∀ b, P.headerHash b = Nat.pair b.previous.hash b.witnessSignature)
    {b b' : SignedBlock Op} (h : P.blockId b = P.blockId b') : b.previous = b'.previous := by
  have hnum : b.previous.num + 1 = b'.previous.num + 1 := congrArg BlockId.num h
  have hpair : P.headerHash b = P.headerHash b' := congrArg BlockId.hash h
  rw [hhash, hhash] at hpair
  cases hb : b.previous with
  | mk num hash =>
    cases hb' : b'.previous with
    | mk num' hash' =>
      rw [hb, hb'] at hnum hpair
      simp only at hnum hpair
      rw [(Nat.pair_eq_pair.mp hpair).1, Nat.succ_injective hnum]

/-- Ids of the permissive protocol determine the predecessor. -/
theorem Protocol.permissive_hash (b b' : SignedBlock ℕ)
    (h : Protocol.permissive.blockId b = Protocol.permissive.blockId b') :
    b.previous = b'.previous :=
  Protocol.previous_of_blockId (fun _ => rfl) h

/-- An empty block of the first witness. -/
def SignedBlock.empty (previous : BlockId) (timestamp signature : ℕ) : SignedBlock ℕ where
  previous := previous
  timestamp := timestamp
  witness := 0
  transactionMerkleRoot := 0
  witnessSignature := signature
  transactions := []

end FinChain.Chain
