import FinChain.Chain.PushSpec

/-!
# Skip flags and checkpoints

A node may apply blocks without all the checks: `reindex` skips those that were made when the blocks
were pushed, and a node with checkpoints skips nearly everything up to the last of them. So
`apply_block` has skip flags, and it looks at the checkpoints. Some evaluators look at the flags too,
and the flag for duplicates decides not only whether a transaction is looked up in the transaction
index, but also whether it gets into it.

The functions here are those of `ApplyBlock` with the flags and checkpoints. Without them they are the
same (`applyBlockWith_nothing`).
-/

namespace FinChain.Chain

open Exec

variable {Op R : Type}

/-- `database::validation_steps`, as far as `apply_block` has them. -/
structure SkipFlags where
  witnessSignature : Bool := false
  transactionSignatures : Bool := false
  transactionDupeCheck : Bool := false
  taposCheck : Bool := false
  authorityCheck : Bool := false
  merkleCheck : Bool := false
  assertEvaluation : Bool := false
  undoHistoryCheck : Bool := false
  witnessScheduleCheck : Bool := false
  deriving DecidableEq

/-- `skip_nothing`. -/
def SkipFlags.nothing : SkipFlags := {}

/-- "WE CAN SKIP ALMOST EVERYTHING". -/
def SkipFlags.everything : SkipFlags := ⟨true, true, true, true, true, true, true, true, true⟩

/-- `_checkpoints`, by block number. -/
structure Checkpoints where
  entries : List (ℕ × BlockId)
  sorted : entries.Pairwise fun a b => a.1 < b.1

namespace Checkpoints

def none : Checkpoints := ⟨[], .nil⟩

def find (c : Checkpoints) (num : ℕ) : Option BlockId := c.entries.lookup num

/-- `_checkpoints.rbegin()`. -/
def last (c : Checkpoints) : Option (ℕ × BlockId) := c.entries.getLast?

/-- The last checkpoint is at the block or after it. -/
def reaches (c : Checkpoints) (num : ℕ) : Bool := c.last.any fun e => num ≤ e.1

/-- Checkpoints count only if the last of them has an id. -/
def armed (c : Checkpoints) : Bool := c.last.any fun e => e.2 ≠ .zero

/-- "Block did not match checkpoint". -/
def allows (c : Checkpoints) (num : ℕ) (id : BlockId) : Bool :=
  !c.armed || (c.find num).all fun id' => id = id'

/-- The skip flags for a block. -/
def skipAt (c : Checkpoints) (skip : SkipFlags) (num : ℕ) : SkipFlags :=
  if c.armed && c.reaches num then .everything else skip

end Checkpoints

/-- The checks of a protocol one by one, and what depends on the skip flags and the checkpoints. -/
structure Checks (P : Protocol Op R) where
  /-- The object of the witness is found. -/
  knownWitness : Objects R → SignedBlock Op → Bool
  /-- `validate_signee`. -/
  validSignee : Objects R → SignedBlock Op → Bool
  /-- The slot of the block belongs to its witness. -/
  scheduledWitness : Objects R → SignedBlock Op → Bool
  /-- `transaction::validate`. -/
  valid : Transaction Op → Bool
  /-- `verify_authority`. -/
  authorized : Objects R → Transaction Op → Bool
  /-- The block summary of `ref_block_num` has the prefix. -/
  tapos : Objects R → Transaction Op → Bool
  /-- The operations of a transaction. Assertions and claims of balances read the flags. -/
  evaluate : SkipFlags → Objects R → Transaction Op → Option R
  /-- The counters of slots, without counting blocks as missed. -/
  countSlotsCaughtUp : Objects R → SignedBlock Op → R
  /-- The end of a block. Proposals that expire are evaluated in it. -/
  endOfBlock : SkipFlags → Objects R → SignedBlock Op → Option R
  scheduled_eq : ∀ o b, P.scheduled o b =
    (knownWitness o b && (validSignee o b && scheduledWitness o b))
  acceptable_eq : ∀ o trx, P.acceptable o trx =
    (valid trx && (authorized o trx && (o.headBlockNumber == 0 || tapos o trx)))
  evaluate_eq : evaluate .nothing = P.evaluate
  endOfBlock_eq : endOfBlock .nothing = P.endOfBlock

/-- The checks of the permissive protocol. -/
def Checks.permissive : Checks Protocol.permissive where
  knownWitness _ _ := true
  validSignee _ _ := true
  scheduledWitness _ _ := true
  valid _ := true
  authorized _ _ := true
  tapos _ _ := true
  evaluate _ _ _ := some ()
  countSlotsCaughtUp _ _ := ()
  endOfBlock _ _ _ := some ()
  scheduled_eq _ _ := rfl
  acceptable_eq o _ := by
    rw [Bool.or_true]
    rfl
  evaluate_eq := rfl
  endOfBlock_eq := rfl

namespace Database

variable {P : Protocol Op R} (C : Checks P) (checkpoints : Checkpoints) (skip : SkipFlags)

/-- The transaction gets into the index, unless duplicates are not looked for. -/
def createTransactionObject (P : Protocol Op R) (skip : SkipFlags) (trx : Transaction Op) :
    DatabaseM Op R Unit :=
  if skip.transactionDupeCheck then pure ()
  else modifyObjects fun o =>
    { o with transactions := (P.trxId trx, trx.expiration) :: o.transactions }

/-- `_apply_transaction`. -/
def applyTransactionWith (trx : Transaction Op) : DatabaseM Op R Unit := do
  let s ← get
  assert .assertion (C.valid trx = true)
  assert .assertion (skip.transactionDupeCheck = true ∨
    P.trxId trx ∉ s.objects.transactions.map Prod.fst)
  assert .assertion (skip.transactionSignatures = true ∨ skip.authorityCheck = true ∨
    C.authorized s.objects trx = true)
  assert .assertion (0 < s.objects.headBlockNumber → skip.taposCheck = true ∨
    C.tapos s.objects trx = true)
  assert .assertion (notExpired s.objects trx)
  createTransactionObject P skip trx
  modifyRest fun o => C.evaluate skip o trx

/-- `validate_block_header`. -/
def validateBlockHeaderWith (b : SignedBlock Op) : DatabaseM Op R Unit := do
  let s ← get
  assert .assertion (s.objects.headBlockId = b.previous)
  assert .assertion (s.objects.time < b.timestamp)
  assert .assertion (C.knownWitness s.objects b = true)
  assert .assertion (skip.witnessSignature = true ∨ C.validSignee s.objects b = true)
  assert .assertion (skip.witnessScheduleCheck = true ∨ C.scheduledWitness s.objects b = true)

/-- `update_global_dynamic_data`. -/
def updateGlobalDynamicDataWith (b : SignedBlock Op) : DatabaseM Op R Unit := do
  modifyObjects fun o =>
    { o with
      headBlockNumber := b.blockNum
      headBlockId := P.blockId b
      time := b.timestamp
      rest := if checkpoints.reaches b.blockNum then C.countSlotsCaughtUp o b else P.countSlots o b }
  let s ← get
  assert .undoHistory (skip.undoHistoryCheck = true ∨
    s.objects.headBlockNumber - s.objects.lastIrreversibleBlockNum < maxUndo)
  setMaxSize (s.objects.headBlockNumber - s.objects.lastIrreversibleBlockNum + 1)

/-- "to maintain block missing from block 34560000 to 34700000". -/
def Maintained (num : ℕ) : Prop := 34560000 ≤ num ∧ num ≤ 34700000

instance (num : ℕ) : Decidable (Maintained num) := inferInstanceAs (Decidable (_ ∧ _))

/-- The block number that seven out of ten witnesses have confirmed. -/
def thresholdBlockNum (witnesses : List ℕ) (lastConfirmed : ℕ → ℕ) : ℕ :=
  let offset := (hundredPercent - irreversibleThreshold) * witnesses.length / hundredPercent
  ((witnesses.map lastConfirmed).insertionSort (· ≤ ·)).getD offset 0

/-- The block number that `update_last_irreversible_block` proposes. -/
def proposedBlockNum (o : Objects R) : ℕ :=
  if Maintained o.headBlockNumber then o.headBlockNumber - 20
  else if (checkpoints.find o.headBlockNumber).isSome then o.headBlockNumber
  else thresholdBlockNum o.activeWitnesses o.lastConfirmedBlockNum

/-- `update_last_irreversible_block`. -/
def updateLastIrreversibleBlockWith : DatabaseM Op R Unit :=
  modifyObjects fun o =>
    if o.lastIrreversibleBlockNum < proposedBlockNum checkpoints o then
      { o with lastIrreversibleBlockNum := proposedBlockNum checkpoints o }
    else o

/-- `_apply_block`. -/
def applyBlockSkipping (b : SignedBlock Op) : DatabaseM Op R Unit := do
  assert .assertion (skip.merkleCheck = true ∨
    b.transactionMerkleRoot = P.merkleRoot b.transactions)
  validateBlockHeaderWith C skip b
  let s ← get
  b.transactions.forM (applyTransactionWith C skip)
  updateGlobalDynamicDataWith C checkpoints skip b
  updateSigningWitness P b
  updateLastIrreversibleBlockWith checkpoints
  maintainIf (s.objects.nextMaintenanceTime ≤ b.timestamp) P b
  clearExpiredTransactions
  modifyRest fun o => C.endOfBlock skip o b

/-- `apply_block`. -/
def applyBlockWith (b : SignedBlock Op) : DatabaseM Op R Unit := do
  assert .assertion (checkpoints.allows b.blockNum (P.blockId b) = true)
  applyBlockSkipping C checkpoints (checkpoints.skipAt skip b.blockNum) b

/-! ### What a block leaves alone -/

/-- Whatever is skipped, every step of a block is a change of the objects, of the buffers or of the
two sizes. -/
theorem keeps_applyBlockWith {F : Database Op R → Database Op R → Prop} (hF : Frame F)
    (hobj : ∀ s o, F s (s.withObjects o)) (hbuf : ∀ s v, F s { s with buffers := v })
    (hsize : ∀ s n, F s { s with
      undo := { s.undo with maxSize := n + 1 }
      forkDb := s.forkDb.setMaxSize (n + 1) })
    (b : SignedBlock Op) : Keeps F (applyBlockWith C checkpoints skip b) := by
  have hobj' : ∀ s o, SameChain s.objects o → F s (s.withObjects o) := fun s o _ => hobj s o
  have hassert : ∀ (p : Prop) [Decidable p], Keeps F (assert .assertion p : DatabaseM Op R Unit) :=
    fun p _ => hF.keeps_assert _ p
  unfold applyBlockWith
  refine hF.keeps_bind (hassert _) fun _ => ?_
  -- the flags for the block do not matter either
  generalize checkpoints.skipAt skip b.blockNum = skip
  have hheader : Keeps F (validateBlockHeaderWith C skip b) :=
    hF.keeps_bind hF.keeps_get fun s => hF.keeps_bind (hassert _) fun _ =>
      hF.keeps_bind (hassert _) fun _ => hF.keeps_bind (hassert _) fun _ =>
        hF.keeps_bind (hassert _) fun _ => hassert _
  have hcreate : ∀ trx, Keeps F (createTransactionObject P skip trx) := by
    intro trx
    unfold createTransactionObject
    split
    · exact hF.keeps_pure ()
    · exact keeps_update fun s => hobj s _
  have htrx : ∀ trx, Keeps F (applyTransactionWith C skip trx) := fun trx =>
    hF.keeps_bind hF.keeps_get fun s => hF.keeps_bind (hassert _) fun _ =>
      hF.keeps_bind (hassert _) fun _ => hF.keeps_bind (hassert _) fun _ =>
        hF.keeps_bind (hassert _) fun _ => hF.keeps_bind (hassert _) fun _ =>
          hF.keeps_bind (hcreate trx) fun _ => keeps_modifyRest hF hobj' _
  have hglobal : Keeps F (updateGlobalDynamicDataWith C checkpoints skip b) :=
    hF.keeps_bind (keeps_update fun s => hobj s _) fun _ => hF.keeps_bind hF.keeps_get fun s =>
      hF.keeps_bind (hF.keeps_assert _ _) fun _ => keeps_update fun s => hsize s _
  have hmaint : ∀ n, Keeps F (maintainIf n P b) := by
    intro n
    cases n with
    | true => exact keeps_maintenance hF hobj' hbuf P b
    | false => exact hF.keeps_pure ()
  refine hF.keeps_bind (hassert _) fun _ => hF.keeps_bind hheader fun _ =>
    hF.keeps_bind hF.keeps_get fun s => hF.keeps_bind (hF.keeps_forM htrx _) fun _ => ?_
  refine hF.keeps_bind hglobal fun _ =>
    hF.keeps_bind (keeps_updateSigningWitness hF hobj' P b) fun _ =>
      hF.keeps_bind (keeps_update fun s => hobj s _) fun _ => ?_
  exact hF.keeps_bind (hmaint _) fun _ => hF.keeps_bind (keeps_update fun s => hobj s _) fun _ =>
    keeps_modifyRest hF hobj' _

/-! ### Nothing is skipped -/

theorem applyTransactionWith_nothing (trx : Transaction Op) :
    applyTransactionWith C .nothing trx = applyTransaction P trx := by
  funext s
  unfold applyTransactionWith applyTransaction
  rw [get_bind, get_bind, C.evaluate_eq]
  simp only [assert_bind_assert]
  refine congrFun (congrArg₂ Bind.bind (assert_congr ?_) rfl) s
  rw [C.acceptable_eq]
  simp only [SkipFlags.nothing, Bool.false_eq_true, false_or, Bool.and_eq_true, Bool.or_eq_true,
    beq_iff_eq]
  -- without blocks there is no reference block to look at
  have htapos : (0 < s.objects.headBlockNumber → C.tapos s.objects trx = true) ↔
      s.objects.headBlockNumber = 0 ∨ C.tapos s.objects trx = true := by
    rw [Nat.pos_iff_ne_zero, ← or_iff_not_imp_left]
  rw [htapos]
  tauto

theorem validateBlockHeaderWith_nothing (b : SignedBlock Op) :
    validateBlockHeaderWith C .nothing b = validateBlockHeader P b := by
  funext s
  unfold validateBlockHeaderWith validateBlockHeader
  rw [get_bind, get_bind]
  have hlast : ∀ p : Prop, ∀ [Decidable p], (assert .assertion p : DatabaseM Op R Unit) =
      assert .assertion p >>= fun _ => pure () := fun p _ => (bind_pure_unit).symm
  rw [hlast (P.scheduled _ _ = true), hlast (_ ∨ C.scheduledWitness _ _ = true)]
  simp only [assert_bind_assert]
  refine congrFun (congrArg₂ Bind.bind (assert_congr ?_) rfl) s
  rw [C.scheduled_eq]
  simp only [SkipFlags.nothing, Bool.false_eq_true, false_or, Bool.and_eq_true]

/-- **Without flags and checkpoints** a block is applied as before. -/
theorem applyBlockWith_nothing (b : SignedBlock Op) :
    applyBlockWith C .none .nothing b = applyBlock P b := by
  have hskip : Checkpoints.none.skipAt .nothing b.blockNum = .nothing := rfl
  have hallows : Checkpoints.none.allows b.blockNum (P.blockId b) = true := rfl
  have hglobal : updateGlobalDynamicDataWith C .none .nothing b = updateGlobalDynamicData P b := by
    unfold updateGlobalDynamicDataWith updateGlobalDynamicData
    refine congrArg₂ Bind.bind rfl (funext fun _ => congrArg₂ Bind.bind rfl (funext fun s => ?_))
    exact congrArg₂ Bind.bind (assert_congr (by simp [SkipFlags.nothing])) rfl
  have hmerkle : (assert .assertion (SkipFlags.nothing.merkleCheck = true ∨
      b.transactionMerkleRoot = P.merkleRoot b.transactions) : DatabaseM Op R Unit) =
        assert .assertion (b.transactionMerkleRoot = P.merkleRoot b.transactions) :=
    assert_congr (by simp [SkipFlags.nothing])
  have htrxs : applyTransactionWith C .nothing = applyTransaction P :=
    funext (applyTransactionWith_nothing C)
  unfold applyBlockWith applyBlockSkipping applyBlock
  rw [hskip, hallows, hmerkle, validateBlockHeaderWith_nothing, htrxs, hglobal, C.endOfBlock_eq]
  rfl

end Database

end FinChain.Chain
