import FinChain.Chain.ApplyBlock

/-!
# Pushing and popping blocks

`_push_block` with its fork switch, and `pop_block`. The fork database is told of a block first.
If its head then builds on the head of the database, the block is applied. If its head is higher
and on another branch, the database pops its blocks down to the common predecessor and applies the
other branch; when a block of that branch fails, the old branch is applied again.

The loops that pop blocks end because every pop takes a snapshot off the undo stack; the number of
snapshots is the fuel they start with.
-/

namespace FinChain.Chain

open Exec

namespace Database

variable {Op R : Type}

/-! ### Sessions -/

def startUndoSession : DatabaseM Op R Unit :=
  update fun s => { s with undo := s.undo.start }

/-- Lift an operation of the undo database. -/
def undoOp (op : SnapshotStack (Objects R) → Option (SnapshotStack (Objects R))) :
    DatabaseM Op R Unit := do
  let s ← get
  match op s.undo with
  | none => throw .undo
  | some u => update fun s => { s with undo := u }

/-- `fetch_block_by_id`. -/
def fetchBlockById (P : Protocol Op R) (s : Database Op R) (id : BlockId) :
    Option (SignedBlock Op) :=
  match s.forkDb.fetchBlock P id with
  | some b => some b
  | none => s.blockDb.fetchOptional P id

/-- Apply a block in a session of its own and store it under the given id. When the block fails,
the destructor of the session undoes its changes and the exception goes on. -/
def applyInSession (P : Protocol Op R) (id : BlockId) (b : SignedBlock Op) :
    DatabaseM Op R Unit := do
  let before ← get
  startUndoSession
  tryCatch (applyBlock P b) fun e => do
    undoOp SnapshotStack.undo
    throw e
  update fun s => { s with blockDb := s.blockDb.store P id b }
  undoOp SnapshotStack.commit
  update fun s => { s with chain := (b, before.objects) :: s.chain }

/-- `pop_block`. -/
def popBlock (P : Protocol Op R) : DatabaseM Op R Unit := do
  let s ← get
  let headId := s.objects.headBlockId
  assert .popEmptyChain ((s.fetchBlockById P headId).isSome = true)
  let f ← lift s.forkDb.popBlock
  update fun s => { s with forkDb := f }
  let d ← lift (s.blockDb.remove headId)
  update fun s => { s with blockDb := d }
  undoOp SnapshotStack.popCommit
  update fun s => { s with chain := s.chain.tail }

/-! ### Fork switches -/

/-- `while( head_block_id() != id ) pop_block();` -/
def popUntil (P : Protocol Op R) (id : BlockId) : ℕ → DatabaseM Op R Unit
  | 0 => do
    let s ← get
    assert .undo (s.objects.headBlockId = id)
  | fuel + 1 => do
    let s ← get
    if s.objects.headBlockId = id then pure ()
    else do
      popBlock P
      popUntil P id fuel

/-- Pop blocks until the head is the given one. -/
def popBlocksTo (P : Protocol Op R) (id : BlockId) : DatabaseM Op R Unit := do
  let s ← get
  popUntil P id (s.undo.saved.length + 1)

/-- The recovery from a block of the new branch that failed: `failed` are this block and the ones
after it. It ends by throwing the exception of the block. -/
def recover (P : Protocol Op R) (newBlock : SignedBlock Op) (forkPoint : BlockId)
    (oldBranch failed : List (ForkItem Op)) (except : ChainError) : DatabaseM Op R Unit := do
  failed.forM fun i => update fun s => { s with forkDb := s.forkDb.remove P (i.id P) }
  update fun s => { s with forkDb := { s.forkDb with head := oldBranch.head? } }
  popBlocksTo P forkPoint
  -- the old branch is stored under the id of the block that was pushed
  oldBranch.reverse.forM fun i => applyInSession P (P.blockId newBlock) i.data
  throw (.switchFailed except)

/-- The loop that pushes the blocks of the new branch, oldest first. -/
def pushBranch (P : Protocol Op R) (newBlock : SignedBlock Op) (forkPoint : BlockId)
    (oldBranch : List (ForkItem Op)) : List (ForkItem Op) → DatabaseM Op R Unit
  | [] => pure ()
  | i :: rest => do
    tryCatch (applyInSession P (i.id P) i.data)
      (recover P newBlock forkPoint oldBranch (i :: rest))
    pushBranch P newBlock forkPoint oldBranch rest

/-- Run a part of a function whose local variables hold the given fork items. -/
def holding (items : List (ForkItem Op)) (x : DatabaseM Op R Unit) : DatabaseM Op R Unit := do
  update fun s => { s with forkDb := { s.forkDb with held := items } }
  tryCatch x fun e => do
    update fun s => { s with forkDb := { s.forkDb with held := [] } }
    throw e
  update fun s => { s with forkDb := { s.forkDb with held := [] } }

/-- The predecessor of the oldest block of a branch. -/
def forkPoint (branch : List (ForkItem Op)) : BlockId :=
  (branch.getLast?.map fun i => i.data.previous).getD .zero

/-- Switch to the branch of `newHead`. -/
def switchFork (P : Protocol Op R) (newBlock : SignedBlock Op) (newHead : ForkItem Op) :
    DatabaseM Op R Unit := do
  let s ← get
  let (newBranch, oldBranch) ←
    lift (s.forkDb.fetchBranchFrom P (newHead.id P) s.objects.headBlockId)
  holding (newHead :: newBranch ++ oldBranch) do
    popBlocksTo P (forkPoint oldBranch)
    pushBranch P newBlock (forkPoint oldBranch) oldBranch newBranch.reverse

/-- The end of `_push_block`: the block builds on the head. -/
def extendChain (P : Protocol Op R) (b : SignedBlock Op) : DatabaseM Op R Unit :=
  tryCatch (applyInSession P (P.blockId b) b) fun e => do
    update fun s => { s with forkDb := s.forkDb.remove P (P.blockId b) }
    throw e

/-- `_push_block`; the result tells whether the fork was switched. -/
def pushBlock (P : Protocol Op R) (b : SignedBlock Op) : DatabaseM Op R Bool := do
  let s ← get
  let f ← lift (s.forkDb.pushBlock P b)
  update fun s => { s with forkDb := f }
  match f.head with
  | none => throw .noForkItem
  | some newHead =>
    if newHead.data.previous ≠ s.objects.headBlockId then
      if s.objects.headBlockNumber < newHead.num then do
        switchFork P b newHead
        return true
      else return false
    else do
      extendChain P b
      return false

/-- The database after the genesis state was set up. `max_size` of the undo database is its
default. -/
def genesis (o : Objects R) : Database Op R where
  undo := { current := o, saved := [], active := 0, maxSize := 256 }
  forkDb := {}
  blockDb := {}
  buffers := {}
  chain := []

end Database

end FinChain.Chain
