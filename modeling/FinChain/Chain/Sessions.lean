import FinChain.Chain.PushBlock

/-!
# Sessions

`database` as a user of undo sessions: pending transactions keep a session open between calls,
every transaction tried on top of them has a session of its own, and proposals open further ones
inside the session of a transaction or of a block. This is the state of `ApplyBlock` once more,
with all sessions and with the pending transactions, and with the calls that work on them.

What the operations of a transaction do depends on code outside this model. All that matters here
is in which order they change the objects, fail, and execute proposals (`Actions`). The fork
database only decides what `_push_block` does with a block (`ForkChoice`).

`events` is a history variable: the moments a session was started or a block popped. No step reads
it.
-/

namespace FinChain.Chain

open Exec

variable {Op R : Type}

/-- What the operations of a transaction do, one after the other. -/
inductive Actions (R : Type)
  | done
  /-- An evaluator, which may throw. -/
  | evaluate (f : Objects R → Option R) (rest : Actions R)
  /-- A `proposal_update` by which a proposal becomes authorized and is executed. The removal of
  the proposal is the last action of its body. -/
  | executeProposal (body rest : Actions R)

/-- A proposal that expires. -/
structure ExpiredProposal (R : Type) where
  /-- Its operations, when it is authorized to execute. -/
  authorized : Option (Actions R)
  remove : Objects R → R

/-- What the code outside this model makes of transactions and proposals. -/
structure Proposals (Op R : Type) where
  /-- The operations of a transaction that is applied to the given objects. -/
  actions : Objects R → Transaction Op → Actions R
  /-- The proposals `clear_expired_proposals` goes through. -/
  expired : Objects R → List (ExpiredProposal R)
  /-- The fork database and the block database let the head block be popped. -/
  canPop : Objects R → Bool

/-- What `_push_block` has to do with a block, by the head and the branches of the fork database
(newest block first). -/
inductive ForkChoice (Op : Type)
  | refused (e : ChainError)
  | ignored
  | extended
  | switched (newBranch oldBranch : List (SignedBlock Op))

/-- A moment at which the undo database drops or brings back a copy. -/
inductive UndoEvent
  /-- A session is started, with so many sessions open, such a bound on the number of copies, and
  so many blocks above the irreversible one. -/
  | start (active maxSize reversible : ℕ)
  /-- A block is popped; the irreversible block before and after. -/
  | pop (lib lib' : ℕ)
  deriving DecidableEq, Repr

/-- The number of blocks above the irreversible one. -/
def Objects.reversible (o : Objects R) : ℕ := o.headBlockNumber - o.lastIrreversibleBlockNum

/-- The state of `database` with its pending transactions. -/
structure Node (Op R : Type) where
  db : Database Op R
  /-- `_pending_tx_session` is valid. -/
  pendingSession : Bool := false
  pendingTx : List (Transaction Op) := []
  poppedTx : List (Transaction Op) := []
  events : List UndoEvent := []

abbrev NodeM (Op R : Type) := EStateM ChainError (Node Op R)

namespace Node

/-- The copies and the current objects. -/
def undo (s : Node Op R) : SnapshotStack (Objects R) := s.db.undo

/-- The objects as the last block has left them: those that the outermost session has saved, or
the current ones if there is no session. -/
def committed (s : Node Op R) : Objects R :=
  (s.undo.current :: s.undo.saved).getD s.undo.active s.undo.current

/-- A step that works on the objects, not on sessions. -/
def onDb {α : Type} (x : DatabaseM Op R α) : NodeM Op R α := fun s =>
  match x s.db with
  | .ok a d => .ok a { s with db := d }
  | .error e d => .error e { s with db := d }

/-! ### Sessions -/

def startUndoSession : NodeM Op R Unit :=
  update fun s =>
    { s with
      db := { s.db with undo := s.undo.start }
      events := .start s.undo.active s.undo.maxSize s.committed.reversible :: s.events }

/-- A part of a function in a session that it merges at its end. When it throws, the destructor of
the session undoes its changes. -/
def merging (x : NodeM Op R Unit) : NodeM Op R Unit := do
  startUndoSession
  tryCatch (do
    x
    onDb (Database.undoOp SnapshotStack.merge)) fun e => do
      onDb (Database.undoOp SnapshotStack.undo)
      throw e

/-- `push_proposal` inside `proposal_update_evaluator`, which only logs that the proposal failed. -/
def runActions : Actions R → NodeM Op R Unit
  | .done => pure ()
  | .evaluate f rest => do
    onDb (Database.modifyRest f)
    runActions rest
  | .executeProposal body rest => do
    tryCatch (merging (runActions body)) fun _ => pure ()
    runActions rest

/-- `_pending_tx_session.reset()`. -/
def resetPending : NodeM Op R Unit := do
  let s ← get
  if s.pendingSession then do
    onDb (Database.undoOp SnapshotStack.undo)
    update fun s => { s with pendingSession := false }
  else pure ()

/-! ### Transactions -/

/-- `_apply_transaction`. -/
def applyTransaction (P : Protocol Op R) (Q : Proposals Op R) (trx : Transaction Op) :
    NodeM Op R Unit := do
  let s ← get
  assert .assertion (P.trxId trx ∉ s.db.objects.transactions.map Prod.fst)
  assert .assertion (P.acceptable s.db.objects trx = true)
  assert .assertion (Database.notExpired s.db.objects trx)
  onDb (Database.modifyObjects fun o =>
    { o with transactions := (P.trxId trx, trx.expiration) :: o.transactions })
  let s ← get
  runActions (Q.actions s.db.objects trx)

/-- `_pending_tx_session = _undo_db.start_undo_session()`. -/
def startPending : NodeM Op R Unit := do
  startUndoSession
  update fun s => { s with pendingSession := true }

/-- "If this is the first transaction pushed after applying a block, start a new undo session." -/
def ensurePending : NodeM Op R Unit := do
  let s ← get
  if s.pendingSession then pure () else startPending

/-- `_push_transaction`. -/
def pushTransaction (P : Protocol Op R) (Q : Proposals Op R) (trx : Transaction Op) :
    NodeM Op R Unit := do
  ensurePending
  merging do
    applyTransaction P Q trx
    update fun s => { s with pendingTx := s.pendingTx ++ [trx] }

/-- `validate_transaction`: the changes are undone in any case. -/
def validateTransaction (P : Protocol Op R) (Q : Proposals Op R) (trx : Transaction Op) :
    NodeM Op R Unit := do
  startUndoSession
  tryCatch (applyTransaction P Q trx) fun e => do
    onDb (Database.undoOp SnapshotStack.undo)
    throw e
  onDb (Database.undoOp SnapshotStack.undo)

/-! ### Blocks -/

/-- The attempt to execute an expired proposal, which removes it if it succeeds. -/
def executeExpired (p : ExpiredProposal R) : NodeM Op R Bool :=
  match p.authorized with
  | some body =>
    tryCatch (do
      merging (runActions body)
      return true) fun _ => pure false
  | none => pure false

/-- One round of the loop of `clear_expired_proposals`. -/
def clearExpiredProposal (p : ExpiredProposal R) : NodeM Op R Unit := do
  let removed ← executeExpired p
  if removed then pure ()
  else onDb (Database.modifyObjects fun o => { o with rest := p.remove o })

/-- `clear_expired_proposals`. -/
def clearExpiredProposals (Q : Proposals Op R) : NodeM Op R Unit := do
  let s ← get
  (Q.expired s.db.objects).forM clearExpiredProposal

/-- `_apply_block`. -/
def applyBlock (P : Protocol Op R) (Q : Proposals Op R) (b : SignedBlock Op) :
    NodeM Op R Unit := do
  assert .assertion (b.transactionMerkleRoot = P.merkleRoot b.transactions)
  onDb (Database.validateBlockHeader P b)
  let s ← get
  b.transactions.forM (applyTransaction P Q)
  onDb (Database.updateGlobalDynamicData P b)
  onDb (Database.updateSigningWitness P b)
  onDb Database.updateLastIrreversibleBlock
  onDb (Database.maintainIf (s.db.objects.nextMaintenanceTime ≤ b.timestamp) P b)
  onDb Database.clearExpiredTransactions
  clearExpiredProposals Q
  onDb (Database.modifyRest fun o => P.endOfBlock o b)

/-- A block in a session of its own, which it commits. -/
def applyInSession (P : Protocol Op R) (Q : Proposals Op R) (b : SignedBlock Op) :
    NodeM Op R Unit := do
  let before ← get
  startUndoSession
  tryCatch (applyBlock P Q b) fun e => do
    onDb (Database.undoOp SnapshotStack.undo)
    throw e
  onDb (Database.undoOp SnapshotStack.commit)
  onDb (update fun d => { d with chain := (b, before.db.objects) :: d.chain })

/-- `pop_block`. -/
def popBlock (Q : Proposals Op R) : NodeM Op R Unit := do
  resetPending
  let s ← get
  match s.db.chain with
  | [] => throw .popEmptyChain
  | (b, _) :: chain => do
    assert .noForkItem (Q.canPop s.db.objects = true)
    onDb (Database.undoOp SnapshotStack.popCommit)
    update fun s' =>
      { s' with
        db := { s'.db with chain := chain }
        poppedTx := b.transactions ++ s'.poppedTx
        events := .pop s.db.objects.lastIrreversibleBlockNum
          s'.db.objects.lastIrreversibleBlockNum :: s'.events }

/-- `while( head_block_id() != id ) pop_block();` -/
def popUntil (Q : Proposals Op R) (id : BlockId) : ℕ → NodeM Op R Unit
  | 0 => do
    let s ← get
    assert .undo (s.db.objects.headBlockId = id)
  | fuel + 1 => do
    let s ← get
    if s.db.objects.headBlockId = id then pure ()
    else do
      popBlock Q
      popUntil Q id fuel

/-- Every pop takes a block off the chain. -/
def popBlocksTo (Q : Proposals Op R) (id : BlockId) : NodeM Op R Unit := do
  let s ← get
  popUntil Q id (s.db.chain.length + 1)

/-- The predecessor of the oldest block of a branch. -/
def forkPoint (branch : List (SignedBlock Op)) : BlockId :=
  (branch.getLast?.map SignedBlock.previous).getD .zero

/-- The recovery from a block of the new branch that failed. -/
def recover (P : Protocol Op R) (Q : Proposals Op R) (oldBranch : List (SignedBlock Op))
    (except : ChainError) : NodeM Op R Unit := do
  popBlocksTo Q (forkPoint oldBranch)
  oldBranch.reverse.forM (applyInSession P Q)
  throw (.switchFailed except)

/-- `_push_block`. -/
def pushBlockOnly (P : Protocol Op R) (Q : Proposals Op R) (b : SignedBlock Op) :
    ForkChoice Op → NodeM Op R Unit
  | .refused e => throw e
  | .ignored => pure ()
  | .extended => applyInSession P Q b
  | .switched newBranch oldBranch => do
    popBlocksTo Q (forkPoint oldBranch)
    newBranch.reverse.forM fun b =>
      tryCatch (applyInSession P Q b) (recover P Q oldBranch)

/-- `clear_pending`. -/
def clearPending : NodeM Op R Unit := do
  update fun s => { s with pendingTx := [] }
  resetPending

def isKnownTransaction (s : Node Op R) (P : Protocol Op R) (trx : Transaction Op) : Prop :=
  P.trxId trx ∈ s.db.objects.transactions.map Prod.fst

instance (P : Protocol Op R) (s : Node Op R) (trx : Transaction Op) :
    Decidable (s.isKnownTransaction P trx) :=
  inferInstanceAs (Decidable (_ ∈ _))

/-- A transaction is pushed again; that it does not apply any more is ignored. -/
def repush (P : Protocol Op R) (Q : Proposals Op R) (trx : Transaction Op) :
    NodeM Op R Unit := do
  let s ← get
  if s.isKnownTransaction P trx then pure ()
  else tryCatch (pushTransaction P Q trx) fun _ => pure ()

/-- The destructor of `pending_transactions_restorer`. -/
def restorePending (P : Protocol Op R) (Q : Proposals Op R) (pending : List (Transaction Op)) :
    NodeM Op R Unit := do
  let s ← get
  s.poppedTx.forM (repush P Q)
  update fun s => { s with poppedTx := [] }
  pending.forM (repush P Q)

/-- `push_block`. -/
def pushBlock (P : Protocol Op R) (Q : Proposals Op R) (b : SignedBlock Op)
    (choice : ForkChoice Op) : NodeM Op R Unit := do
  let s ← get
  clearPending
  tryCatch (pushBlockOnly P Q b choice) fun e => do
    restorePending P Q s.pendingTx
    throw e
  restorePending P Q s.pendingTx

/-- One round of the loop of `_generate_block` over the pending transactions: the transaction is
added to the block if it applies, and postponed if it would make the block too big. -/
def includeTransaction (P : Protocol Op R) (Q : Proposals Op R)
    (fits : List (Transaction Op) → Transaction Op → Bool) (trx : Transaction Op)
    (included : List (Transaction Op)) : NodeM Op R (List (Transaction Op)) :=
  if fits included trx then
    tryCatch (do
      merging (applyTransaction P Q trx)
      return included ++ [trx]) fun _ => pure included
  else pure included

/-- The loop; `fits` is the check of the block size. -/
def includeTransactions (P : Protocol Op R) (Q : Proposals Op R)
    (fits : List (Transaction Op) → Transaction Op → Bool) :
    List (Transaction Op) → List (Transaction Op) → NodeM Op R (List (Transaction Op))
  | [], included => pure included
  | trx :: trxs, included => do
    let included ← includeTransaction P Q fits trx included
    includeTransactions P Q fits trxs included

/-- What `generate_block` is called with, and what it is told by the fork database. -/
structure BlockRequest (Op R : Type) where
  timestamp : ℕ
  witness : ℕ
  /-- The signature the key makes for the block. -/
  sign : List (Transaction Op) → ℕ
  /-- The checks of the slot, the witness and the key. -/
  allowed : Objects R → Bool
  fits : List (Transaction Op) → Transaction Op → Bool
  /-- The last check of the block size. -/
  blockFits : List (Transaction Op) → Bool
  choice : ForkChoice Op

/-- `_generate_block`. -/
def generateBlock (P : Protocol Op R) (Q : Proposals Op R) (q : BlockRequest Op R) :
    NodeM Op R Unit := do
  let s ← get
  assert .assertion (q.allowed s.db.objects = true)
  resetPending
  startPending
  let trxs ← includeTransactions P Q q.fits s.pendingTx []
  resetPending
  let s ← get
  assert .assertion (q.blockFits trxs = true)
  pushBlock P Q
    { previous := s.db.objects.headBlockId
      timestamp := q.timestamp
      witness := q.witness
      transactionMerkleRoot := P.merkleRoot trxs
      witnessSignature := q.sign trxs
      transactions := trxs } q.choice

/-! ### Runs -/

/-- The calls of a run. Clearing the pending transactions, popping a block and applying one in a
session are parts of `push_block`; they are here so that a run can also stop inside one. -/
inductive Call (Op R : Type)
  | pushBlock (b : SignedBlock Op) (choice : ForkChoice Op)
  | pushTransaction (trx : Transaction Op)
  | validateTransaction (trx : Transaction Op)
  | generateBlock (q : BlockRequest Op R)
  | clearPending
  | popBlock
  | applyInSession (b : SignedBlock Op)

def Call.run (P : Protocol Op R) (Q : Proposals Op R) : Call Op R → NodeM Op R Unit
  | .pushBlock b choice => Node.pushBlock P Q b choice
  | .pushTransaction trx => Node.pushTransaction P Q trx
  | .validateTransaction trx => Node.validateTransaction P Q trx
  | .generateBlock q => Node.generateBlock P Q q
  | .clearPending => Node.clearPending
  | .popBlock => Node.popBlock Q
  | .applyInSession b => do
    Node.clearPending
    Node.applyInSession P Q b

/-- The state after some calls, whether they return or throw. -/
def runCalls (P : Protocol Op R) (Q : Proposals Op R) (s : Node Op R) (calls : List (Call Op R)) :
    Node Op R :=
  calls.foldl (fun s c => final (c.run P Q) s) s

end Node

end FinChain.Chain
