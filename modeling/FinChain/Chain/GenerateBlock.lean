import FinChain.Chain.PendingTransactions
import FinChain.Chain.RejectedBlock
import Mathlib.Data.Nat.Log

/-!
# Generating a block

`_generate_block` with what its sessions leave out (`Node.generateBlock`): the sizes, the key and the results
of the transactions. The pending transactions have the results they had when they were pushed. They are
applied once more, one after the other on the head block, and those that apply are put into the block with
the results they have now. The assertions at the beginning, and the maximum size, are read before the session
of the pending transactions is undone.

Two functions without sessions say what comes out of it. `Producer.taken` are the transactions that are put
into the block, and `ForkDatabase.choice` is what `_push_block` is told to do with it. Applied in a block the
transactions have the same results again (`processTransactions_taken`), since each meets the objects that it
met when the block was assembled.
-/

namespace FinChain.Chain

open Exec

variable {Op R ρ : Type}

/-- `processed_transaction`. -/
structure ProcessedTransaction (Op ρ : Type) where
  trx : Transaction Op
  operationResults : List ρ
  deriving DecidableEq

/-- What `_generate_block` calls. -/
structure Producer (Op R ρ : Type) where
  slotAtTime : Objects R → ℕ → ℕ
  scheduledWitness : Objects R → ℕ → ℕ
  /-- `witness_object::signing_key`, if there is such a witness. -/
  signingKey : Objects R → ℕ → Option ℕ
  /-- `chain_parameters::maximum_block_size`. -/
  maximumBlockSize : Objects R → ℕ
  /-- What the operations of a transaction return that is applied to the given objects. -/
  results : Objects R → Transaction Op → List ρ
  /-- `fc::raw::pack_size` of a transaction. -/
  packSize : ProcessedTransaction Op ρ → ℕ
  /-- `fc::raw::pack_size` of a header, where all but the id of the witness have a fixed size. -/
  headerSize : ℕ → ℕ
  getPublicKey : ℕ → ℕ
  /-- `block_header::digest`, of the previous block, the time, the witness and the merkle root. -/
  digest : BlockId → ℕ → ℕ → ℕ → ℕ
  signCompact : ℕ → ℕ → ℕ
  /-- The public key that a signature was made with. -/
  signee : ℕ → ℕ → ℕ
  signee_signCompact : ∀ key d, signee (signCompact key d) d = getPublicKey key

/-- `fc::raw::pack_size` of an `unsigned_int`, which has seven bits in a byte. -/
def unsignedIntSize (n : ℕ) : ℕ := Nat.log 128 n + 1

namespace Producer

variable (W : Producer Op R ρ)

/-- The slot is there, it is that of the witness, and the key is that of the witness. -/
def Allows (o : Objects R) (time witness key : ℕ) : Prop :=
  0 < W.slotAtTime o time ∧ W.scheduledWitness o (W.slotAtTime o time) = witness ∧
    W.signingKey o witness = some (W.getPublicKey key)

instance (o : Objects R) (time witness key : ℕ) : Decidable (W.Allows o time witness key) :=
  inferInstanceAs (Decidable (_ ∧ _))

/-- The same of a block, in `validate_block_header`. -/
def Schedules (o : Objects R) (b : SignedBlock Op) : Prop :=
  W.signingKey o b.witness = some (W.signee b.witnessSignature
    (W.digest b.previous b.timestamp b.witness b.transactionMerkleRoot)) ∧
  0 < W.slotAtTime o b.timestamp ∧
    b.witness = W.scheduledWitness o (W.slotAtTime o b.timestamp)

instance (o : Objects R) (b : SignedBlock Op) : Decidable (W.Schedules o b) :=
  inferInstanceAs (Decidable (_ ∧ _))

/-- The protocol with these checks of a header. -/
def protocol (P : Protocol Op R) : Protocol Op R :=
  { P with scheduled := fun o b => W.Schedules o b }

/-- `max_block_header_size`: four bytes are left for what a header may have in addition. -/
def maxBlockHeaderSize : ℕ := W.headerSize 0 + 4

/-- The block that is made of some transactions. -/
def sealed (P : Protocol Op R) (o : Objects R) (time witness key : ℕ)
    (trxs : List (Transaction Op)) : SignedBlock Op where
  previous := o.headBlockId
  timestamp := time
  witness := witness
  transactionMerkleRoot := P.merkleRoot trxs
  witnessSignature :=
    W.signCompact key (W.digest o.headBlockId time witness (P.merkleRoot trxs))
  transactions := trxs

/-- `fc::raw::pack_size` of a block. -/
def blockSize (witness : ℕ) (trxs : List (ProcessedTransaction Op ρ)) : ℕ :=
  W.headerSize witness + unsignedIntSize trxs.length + (trxs.map W.packSize).sum

end Producer

/-- What `_push_block` does with a block, by what the fork database makes of it. -/
def ForkDatabase.choice (P : Protocol Op R) (f : ForkDatabase Op) (o : Objects R)
    (b : SignedBlock Op) : ForkChoice Op :=
  match f.pushBlock P b with
  | .error e => .refused e
  | .ok f' =>
    match f'.head with
    | none => .refused .noForkItem
    | some newHead =>
      if newHead.data.previous = o.headBlockId then .extended
      else if o.headBlockNumber < newHead.num then
        match f'.fetchBranchFrom P (newHead.id P) o.headBlockId with
        | .error e => .refused e
        | .ok (newBranch, oldBranch) =>
          .switched (newBranch.map ForkItem.data) (oldBranch.map ForkItem.data)
      else .ignored

namespace Node

/-- `total_block_size`, and the transactions of the pending block. -/
structure PendingBlock (Op ρ : Type) where
  totalSize : ℕ
  transactions : List (ProcessedTransaction Op ρ)

/-- A transaction with the results it has when it is applied to the objects as they are now. -/
def processing (W : Producer Op R ρ) (trx : Transaction Op) (x : NodeM Op R Unit) :
    NodeM Op R (ProcessedTransaction Op ρ) := do
  let s ← get
  x
  return ⟨trx, W.results s.db.objects trx⟩

/-- `_apply_transaction`, which returns the transaction with its results. -/
def processTransaction (P : Protocol Op R) (Q : Proposals Op R) (W : Producer Op R ρ)
    (trx : Transaction Op) : NodeM Op R (ProcessedTransaction Op ρ) :=
  processing W trx (applyTransaction P Q trx)

/-- One round of the loop over the pending transactions. Whether a transaction would make the block too big
is decided by the size it has as a pending one. -/
def takeTransaction (P : Protocol Op R) (Q : Proposals Op R) (W : Producer Op R ρ) (maximum : ℕ)
    (tx : ProcessedTransaction Op ρ) (block : PendingBlock Op ρ) :
    NodeM Op R (PendingBlock Op ρ) :=
  -- "postpone transaction if it would make block too big"
  if maximum ≤ block.totalSize + W.packSize tx then pure block
  else
    tryCatch (do
      let ptx ← processing W tx.trx (merging (applyTransaction P Q tx.trx))
      return ⟨block.totalSize + W.packSize ptx, block.transactions ++ [ptx]⟩) fun _ => pure block

def takeTransactions (P : Protocol Op R) (Q : Proposals Op R) (W : Producer Op R ρ) (maximum : ℕ) :
    List (ProcessedTransaction Op ρ) → PendingBlock Op ρ → NodeM Op R (PendingBlock Op ρ)
  | [], block => pure block
  | tx :: pending, block => do
    let block ← takeTransaction P Q W maximum tx block
    takeTransactions P Q W maximum pending block

/-- `_generate_block` up to the last check of the size. The block comes with the results of its
transactions. -/
def assembleBlock (P : Protocol Op R) (Q : Proposals Op R) (W : Producer Op R ρ)
    (pending : List (ProcessedTransaction Op ρ)) (time witness key : ℕ) :
    NodeM Op R (SignedBlock Op × List (ProcessedTransaction Op ρ)) := do
  let s ← get
  assert .assertion (W.Allows s.db.objects time witness key)
  resetPending
  startPending
  let block ← takeTransactions P Q W (W.maximumBlockSize s.db.objects) pending
    ⟨W.maxBlockHeaderSize, []⟩
  resetPending
  let s ← get
  return (W.sealed P s.db.objects time witness key (block.transactions.map ProcessedTransaction.trx),
    block.transactions)

/-- `_generate_block`. -/
def generate (P : Protocol Op R) (Q : Proposals Op R) (W : Producer Op R ρ)
    (pending : List (ProcessedTransaction Op ρ)) (time witness key : ℕ) :
    NodeM Op R (SignedBlock Op) := do
  let (b, trxs) ← assembleBlock P Q W pending time witness key
  let s ← get
  assert .assertion (W.blockSize b.witness trxs ≤ W.maximumBlockSize s.db.objects)
  pushBlock P Q b (s.db.forkDb.choice P s.db.objects b)
  return b

/-! ### Blocks with their results -/

def processTransactions (P : Protocol Op R) (Q : Proposals Op R) (W : Producer Op R ρ) :
    List (Transaction Op) → NodeM Op R (List (ProcessedTransaction Op ρ))
  | [] => pure []
  | trx :: trxs => do
    let ptx ← processTransaction P Q W trx
    let ptxs ← processTransactions P Q W trxs
    return ptx :: ptxs

/-- `_apply_block` after the transactions. -/
def closeBlock (P : Protocol Op R) (Q : Proposals Op R) (b : SignedBlock Op) (maintNeeded : Bool) :
    NodeM Op R Unit := do
  onDb (Database.updateGlobalDynamicData P b)
  finishBlock P Q b maintNeeded

/-- `_apply_block`, with the results of the transactions, of which the source only keeps the history. -/
def processBlock (P : Protocol Op R) (Q : Proposals Op R) (W : Producer Op R ρ)
    (b : SignedBlock Op) : NodeM Op R (List (ProcessedTransaction Op ρ)) := do
  assert .assertion (b.transactionMerkleRoot = P.merkleRoot b.transactions)
  onDb (Database.validateBlockHeader P b)
  let s ← get
  let trxs ← processTransactions P Q W b.transactions
  closeBlock P Q b (s.db.objects.nextMaintenanceTime ≤ b.timestamp)
  return trxs

section Results

variable {P : Protocol Op R} {Q : Proposals Op R} {W : Producer Op R ρ}

theorem processing_apply (trx : Transaction Op) (x : NodeM Op R Unit) (s : Node Op R) :
    processing W trx x s = match x s with
      | .ok _ s' => .ok ⟨trx, W.results s.db.objects trx⟩ s'
      | .error e s' => .error e s' := by
  unfold processing
  rw [get_bind, bind_apply]
  cases x s with
  | ok u s' => rfl
  | error e s' => rfl

/-- Without the results it is the loop over the transactions of a block. -/
theorem forM_of_processTransactions : ∀ trxs : List (Transaction Op),
    trxs.forM (applyTransaction P Q) =
      (processTransactions P Q W trxs >>= fun _ => pure () : NodeM Op R Unit)
  | [] => rfl
  | trx :: trxs => by
    funext s
    have hrun : (trx :: trxs).forM (applyTransaction P Q) s =
        (applyTransaction P Q trx >>= fun _ => trxs.forM (applyTransaction P Q)) s := rfl
    rw [hrun, bind_apply, bind_apply, processTransactions, bind_apply, processTransaction,
      processing_apply, forM_of_processTransactions trxs]
    cases applyTransaction P Q trx s with
    | error e s' => rfl
    | ok u s' =>
      dsimp only
      rw [bind_apply, bind_apply]
      cases processTransactions P Q W trxs s' with
      | ok ptxs s'' => rfl
      | error e s'' => rfl

/-- Without the results it is `_apply_block`. -/
theorem applyBlock_of_processBlock (b : SignedBlock Op) :
    applyBlock P Q b = (processBlock P Q W b >>= fun _ => pure () : NodeM Op R Unit) := by
  have hrun : applyBlock P Q b = (do
      assert .assertion (b.transactionMerkleRoot = P.merkleRoot b.transactions)
      onDb (Database.validateBlockHeader P b)
      let s ← get
      b.transactions.forM (applyTransaction P Q)
      closeBlock P Q b (s.db.objects.nextMaintenanceTime ≤ b.timestamp) : NodeM Op R Unit) := rfl
  rw [hrun, forM_of_processTransactions (W := W)]
  unfold processBlock
  simp only [bind_assoc, pure_bind, bind_pure_unit]

end Results

end Node

/-! ### Without sessions -/

/-- The transactions that are put into a block, with the results they have in it. -/
def Producer.taken (W : Producer Op R ρ) (P : Protocol Op R) (maximum : ℕ) :
    Objects R → ℕ → List (ProcessedTransaction Op ρ) → List (ProcessedTransaction Op ρ)
  | _, _, [] => []
  | o, total, tx :: pending =>
    if maximum ≤ total + W.packSize tx then W.taken P maximum o total pending
    else
      match P.result o tx.trx with
      | none => W.taken P maximum o total pending
      | some o' =>
        let ptx := ⟨tx.trx, W.results o tx.trx⟩
        ptx :: W.taken P maximum o' (total + W.packSize ptx) pending

section Taken

variable {W : Producer Op R ρ} {P : Protocol Op R} {maximum total : ℕ} {o o' : Objects R}
  {tx : ProcessedTransaction Op ρ} {pending : List (ProcessedTransaction Op ρ)}

theorem Producer.taken_of_postponed (h : maximum ≤ total + W.packSize tx) :
    W.taken P maximum o total (tx :: pending) = W.taken P maximum o total pending := by
  rw [taken, if_pos h]

theorem Producer.taken_of_none (h : P.result o tx.trx = none) :
    W.taken P maximum o total (tx :: pending) = W.taken P maximum o total pending := by
  rw [taken, h]
  split
  · rfl
  · rfl

theorem Producer.taken_of_some (hfits : ¬ maximum ≤ total + W.packSize tx)
    (h : P.result o tx.trx = some o') : W.taken P maximum o total (tx :: pending) =
      ⟨tx.trx, W.results o tx.trx⟩ ::
        W.taken P maximum o' (total + W.packSize ⟨tx.trx, W.results o tx.trx⟩) pending := by
  rw [taken, if_neg hfits, h]

/-- What is taken is a part of the pending transactions, in the same order. -/
theorem Producer.taken_sublist (W : Producer Op R ρ) (P : Protocol Op R) (maximum : ℕ) :
    ∀ (pending : List (ProcessedTransaction Op ρ)) (o : Objects R) (total : ℕ),
      ((W.taken P maximum o total pending).map ProcessedTransaction.trx).Sublist
        (pending.map ProcessedTransaction.trx)
  | [], _, _ => List.Sublist.slnil
  | tx :: pending, o, total => by
    by_cases hfits : maximum ≤ total + W.packSize tx
    · rw [taken_of_postponed hfits]
      exact (W.taken_sublist P maximum pending o total).cons tx.trx
    · cases hresult : P.result o tx.trx with
      | none =>
        rw [taken_of_none hresult]
        exact (W.taken_sublist P maximum pending o total).cons tx.trx
      | some o' =>
        rw [taken_of_some hfits hresult]
        exact (W.taken_sublist P maximum pending o' _).cons_cons tx.trx

end Taken

namespace Node

variable {P : Protocol Op R} {Q : Proposals Op R} {W : Producer Op R ρ} {g base : Objects R}
  {s : Node Op R}

/-- **The same results**: the transactions that were taken have the results in a block that they had when
they were taken, for each of them is applied to the same objects. -/
theorem processTransactions_taken (hQ : Q.Shallow) {inner full : List (Objects R)} {d : ℕ} (hd : 1 ≤ d)
    (maximum : ℕ) : ∀ (pending : List (ProcessedTransaction Op ρ)) (total : ℕ) {s : Node Op R},
      Inside inner full d s →
      ∃ s', processTransactions P Q W ((W.taken (Q.protocol P) maximum s.db.objects total pending).map
        ProcessedTransaction.trx) s =
          .ok (W.taken (Q.protocol P) maximum s.db.objects total pending) s' ∧ Inside inner full d s'
  | [], total, s, hs => ⟨s, rfl, hs⟩
  | tx :: pending, total, s, hs => by
    by_cases hfits : maximum ≤ total + W.packSize tx
    · rw [Producer.taken_of_postponed hfits]
      exact processTransactions_taken hQ hd maximum pending total hs
    · have hturns := performs_applyTransaction (P := P) hQ hd tx.trx s hs
      rcases hturns with ⟨o, s₁, hresult, hrun, rfl, hs₁, -⟩ | ⟨e, s₁, hresult, -⟩
      · obtain ⟨s', hrest, hs'⟩ := processTransactions_taken hQ hd maximum pending
          (total + W.packSize ⟨tx.trx, W.results s.db.objects tx.trx⟩) hs₁
        refine ⟨s', ?_, hs'⟩
        rw [Producer.taken_of_some hfits hresult, List.map_cons, processTransactions, bind_apply,
          processTransaction, processing_apply, hrun]
        dsimp only
        rw [bind_apply, hrest]
        rfl
      · rw [Producer.taken_of_none hresult]
        exact processTransactions_taken hQ hd maximum pending total hs

/-! ### The run of `_generate_block` -/

theorem forkDb_offUndo : OffUndo fun s s' : Node Op R => s'.db.forkDb = s.db.forkDb where
  frame := Frame.eq fun s : Node Op R => s.db.forkDb
  undo _ _ _ := rfl

/-- What the loop over the pending transactions leaves as it was. -/
structure Assembling (P : Protocol Op R) (Q : Proposals Op R) (g base : Objects R) (s s' : Node Op R) :
    Prop where
  ahead : Ahead P Q g base s'
  chain : s'.db.chain = s.db.chain
  forkDb : s'.db.forkDb = s.db.forkDb
  lists : s'.lists = s.lists

/-- **One pending transaction** is taken if it applies and is not postponed. -/
theorem Ahead.takeTransaction (hQ : Q.Shallow) (maximum : ℕ) (tx : ProcessedTransaction Op ρ)
    (block : PendingBlock Op ρ) (h : Ahead P Q g base s) :
    (∃ o s', ¬ maximum ≤ block.totalSize + W.packSize tx ∧
      (Q.protocol P).result s.db.objects tx.trx = some o ∧
      takeTransaction P Q W maximum tx block s =
        .ok ⟨block.totalSize + W.packSize ⟨tx.trx, W.results s.db.objects tx.trx⟩,
          block.transactions ++ [⟨tx.trx, W.results s.db.objects tx.trx⟩]⟩ s' ∧
      s'.db.objects = o ∧ Assembling P Q g base s s') ∨
    ∃ s', (maximum ≤ block.totalSize + W.packSize tx ∨
        (Q.protocol P).result s.db.objects tx.trx = none) ∧
      takeTransaction P Q W maximum tx block s = .ok block s' ∧ s'.db.objects = s.db.objects ∧
      Assembling P Q g base s s' := by
  unfold Node.takeTransaction
  by_cases hpostponed : maximum ≤ block.totalSize + W.packSize tx
  · rw [if_pos hpostponed]
    exact .inr ⟨s, .inl hpostponed, rfl, rfl, h, rfl, rfl, rfl⟩
  · rw [if_neg hpostponed, tryCatch_apply, bind_apply, processing_apply]
    have hperforms : ∀ o, Performs [o, base] s.full 1 (fun o => (Q.protocol P).result o tx.trx)
        (applyTransaction P Q tx.trx) := fun o => performs_applyTransaction hQ le_rfl tx.trx
    have hfork := forkDb_offUndo.keeps_merging
      (forkDb_offUndo.keeps_applyTransaction (P := P) (Q := Q) tx.trx)
    rcases merging_cases hperforms h.inside with
      ⟨o, s', hresult, hrun, ho, h', hothers⟩ | ⟨e, s', hresult, hrun, ho, h', hothers⟩
    · rw [hrun]
      refine .inl ⟨o, s', hpostponed, hresult, rfl, ho, ?_, congrArg (fun l => l.2.1) hothers,
        hfork.of_ok hrun, congrArg (fun l => l.2.2.2) hothers⟩
      exact h.of_inside h' (congrArg (fun l => l.2.1) hothers) (congrArg (fun l => l.2.2.1) hothers)
    · rw [hrun]
      refine .inr ⟨s', .inr hresult, rfl, ho, ?_, congrArg (fun l => l.2.1) hothers,
        hfork.of_error hrun, congrArg (fun l => l.2.2.2) hothers⟩
      exact h.of_inside h' (congrArg (fun l => l.2.1) hothers) (congrArg (fun l => l.2.2.1) hothers)

/-- **The loop** takes what is taken without sessions. -/
theorem Ahead.takeTransactions (hQ : Q.Shallow) (maximum : ℕ) :
    ∀ (pending : List (ProcessedTransaction Op ρ)) (block : PendingBlock Op ρ) {s : Node Op R},
      Ahead P Q g base s → ∃ block' s',
        takeTransactions P Q W maximum pending block s = .ok block' s' ∧
        block'.transactions = block.transactions ++
          W.taken (Q.protocol P) maximum s.db.objects block.totalSize pending ∧
        Assembling P Q g base s s'
  | [], block, s, h => ⟨block, s, rfl, (List.append_nil _).symm, h, rfl, rfl, rfl⟩
  | tx :: pending, block, s, h => by
    have hrun : Node.takeTransactions P Q W maximum (tx :: pending) block s =
        (Node.takeTransaction P Q W maximum tx block >>=
          Node.takeTransactions P Q W maximum pending) s := rfl
    rw [hrun, bind_apply]
    rcases h.takeTransaction (W := W) hQ maximum tx block with
      ⟨o, s₁, hfits, hresult, hone, rfl, h₁⟩ | ⟨s₁, hskipped, hone, hobjects, h₁⟩
    · obtain ⟨block', s', hrest, htaken, h'⟩ := h₁.ahead.takeTransactions hQ maximum pending
        ⟨block.totalSize + W.packSize ⟨tx.trx, W.results s.db.objects tx.trx⟩,
          block.transactions ++ [⟨tx.trx, W.results s.db.objects tx.trx⟩]⟩
      rw [hone]
      refine ⟨block', s', hrest, ?_, h'.ahead, h'.chain.trans h₁.chain,
        h'.forkDb.trans h₁.forkDb, h'.lists.trans h₁.lists⟩
      rw [Producer.taken_of_some hfits hresult, htaken, List.append_assoc]
      rfl
    · obtain ⟨block', s', hrest, htaken, h'⟩ := h₁.ahead.takeTransactions hQ maximum pending block
      rw [hone]
      refine ⟨block', s', hrest, ?_, h'.ahead, h'.chain.trans h₁.chain,
        h'.forkDb.trans h₁.forkDb, h'.lists.trans h₁.lists⟩
      rw [htaken, hobjects]
      rcases hskipped with hpostponed | hnone
      · rw [Producer.taken_of_postponed hpostponed]
      · rw [Producer.taken_of_none hnone]

/-- The transactions of the block that is generated in this state. -/
def takenOf (Q : Proposals Op R) (P : Protocol Op R) (W : Producer Op R ρ)
    (pending : List (ProcessedTransaction Op ρ)) (s : Node Op R) : List (ProcessedTransaction Op ρ) :=
  W.taken (Q.protocol P) (W.maximumBlockSize s.db.objects) s.committed W.maxBlockHeaderSize pending

/-- The state before `push_block`: that of the head block. -/
structure Assembled (P : Protocol Op R) (Q : Proposals Op R) (g : Objects R) (s s' : Node Op R) :
    Prop where
  atHead : AtHead P Q g s'
  objects : s'.db.objects = s.committed
  chain : s'.db.chain = s.db.chain
  forkDb : s'.db.forkDb = s.db.forkDb
  lists : s'.lists = s.lists

/-- **The block** has the transactions that are taken from the head block on. -/
theorem Between.assembleBlock (hQ : Q.Shallow) (h : Between P Q g s)
    (pending : List (ProcessedTransaction Op ρ)) {time witness key : ℕ}
    (hallowed : W.Allows s.db.objects time witness key) :
    ∃ s', assembleBlock P Q W pending time witness key s =
      .ok (W.sealed P s.committed time witness key
        ((takenOf Q P W pending s).map ProcessedTransaction.trx), takenOf Q P W pending s) s' ∧
      Assembled P Q g s s' := by
  obtain ⟨base, honTop⟩ := h.onTop
  have hcommitted := honTop.committed
  obtain ⟨s₁, hreset₁, h₁, hobjects₁, hlists₁, hchain₁, hfork₁⟩ := honTop.resetPending
  have hstart : startPending s₁ = .ok () (final startPending s₁) := rfl
  obtain ⟨block, s₃, htake, htaken, h₃⟩ := h₁.startPending.takeTransactions (W := W) hQ
    (W.maximumBlockSize s.db.objects) pending ⟨W.maxBlockHeaderSize, []⟩
  have hahead : OnTop P Q g s₁.db.objects s₃ := .inr h₃.ahead
  obtain ⟨s₄, hreset₄, h₄, hobjects₄, hlists₄, hchain₄, hfork₄⟩ := hahead.resetPending
  have hblock : block.transactions = takenOf Q P W pending s := by
    rw [htaken, List.nil_append, takenOf, hcommitted, ← hobjects₁]
    rfl
  refine ⟨s₄, ?_, h₄, ?_, (hchain₄.trans h₃.chain).trans hchain₁,
    (hfork₄.trans h₃.forkDb).trans hfork₁, (hlists₄.trans h₃.lists).trans hlists₁⟩
  · unfold Node.assembleBlock
    rw [get_bind]
    unfold assert
    rw [if_pos hallowed, pure_bind_apply, bind_apply, hreset₁]
    dsimp only
    rw [bind_apply, hstart]
    dsimp only
    rw [bind_apply, htake]
    dsimp only
    rw [bind_apply, hreset₄]
    dsimp only
    rw [get_bind, hblock, hobjects₄, hobjects₁, hcommitted]
    rfl
  · rw [hobjects₄, hobjects₁, hcommitted]

end Node

end FinChain.Chain
