import FinChain.Chain.PushBlock

/-!
# What applying a block does

The spec lemmas of `applyBlock`, in two kinds.

* Frames: `SameChain` relates object states that agree on the head block and the transaction
  index; all steps of a block but three stay within it (`keeps_maintenance`,
  `keeps_updateSigningWitness`, ...). `BlockFrame` is what a block leaves alone whether it fails or
  not: the snapshots, the stored blocks, the head of the fork database, the chain.
* `applyBlock_ok`: a block that did not fail builds on the head, becomes the head, and leaves the
  transaction index with the unexpired ids of the old one and its own.
-/

namespace FinChain.Chain

open Exec

variable {Op R : Type}

/-! ### Frames -/

/-- The two object states have the same head block and transaction index, and the irreversible
block has not gone down. -/
structure SameChain (o o' : Objects R) : Prop where
  headBlockNumber : o'.headBlockNumber = o.headBlockNumber
  headBlockId : o'.headBlockId = o.headBlockId
  time : o'.time = o.time
  transactions : o'.transactions = o.transactions
  lastIrreversibleBlockNum : o.lastIrreversibleBlockNum ≤ o'.lastIrreversibleBlockNum

theorem SameChain.refl (o : Objects R) : SameChain o o := ⟨rfl, rfl, rfl, rfl, Nat.le_refl _⟩

theorem SameChain.trans {o₁ o₂ o₃ : Objects R} (h₁ : SameChain o₁ o₂) (h₂ : SameChain o₂ o₃) :
    SameChain o₁ o₃ :=
  ⟨h₂.headBlockNumber.trans h₁.headBlockNumber, h₂.headBlockId.trans h₁.headBlockId,
    h₂.time.trans h₁.time, h₂.transactions.trans h₁.transactions,
    h₁.lastIrreversibleBlockNum.trans h₂.lastIrreversibleBlockNum⟩

theorem SameChain.frame :
    Frame fun s s' : Database Op R => SameChain s.objects s'.objects where
  refl s := .refl s.objects
  trans h₁ h₂ := h₁.trans h₂

/-- What no step of a block touches: only the objects, the buffers and the sizes of the undo and
fork databases change, and the fork database may forget old items. -/
structure BlockFrame (s s' : Database Op R) : Prop where
  saved : s'.undo.saved = s.undo.saved
  active : s'.undo.active = s.undo.active
  blockDb : s'.blockDb = s.blockDb
  chain : s'.chain = s.chain
  forkHead : s'.forkDb.head = s.forkDb.head
  forkHeld : s'.forkDb.held = s.forkDb.held
  forkIndex : s'.forkDb.index ⊆ s.forkDb.index

theorem BlockFrame.frame : Frame (@BlockFrame Op R) where
  refl _ := ⟨rfl, rfl, rfl, rfl, rfl, rfl, List.Subset.refl _⟩
  trans h₁ h₂ :=
    ⟨h₂.saved.trans h₁.saved, h₂.active.trans h₁.active, h₂.blockDb.trans h₁.blockDb,
      h₂.chain.trans h₁.chain, h₂.forkHead.trans h₁.forkHead, h₂.forkHeld.trans h₁.forkHeld,
      fun _ hi => h₁.forkIndex (h₂.forkIndex hi)⟩

namespace Database

section Steps

variable {F : Database Op R → Database Op R → Prop} (hF : Frame F)
include hF

theorem keeps_modifyRest (hobj : ∀ s o, SameChain s.objects o → F s (s.withObjects o))
    (g : Objects R → Option R) : Keeps F (modifyRest g : DatabaseM Op R Unit) := by
  refine hF.keeps_bind hF.keeps_get fun s => ?_
  split
  · exact hF.keeps_throw _
  · exact keeps_update fun s => hobj s _ ⟨rfl, rfl, rfl, rfl, Nat.le_refl _⟩

theorem keeps_updateSigningWitness (hobj : ∀ s o, SameChain s.objects o → F s (s.withObjects o))
    (P : Protocol Op R) (b : SignedBlock Op) : Keeps F (updateSigningWitness P b) :=
  hF.keeps_bind (keeps_modifyRest hF hobj _) fun _ =>
    keeps_update fun s => hobj s _ ⟨rfl, rfl, rfl, rfl, Nat.le_refl _⟩

omit hF in
theorem keeps_updateLastIrreversibleBlock
    (hobj : ∀ s o, SameChain s.objects o → F s (s.withObjects o)) :
    Keeps F (updateLastIrreversibleBlock : DatabaseM Op R Unit) := by
  refine keeps_update fun s => hobj s _ ?_
  dsimp only
  split
  · next hlt => exact ⟨rfl, rfl, rfl, rfl, hlt.le⟩
  · exact .refl _

theorem keeps_maintainAccount (hobj : ∀ s o, SameChain s.objects o → F s (s.withObjects o))
    (hbuf : ∀ s v, F s { s with buffers := v }) (P : Protocol Op R) (account : ℕ) :
    Keeps F (maintainAccount P account) := by
  refine hF.keeps_bind (hF.keeps_bind hF.keeps_get fun s => ?_) fun _ => keeps_modifyRest hF hobj _
  split
  · exact hF.keeps_throw _
  · exact keeps_update fun s => hbuf s _

theorem keeps_maintenance (hobj : ∀ s o, SameChain s.objects o → F s (s.withObjects o))
    (hbuf : ∀ s v, F s { s with buffers := v }) (P : Protocol Op R) (b : SignedBlock Op) :
    Keeps F (performChainMaintenance P b) := by
  have hclear : Keeps F (clearBuffers : DatabaseM Op R Unit) := keeps_update fun s => hbuf s _
  have hfinish : Keeps F (finishMaintenance P b) := by
    refine hF.keeps_bind hF.keeps_get fun s => ?_
    split
    · exact hF.keeps_throw _
    · exact keeps_update fun s => hobj s _ ⟨rfl, rfl, rfl, rfl, Nat.le_refl _⟩
  refine hF.keeps_bind (keeps_modifyRest hF hobj _) fun _ => ?_
  refine hF.keeps_bind (keeps_update fun s => hbuf s _) fun _ => hF.keeps_bind hF.keeps_get fun s => ?_
  refine hF.keeps_bind (hF.keeps_forM (keeps_maintainAccount hF hobj hbuf P) _) fun _ => ?_
  refine hF.keeps_bind (hF.keeps_tryCatch hfinish fun e => ?_) fun _ => hclear
  exact hF.keeps_bind hclear fun _ => hF.keeps_throw e

theorem keeps_applyTransaction (hobj : ∀ s o, F s (s.withObjects o)) (P : Protocol Op R)
    (trx : Transaction Op) : Keeps F (applyTransaction P trx) := by
  refine hF.keeps_bind hF.keeps_get fun s => hF.keeps_bind (hF.keeps_assert _ _) fun _ => ?_
  refine hF.keeps_bind (hF.keeps_assert _ _) fun _ => hF.keeps_bind (hF.keeps_assert _ _) fun _ => ?_
  exact hF.keeps_bind (keeps_update fun s => hobj s _) fun _ =>
    keeps_modifyRest hF (fun s o _ => hobj s o) _

/-- Every step of a block is a change of the objects, of the buffers or of the two sizes. -/
theorem keeps_applyBlock (hobj : ∀ s o, F s (s.withObjects o))
    (hbuf : ∀ s v, F s { s with buffers := v })
    (hsize : ∀ s n, F s { s with
      undo := { s.undo with maxSize := n + 1 }
      forkDb := s.forkDb.setMaxSize (n + 1) })
    (P : Protocol Op R) (b : SignedBlock Op) : Keeps F (applyBlock P b) := by
  have hobj' : ∀ s o, SameChain s.objects o → F s (s.withObjects o) := fun s o _ => hobj s o
  have hheader : Keeps F (validateBlockHeader P b) :=
    hF.keeps_bind hF.keeps_get fun s => hF.keeps_bind (hF.keeps_assert _ _) fun _ =>
      hF.keeps_bind (hF.keeps_assert _ _) fun _ => hF.keeps_assert _ _
  have hglobal : Keeps F (updateGlobalDynamicData P b) :=
    hF.keeps_bind (keeps_update fun s => hobj s _) fun _ => hF.keeps_bind hF.keeps_get fun s =>
      hF.keeps_bind (hF.keeps_assert _ _) fun _ => keeps_update fun s => hsize s _
  refine hF.keeps_bind (hF.keeps_assert _ _) fun _ => hF.keeps_bind hheader fun _ =>
    hF.keeps_bind hF.keeps_get fun s => ?_
  refine hF.keeps_bind (hF.keeps_forM (keeps_applyTransaction hF hobj P) _) fun _ =>
    hF.keeps_bind hglobal fun _ => ?_
  refine hF.keeps_bind (keeps_updateSigningWitness hF hobj' P b) fun _ =>
    hF.keeps_bind (keeps_updateLastIrreversibleBlock hobj') fun _ => ?_
  have hmaint : ∀ n, Keeps F (maintainIf n P b) := by
    intro n
    cases n with
    | true => exact keeps_maintenance hF hobj' hbuf P b
    | false => exact hF.keeps_pure ()
  exact hF.keeps_bind (hmaint _) fun _ => hF.keeps_bind (keeps_update fun s => hobj s _) fun _ =>
    keeps_modifyRest hF hobj' _

end Steps

theorem setMaxSize_index_subset (f : ForkDatabase Op) (n : ℕ) :
    (f.setMaxSize n).index ⊆ f.index := by
  unfold ForkDatabase.setMaxSize
  split
  · exact List.Subset.refl _
  · exact fun i hi => List.mem_of_mem_filter hi

theorem setMaxSize_head (f : ForkDatabase Op) (n : ℕ) : (f.setMaxSize n).head = f.head := by
  unfold ForkDatabase.setMaxSize
  split <;> rfl

theorem setMaxSize_held (f : ForkDatabase Op) (n : ℕ) : (f.setMaxSize n).held = f.held := by
  unfold ForkDatabase.setMaxSize
  split <;> rfl

/-- **What a block leaves alone.** -/
theorem keeps_blockFrame (P : Protocol Op R) (b : SignedBlock Op) :
    Keeps BlockFrame (applyBlock P b) :=
  keeps_applyBlock BlockFrame.frame
    (fun _ _ => ⟨rfl, rfl, rfl, rfl, rfl, rfl, List.Subset.refl _⟩)
    (fun _ _ => ⟨rfl, rfl, rfl, rfl, rfl, rfl, List.Subset.refl _⟩)
    (fun _ _ => ⟨rfl, rfl, rfl, rfl, setMaxSize_head _ _, setMaxSize_held _ _,
      setMaxSize_index_subset _ _⟩) P b

/-! ### A block that was applied -/

/-- The entry of a transaction in the transaction index. -/
def entry (P : Protocol Op R) (trx : Transaction Op) : ℕ × ℕ := (P.trxId trx, trx.expiration)

theorem modifyRest_ok {g : Objects R → Option R} {s s' : Database Op R} {u : Unit}
    (h : modifyRest g s = .ok u s') : SameChain s.objects s'.objects :=
  (keeps_modifyRest SameChain.frame (fun _ _ h => h) g).of_ok h

theorem applyTransaction_ok {P : Protocol Op R} {trx : Transaction Op} {s s' : Database Op R}
    {u : Unit} (h : applyTransaction P trx s = .ok u s') :
    P.trxId trx ∉ s.objects.transactions.map Prod.fst ∧ notExpired s.objects trx ∧
      SameChain { s.objects with transactions := entry P trx :: s.objects.transactions }
        s'.objects := by
  rw [applyTransaction, get_bind, assert_bind_eq_ok, assert_bind_eq_ok, assert_bind_eq_ok,
    modifyObjects, update_bind] at h
  obtain ⟨hdupe, -, hexp, h⟩ := h
  exact ⟨hdupe, hexp, modifyRest_ok h⟩

/-- The transactions of a block: none is in the index, no two have the same id, none has expired,
and all are added to the index. -/
theorem applyTransactions_ok {P : Protocol Op R} : ∀ {trxs : List (Transaction Op)}
    {s s' : Database Op R} {u : PUnit}, trxs.forM (applyTransaction P) s = .ok u s' →
    (trxs.map P.trxId).Nodup ∧
      (∀ trx ∈ trxs, P.trxId trx ∉ s.objects.transactions.map Prod.fst ∧
        (0 < s.objects.headBlockNumber → s.objects.time ≤ trx.expiration)) ∧
      SameChain
        { s.objects with
          transactions := (trxs.map (entry P)).reverse ++ s.objects.transactions }
        s'.objects
  | [], s, s', _, h => by
    obtain rfl : s = s' := by cases h; rfl
    exact ⟨List.nodup_nil, fun _ h => absurd h (by simp), .refl _⟩
  | trx :: trxs, s, s', u, h => by
    obtain ⟨_, s₁, htrx, h⟩ := bind_eq_ok.mp
      (show (applyTransaction P trx >>= fun _ => trxs.forM (applyTransaction P)) s = .ok u s' from h)
    obtain ⟨hdupe, hexp, hsame⟩ := applyTransaction_ok htrx
    obtain ⟨hnodup, hall, hrest⟩ := applyTransactions_ok h
    have hidx : s₁.objects.transactions = entry P trx :: s.objects.transactions :=
      hsame.transactions
    refine ⟨?_, ?_, ?_⟩
    · rw [List.map_cons, List.nodup_cons]
      refine ⟨?_, hnodup⟩
      -- a second transaction with the same id would be found in the index
      intro hmem
      obtain ⟨trx', htrx', hid⟩ := List.mem_map.mp hmem
      have := (hall trx' htrx').1
      rw [hidx, hid] at this
      exact this (by simp [entry])
    · intro trx' htrx'
      rcases List.mem_cons.mp htrx' with rfl | htrx'
      · exact ⟨hdupe, fun hpos => (hexp hpos).2⟩
      · obtain ⟨hnot, htime⟩ := hall trx' htrx'
        rw [hidx] at hnot
        rw [hsame.headBlockNumber, hsame.time] at htime
        exact ⟨fun hmem => hnot (List.mem_cons_of_mem _ hmem), htime⟩
    · refine SameChain.trans ?_ hrest
      refine ⟨hsame.headBlockNumber, hsame.headBlockId, hsame.time, ?_,
        hsame.lastIrreversibleBlockNum⟩
      simp only [hidx, List.map_cons, List.reverse_cons, List.append_assoc, List.singleton_append]

/-- The relation between the object states before and after a block that was applied. -/
structure BlockApplied (P : Protocol Op R) (b : SignedBlock Op) (o o' : Objects R) : Prop where
  previous : o.headBlockId = b.previous
  time_lt : o.time < b.timestamp
  headBlockNumber : o'.headBlockNumber = b.blockNum
  headBlockId : o'.headBlockId = P.blockId b
  time : o'.time = b.timestamp
  nodup : (b.transactions.map P.trxId).Nodup
  accepted : ∀ trx ∈ b.transactions, P.trxId trx ∉ o.transactions.map Prod.fst ∧
    (0 < o.headBlockNumber → o.time ≤ trx.expiration)
  transactions : o'.transactions =
    ((b.transactions.map (entry P)).reverse ++ o.transactions).filter fun e => b.timestamp ≤ e.2

/-- **A block that was applied.** -/
theorem applyBlock_ok {P : Protocol Op R} {b : SignedBlock Op} {s s' : Database Op R} {u : Unit}
    (h : applyBlock P b s = .ok u s') : BlockApplied P b s.objects s'.objects := by
  rw [applyBlock, assert_bind_eq_ok] at h
  obtain ⟨_, s₀, hheader, h₁⟩ := bind_eq_ok.mp h.2
  rw [validateBlockHeader, get_bind, assert_bind_eq_ok, assert_bind_eq_ok, assert_eq_ok] at hheader
  obtain ⟨hprev, htime, -, rfl⟩ := hheader
  rw [get_bind] at h₁
  obtain ⟨_, s₁, htrxs, h₂⟩ := bind_eq_ok.mp h₁
  obtain ⟨hnodup, haccepted, hs₁⟩ := applyTransactions_ok htrxs
  obtain ⟨_, s₂, hglobal, h₃⟩ := bind_eq_ok.mp h₂
  rw [updateGlobalDynamicData, modifyObjects, update_bind, get_bind, assert_bind_eq_ok,
    setMaxSize, update_eq_ok] at hglobal
  obtain ⟨-, rfl⟩ := hglobal
  -- what follows changes neither the head nor, up to `clear_expired_transactions`, the index
  obtain ⟨_, s₃, hsign, h₄⟩ := bind_eq_ok.mp h₃
  have hs₃ := (keeps_updateSigningWitness SameChain.frame (fun _ _ h => h) P b).of_ok hsign
  obtain ⟨_, s₄, hlib, h₅⟩ := bind_eq_ok.mp h₄
  have hs₄ := (keeps_updateLastIrreversibleBlock (F := fun s s' : Database Op R =>
    SameChain s.objects s'.objects) (fun _ _ h => h)).of_ok hlib
  obtain ⟨_, s₅, hmaint, h₆⟩ := bind_eq_ok.mp h₅
  have hs₅ : SameChain s₄.objects s₅.objects := by
    unfold maintainIf at hmaint
    split at hmaint
    · exact (keeps_maintenance SameChain.frame (fun _ _ h => h) (fun s _ => .refl s.objects) P
        b).of_ok hmaint
    · cases hmaint
      exact .refl _
  rw [clearExpiredTransactions, modifyObjects, update_bind] at h₆
  have hs₇ := modifyRest_ok h₆
  have hchain := (hs₃.trans hs₄).trans hs₅
  refine ⟨hprev, htime, ?_, ?_, ?_, hnodup, haccepted, ?_⟩
  · exact hs₇.headBlockNumber.trans hchain.headBlockNumber
  · exact hs₇.headBlockId.trans hchain.headBlockId
  · exact hs₇.time.trans hchain.time
  · refine hs₇.transactions.trans ?_
    change s₅.objects.transactions.filter (fun e => decide (s₅.objects.time ≤ e.2)) = _
    have htrx : s₅.objects.transactions = s₁.objects.transactions := hchain.transactions
    have htm : s₅.objects.time = b.timestamp := hchain.time
    rw [htrx, htm, hs₁.transactions]

end Database

end FinChain.Chain
