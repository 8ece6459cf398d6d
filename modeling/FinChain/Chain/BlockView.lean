import FinChain.Lib.TwoRuns
import FinChain.Chain.PushSpec

/-!
# What a block can see

Applying a block reads the objects, and during maintenance the buffers the votes are counted in.
`sameEnd_applyBlock` states this as a property of two runs: on databases with the same objects,
whatever else they hold, a block is applied with the same result, provided that it does no
maintenance or that the buffers hold the same numbers.

The buffers are the only part of the database outside the undo log that a block both writes and
reads. `sameTally_of_applyBlock` says when a block that failed has left them as they were.
-/

namespace FinChain.Chain

open Exec

variable {Op R : Type}

/-- The buffers hold the same numbers. The total is reset before it is used. -/
structure SameTally (v w : VoteBuffers) : Prop where
  voteTally : v.voteTally = w.voteTally
  witnessCountHistogram : v.witnessCountHistogram = w.witnessCountHistogram
  committeeCountHistogram : v.committeeCountHistogram = w.committeeCountHistogram

theorem SameTally.refl (v : VoteBuffers) : SameTally v v := ⟨rfl, rfl, rfl⟩

theorem SameTally.symm {v w : VoteBuffers} (h : SameTally v w) : SameTally w v :=
  ⟨h.1.symm, h.2.symm, h.3.symm⟩

theorem SameTally.trans {u v w : VoteBuffers} (h : SameTally u v) (h' : SameTally v w) :
    SameTally u w :=
  ⟨h.1.trans h'.1, h.2.trans h'.2, h.3.trans h'.3⟩

namespace Database

variable {P : Protocol Op R}

/-! ### The parts of a block -/

/-- A block up to its maintenance; the result tells whether there is maintenance to do. -/
def beginBlock (P : Protocol Op R) (b : SignedBlock Op) : DatabaseM Op R Bool := do
  assert .assertion (b.transactionMerkleRoot = P.merkleRoot b.transactions)
  validateBlockHeader P b
  let s ← get
  b.transactions.forM (applyTransaction P)
  updateGlobalDynamicData P b
  updateSigningWitness P b
  updateLastIrreversibleBlock
  return s.objects.nextMaintenanceTime ≤ b.timestamp

/-- A block after its maintenance. -/
def endBlock (P : Protocol Op R) (b : SignedBlock Op) : DatabaseM Op R Unit := do
  clearExpiredTransactions
  modifyRest fun o => P.endOfBlock o b

theorem applyBlock_eq (b : SignedBlock Op) : applyBlock P b = (do
    let maintNeeded ← beginBlock P b
    maintainIf maintNeeded P b
    endBlock P b) := by
  simp only [applyBlock, beginBlock, endBlock, bind_assoc, pure_bind]

/-- The maintenance up to the loop over the accounts. -/
def beginTally (P : Protocol Op R) : DatabaseM Op R Unit := do
  modifyRest fun o => P.beginMaintenance o
  update fun s => { s with buffers := resizeBuffers P s.objects s.buffers }

/-- The loop over the accounts. -/
def tallyAccounts (P : Protocol Op R) : DatabaseM Op R Unit := do
  let s ← get
  (P.accounts s.objects).forM (maintainAccount P)

/-- The maintenance after the loop. -/
def endTally (P : Protocol Op R) (b : SignedBlock Op) : DatabaseM Op R Unit := do
  tryCatch (finishMaintenance P b) fun e => do
    clearBuffers
    throw e
  clearBuffers

theorem performChainMaintenance_eq (b : SignedBlock Op) : performChainMaintenance P b = (do
    beginTally P
    tallyAccounts P
    endTally P b) := by
  simp only [performChainMaintenance, beginTally, tallyAccounts, endTally, bind_assoc]

theorem beginBlock_ok {b : SignedBlock Op} {s s' : Database Op R} {maintNeeded : Bool}
    (h : beginBlock P b s = .ok maintNeeded s') :
    maintNeeded = decide (s.objects.nextMaintenanceTime ≤ b.timestamp) := by
  rw [beginBlock, assert_bind_eq_ok] at h
  obtain ⟨_, s₀, hheader, h₁⟩ := bind_eq_ok.mp h.2
  rw [validateBlockHeader, get_bind, assert_bind_eq_ok, assert_bind_eq_ok, assert_eq_ok] at hheader
  obtain ⟨-, -, -, rfl⟩ := hheader
  rw [get_bind] at h₁
  obtain ⟨_, s₁, -, h₂⟩ := bind_eq_ok.mp h₁
  obtain ⟨_, s₂, -, h₃⟩ := bind_eq_ok.mp h₂
  obtain ⟨_, s₃, -, h₄⟩ := bind_eq_ok.mp h₃
  obtain ⟨_, s₄, -, h₅⟩ := bind_eq_ok.mp h₄
  cases h₅
  rfl

/-! ### Blocks on databases with the same objects -/

/-- The relations between databases that a block keeps up, apart from maintenance. -/
structure View (V : Database Op R → Database Op R → Prop) : Prop where
  objects : ∀ {s t}, V s t → s.objects = t.objects
  withObjects : ∀ {s t} o, V s t → V (s.withObjects o) (t.withObjects o)
  setMaxSize : ∀ {s t} n, V s t →
    V { s with undo := { s.undo with maxSize := n }, forkDb := s.forkDb.setMaxSize n }
      { t with undo := { t.undo with maxSize := n }, forkDb := t.forkDb.setMaxSize n }

section View

variable {V : Database Op R → Database Op R → Prop} (hV : View V)
include hV

theorem View.related_modifyObjects (f : Objects R → Objects R) :
    Related V (modifyObjects f) (modifyObjects f) := by
  refine related_update fun s t hst => ?_
  rw [← hV.objects hst]
  exact hV.withObjects _ hst

theorem View.related_modifyRest (f : Objects R → Option R) :
    Related V (modifyRest f) (modifyRest f) := by
  refine related_get_bind fun s t hst => ?_
  rw [← hV.objects hst]
  split
  · exact related_throw _
  · exact hV.related_modifyObjects _

theorem View.related_applyTransaction (trx : Transaction Op) :
    Related V (applyTransaction P trx) (applyTransaction P trx) := by
  refine related_get_bind fun s t hst => ?_
  rw [← hV.objects hst]
  exact related_bind (related_assert _ Iff.rfl) fun _ =>
    related_bind (related_assert _ Iff.rfl) fun _ =>
      related_bind (related_assert _ Iff.rfl) fun _ =>
        related_bind (hV.related_modifyObjects _) fun _ => hV.related_modifyRest _

theorem View.related_validateBlockHeader (b : SignedBlock Op) :
    Related V (validateBlockHeader P b) (validateBlockHeader P b) := by
  refine related_get_bind fun s t hst => ?_
  rw [← hV.objects hst]
  exact related_bind (related_assert _ Iff.rfl) fun _ =>
    related_bind (related_assert _ Iff.rfl) fun _ => related_assert _ Iff.rfl

theorem View.related_updateGlobalDynamicData (b : SignedBlock Op) :
    Related V (updateGlobalDynamicData P b) (updateGlobalDynamicData P b) := by
  refine related_bind (hV.related_modifyObjects _) fun _ => related_get_bind fun s t hst => ?_
  rw [← hV.objects hst]
  exact related_bind (related_assert _ Iff.rfl) fun _ =>
    related_update fun s t hst => hV.setMaxSize _ hst

theorem View.related_beginBlock (b : SignedBlock Op) :
    Related V (beginBlock P b) (beginBlock P b) := by
  refine related_bind (related_assert _ Iff.rfl) fun _ =>
    related_bind (hV.related_validateBlockHeader b) fun _ => related_get_bind fun s t hst => ?_
  rw [← hV.objects hst]
  refine related_bind (related_forM hV.related_applyTransaction _) fun _ =>
    related_bind (hV.related_updateGlobalDynamicData b) fun _ => ?_
  refine related_bind (related_bind (hV.related_modifyRest _) fun _ =>
    hV.related_modifyObjects _) fun _ => ?_
  exact related_bind (hV.related_modifyObjects _) fun _ => related_pure _

theorem View.related_endBlock (b : SignedBlock Op) :
    Related V (endBlock P b) (endBlock P b) :=
  related_bind (hV.related_modifyObjects _) fun _ => hV.related_modifyRest _

end View

/-! ### Maintenance -/

/-- The databases have the same objects and equal buffers. -/
def SameBuffers (s t : Database Op R) : Prop := s.objects = t.objects ∧ s.buffers = t.buffers

/-- The databases have the same objects, and their buffers hold the same numbers. -/
def SameVotes (s t : Database Op R) : Prop :=
  s.objects = t.objects ∧ SameTally s.buffers t.buffers

theorem view_sameBuffers : View (@SameBuffers Op R) where
  objects h := h.1
  withObjects _ h := ⟨rfl, h.2⟩
  setMaxSize _ h := h

theorem view_sameVotes : View (@SameVotes Op R) where
  objects h := h.1
  withObjects _ h := ⟨rfl, h.2⟩
  setMaxSize _ h := h

theorem related_maintainAccount (account : ℕ) :
    Related SameBuffers (maintainAccount P account) (maintainAccount P account) := by
  refine related_bind (related_get_bind fun s t hst => ?_) fun _ =>
    view_sameBuffers.related_modifyRest _
  rw [← hst.1]
  split
  · exact related_throw _
  · refine related_update fun s t hst => ⟨hst.1, ?_⟩
    change tallyVote P s.objects _ s.buffers = tallyVote P t.objects _ t.buffers
    rw [hst.1, hst.2]

theorem related_finishMaintenance (b : SignedBlock Op) :
    Related SameBuffers (finishMaintenance P b) (finishMaintenance P b) := by
  refine related_get_bind fun s t hst => ?_
  rw [← hst.1, ← hst.2]
  split
  · exact related_throw _
  · refine related_update fun s t hst => ⟨?_, hst.2⟩
    rw [← hst.1]
    rfl

theorem related_clearBuffers :
    Related SameBuffers (clearBuffers : DatabaseM Op R Unit) clearBuffers := by
  refine related_update fun s t hst => ⟨hst.1, ?_⟩
  rw [hst.2]

theorem related_tallyAccounts :
    Related SameBuffers (tallyAccounts P : DatabaseM Op R Unit) (tallyAccounts P) := by
  refine related_get_bind fun s t hst => ?_
  rw [← hst.1]
  exact related_forM related_maintainAccount _

theorem related_endTally (b : SignedBlock Op) :
    Related SameBuffers (endTally P b) (endTally P b) := by
  refine related_bind (related_tryCatch (related_finishMaintenance b) fun e => ?_) fun _ =>
    related_clearBuffers
  exact related_bind related_clearBuffers fun _ => related_throw e

theorem resizeBuffers_eq {v w : VoteBuffers} (h : SameTally v w) (o : Objects R) :
    resizeBuffers P o v = resizeBuffers P o w := by
  unfold resizeBuffers
  rw [h.voteTally, h.witnessCountHistogram, h.committeeCountHistogram]

/-- Once the buffers are resized they are equal, and the rest of the maintenance goes the same
way. -/
theorem related_performChainMaintenance (b : SignedBlock Op) :
    Related SameVotes (performChainMaintenance P b) (performChainMaintenance P b) := by
  refine related_bind (view_sameVotes.related_modifyRest _) fun _ => ?_
  refine related_update_bind (Q := SameBuffers) (fun s t hst => ⟨hst.1, ?_⟩) ?_
    fun s t hst => ⟨hst.1, hst.2 ▸ .refl _⟩
  · change resizeBuffers P s.objects s.buffers = resizeBuffers P t.objects t.buffers
    rw [hst.1, resizeBuffers_eq hst.2]
  · refine related_get_bind fun s t hst => ?_
    rw [← hst.1]
    exact related_bind (related_forM related_maintainAccount _) fun _ => related_endTally b

theorem related_beginTally :
    Related SameBuffers (beginTally P : DatabaseM Op R Unit) (beginTally P) := by
  refine related_bind (view_sameBuffers.related_modifyRest _) fun _ =>
    related_update fun s t hst => ⟨hst.1, ?_⟩
  change resizeBuffers P s.objects s.buffers = resizeBuffers P t.objects t.buffers
  rw [hst.1, hst.2]

/-- A block does the same on databases with the same objects and the same votes. -/
theorem related_applyBlock (b : SignedBlock Op) :
    Related SameVotes (applyBlock P b) (applyBlock P b) := by
  rw [applyBlock_eq]
  refine related_bind (view_sameVotes.related_beginBlock b) fun maintNeeded =>
    related_bind ?_ fun _ => view_sameVotes.related_endBlock b
  unfold maintainIf
  split
  · exact related_performChainMaintenance b
  · exact related_pure ()

/-- **The result of a block** depends on the objects, and on the buffers only if it does
maintenance. -/
theorem sameEnd_applyBlock (b : SignedBlock Op) {s t : Database Op R}
    (hobjects : s.objects = t.objects)
    (hbuffers : b.timestamp < s.objects.nextMaintenanceTime ∨ SameTally s.buffers t.buffers) :
    SameEnd (fun s t => s.objects = t.objects) (applyBlock P b s) (applyBlock P b t) := by
  have hview : View fun s t : Database Op R => s.objects = t.objects :=
    { objects := id, withObjects := fun _ _ => rfl, setMaxSize := fun _ h => h }
  rw [applyBlock_eq]
  rcases hbuffers with hlt | htally
  · -- no maintenance is due, and nothing else reads the buffers
    rw [bind_apply, bind_apply]
    have hbegin := hview.related_beginBlock (P := P) b s t hobjects
    cases hrun : beginBlock P b s with
    | error e s₁ =>
      obtain ⟨t₁, hrun', h₁⟩ := (hrun ▸ hbegin).of_error
      rw [hrun']
      exact .error e h₁
    | ok maintNeeded s₁ =>
      obtain ⟨t₁, hrun', h₁⟩ := (hrun ▸ hbegin).of_ok
      rw [hrun', beginBlock_ok hrun, decide_eq_false (Nat.not_le.mpr hlt)]
      exact hview.related_endBlock b s₁ t₁ h₁
  · rw [← applyBlock_eq]
    exact (related_applyBlock b s t ⟨hobjects, htally⟩).mono fun _ _ h => h.1

/-! ### What a failed block leaves in the buffers -/

/-- The block comes to its maintenance and fails in the loop over the accounts. -/
def FailsInTally (P : Protocol Op R) (b : SignedBlock Op) (s : Database Op R) : Prop :=
  ∃ s₁ s₂ e s₃, beginBlock P b s = .ok true s₁ ∧ beginTally P s₁ = .ok () s₂ ∧
    tallyAccounts P s₂ = .error e s₃

/-- The buffers are empty, as they are after every maintenance. -/
def NoVotes (v : VoteBuffers) : Prop := SameTally v {}

theorem FailsInTally.congr {b : SignedBlock Op} {s t : Database Op R} (h : FailsInTally P b s)
    (hst : SameBuffers s t) : FailsInTally P b t := by
  obtain ⟨s₁, s₂, e, s₃, hbegin, htally, hloop⟩ := h
  obtain ⟨t₁, hbegin', h₁⟩ := (hbegin ▸ view_sameBuffers.related_beginBlock (P := P) b s t hst).of_ok
  obtain ⟨t₂, htally', h₂⟩ := (htally ▸ related_beginTally (P := P) s₁ t₁ h₁).of_ok
  obtain ⟨t₃, hloop', -⟩ := (hloop ▸ related_tallyAccounts (P := P) s₂ t₂ h₂).of_error
  exact ⟨t₁, t₂, e, t₃, hbegin', htally', hloop'⟩

section Buffers

/-- The frame of the steps that do not touch the buffers. -/
theorem frame_buffers : Frame fun s s' : Database Op R => s'.buffers = s.buffers :=
  Frame.eq Database.buffers

theorem keeps_buffers_beginBlock (b : SignedBlock Op) :
    Keeps (fun s s' : Database Op R => s'.buffers = s.buffers) (beginBlock P b) := by
  have hF := @frame_buffers Op R
  refine hF.keeps_bind (hF.keeps_assert _ _) fun _ => hF.keeps_bind ?_ fun _ =>
    hF.keeps_bind hF.keeps_get fun s => ?_
  · exact hF.keeps_bind hF.keeps_get fun _ => hF.keeps_bind (hF.keeps_assert _ _) fun _ =>
      hF.keeps_bind (hF.keeps_assert _ _) fun _ => hF.keeps_assert _ _
  · refine hF.keeps_bind (hF.keeps_forM (keeps_applyTransaction hF (fun _ _ => rfl) P) _) fun _ => ?_
    refine hF.keeps_bind ?_ fun _ => hF.keeps_bind
      (keeps_updateSigningWitness hF (fun _ _ _ => rfl) P b) fun _ =>
        hF.keeps_bind (keeps_updateLastIrreversibleBlock fun _ _ _ => rfl) fun _ => hF.keeps_pure _
    exact hF.keeps_bind (keeps_update fun _ => rfl) fun _ => hF.keeps_bind hF.keeps_get fun _ =>
      hF.keeps_bind (hF.keeps_assert _ _) fun _ => keeps_update fun _ => rfl

theorem keeps_buffers_endBlock (b : SignedBlock Op) :
    Keeps (fun s s' : Database Op R => s'.buffers = s.buffers) (endBlock P b) :=
  frame_buffers.keeps_bind (keeps_update fun _ => rfl) fun _ =>
    keeps_modifyRest frame_buffers (fun _ _ _ => rfl) _

/-- After the loop the buffers are emptied in any case. -/
theorem noVotes_endTally (b : SignedBlock Op) (s : Database Op R) :
    NoVotes (final (endTally P b) s).buffers := by
  have hclear : ∀ t : Database Op R,
      NoVotes (final (clearBuffers : DatabaseM Op R Unit) t).buffers := fun t => ⟨rfl, rfl, rfl⟩
  unfold final endTally
  rw [bind_apply, tryCatch_apply]
  cases finishMaintenance P b s with
  | ok u s₁ => exact hclear s₁
  | error e s₁ => exact hclear s₁

/-- A maintenance that started with empty buffers and did not fail in the loop leaves them empty. -/
theorem noVotes_performChainMaintenance {b : SignedBlock Op} {s : Database Op R}
    (hs : NoVotes s.buffers)
    (hloop : ∀ s₁ e s₂, beginTally P s = .ok () s₁ → tallyAccounts P s₁ ≠ .error e s₂) :
    NoVotes (final (performChainMaintenance P b) s).buffers := by
  rw [performChainMaintenance_eq]
  unfold final
  rw [bind_apply]
  cases hbegin : beginTally P s with
  | error e s₁ =>
    rcases bind_eq_error.mp hbegin with hrest | ⟨_, _, -, hupdate⟩
    · have hsame := (keeps_modifyRest frame_buffers (fun _ _ _ => rfl) _).of_error hrest
      change NoVotes s₁.buffers
      rw [hsame]
      exact hs
    · cases hupdate
  | ok u s₁ =>
    change NoVotes (final (tallyAccounts P >>= fun _ => endTally P b) s₁).buffers
    unfold final
    rw [bind_apply]
    cases htally : tallyAccounts P s₁ with
    | error e s₂ => exact absurd htally (hloop s₁ e s₂ hbegin)
    | ok u s₂ => exact noVotes_endTally b s₂

/-- **A block that failed** has left the buffers as they were, if it was not to do maintenance, or
if they were empty and it did not fail in the loop over the accounts. -/
theorem sameTally_of_applyBlock {b : SignedBlock Op} {s s' : Database Op R} {e : ChainError}
    (h : applyBlock P b s = .error e s')
    (hb : b.timestamp < s.objects.nextMaintenanceTime ∨
      NoVotes s.buffers ∧ ¬ FailsInTally P b s) : SameTally s.buffers s'.buffers := by
  rw [applyBlock_eq] at h
  rcases bind_eq_error.mp h with hbegin | ⟨maintNeeded, s₁, hbegin, h⟩
  · have := (keeps_buffers_beginBlock b).of_error hbegin
    rw [this]
    exact .refl _
  have hs₁ : s₁.buffers = s.buffers := (keeps_buffers_beginBlock b).of_ok hbegin
  have hmaint : SameTally s.buffers (final (maintainIf maintNeeded P b) s₁).buffers := by
    cases hneeded : maintNeeded with
    | false =>
      change SameTally s.buffers s₁.buffers
      rw [hs₁]
      exact .refl _
    | true =>
      have hle := beginBlock_ok hbegin
      rw [hneeded, eq_comm, decide_eq_true_eq] at hle
      obtain ⟨hempty, hloop⟩ := hb.resolve_left (Nat.not_lt.mpr hle)
      have hclean : NoVotes (final (performChainMaintenance P b) s₁).buffers := by
        refine noVotes_performChainMaintenance (hs₁ ▸ hempty) fun s₂ e s₃ hb₂ htally => ?_
        exact hloop ⟨s₁, s₂, e, s₃, hneeded ▸ hbegin, hb₂, htally⟩
      exact ⟨hempty.voteTally.trans hclean.voteTally.symm,
        hempty.witnessCountHistogram.trans hclean.witnessCountHistogram.symm,
        hempty.committeeCountHistogram.trans hclean.committeeCountHistogram.symm⟩
  rcases bind_eq_error.mp h with hfail | ⟨_, s₂, hok, hend⟩
  · rw [final_of_error hfail] at hmaint
    exact hmaint
  · rw [final_of_ok hok] at hmaint
    rw [(keeps_buffers_endBlock b).of_error hend]
    exact hmaint

end Buffers

/-! ### Blocks in sessions -/

/-- What a block applied in a session does, in terms of applying it. -/
theorem applyInSession_run (id : BlockId) (b : SignedBlock Op) (s : Database Op R) :
    (∃ s₁ s', applyBlock P b { s with undo := s.undo.start } = .ok () s₁ ∧
      applyInSession P id b s = .ok () s' ∧ s'.objects = s₁.objects ∧ s'.buffers = s₁.buffers) ∨
    ∃ e s₁ s', applyBlock P b { s with undo := s.undo.start } = .error e s₁ ∧
      applyInSession P id b s = .error e s' ∧ s'.objects = s.objects ∧
      s'.buffers = s₁.buffers := by
  have hrun : applyInSession P id b s = (do
      tryCatch (applyBlock P b) fun e => do
        undoOp SnapshotStack.undo
        throw e
      update fun s => { s with blockDb := s.blockDb.store P id b }
      undoOp SnapshotStack.commit
      update fun t => { t with chain := (b, s.objects) :: t.chain } : DatabaseM Op R Unit)
      { s with undo := s.undo.start } := rfl
  rw [hrun, bind_apply, tryCatch_apply]
  cases happly : applyBlock P b { s with undo := s.undo.start } with
  | ok u s₁ =>
    have hactive : s₁.undo.active = s.undo.active + 1 :=
      ((keeps_blockFrame P b).of_ok happly).active
    refine .inl ⟨s₁,
      { s₁ with
        undo := { s₁.undo with active := s.undo.active }
        blockDb := s₁.blockDb.store P id b
        chain := (b, s.objects) :: s₁.chain }, rfl, ?_, rfl, rfl⟩
    dsimp only
    rw [update_bind, bind_apply, undoOp_apply, SnapshotStack.commit_of_active hactive]
    rfl
  | error e s₁ =>
    have hframe := (keeps_blockFrame P b).of_error happly
    have hactive : s₁.undo.active = s.undo.active + 1 := hframe.active
    have hsaved : s₁.undo.saved = s.objects :: s.undo.saved.take s.undo.maxSize := hframe.saved
    refine .inr ⟨e, s₁,
      { s₁ with
        undo :=
          { s₁.undo with
            current := s.objects
            saved := s.undo.saved.take s.undo.maxSize
            active := s.undo.active } }, rfl, ?_, rfl, rfl⟩
    dsimp only
    rw [bind_apply, undoOp_apply, SnapshotStack.undo_of_saved hsaved hactive]
    rfl

/-- **Blocks applied in sessions** end alike on databases with the same objects. -/
theorem sameEnd_applyInSession (id id' : BlockId) (b : SignedBlock Op) {s t : Database Op R}
    (hobjects : s.objects = t.objects)
    (hbuffers : b.timestamp < s.objects.nextMaintenanceTime ∨ SameTally s.buffers t.buffers) :
    SameEnd (fun s t => s.objects = t.objects) (applyInSession P id b s)
      (applyInSession P id' b t) := by
  have hend : SameEnd (fun s t => s.objects = t.objects)
      (applyBlock P b { s with undo := s.undo.start })
      (applyBlock P b { t with undo := t.undo.start }) :=
    sameEnd_applyBlock b hobjects hbuffers
  rcases applyInSession_run (P := P) id b s with
    ⟨s₁, s', happly, hrun, hs', -⟩ | ⟨e, s₁, s', happly, hrun, hs', -⟩
  · obtain ⟨t₁, happly', h₁⟩ := (happly ▸ hend).of_ok
    rcases applyInSession_run (P := P) id' b t with
      ⟨t₂, t', happly'', hrun', ht', -⟩ | ⟨e, t₂, t', happly'', -⟩
    · rw [happly''] at happly'
      cases happly'
      rw [hrun, hrun']
      exact .ok () (hs'.trans (h₁.trans ht'.symm))
    · rw [happly''] at happly'
      cases happly'
  · obtain ⟨t₁, happly', -⟩ := (happly ▸ hend).of_error
    rcases applyInSession_run (P := P) id' b t with
      ⟨t₂, t', happly'', -⟩ | ⟨e', t₂, t', happly'', hrun', ht', -⟩
    · rw [happly''] at happly'
      cases happly'
    · rw [happly''] at happly'
      cases happly'
      rw [hrun, hrun']
      exact .error e (hs'.trans (hobjects.trans ht'.symm))

end Database

end FinChain.Chain
