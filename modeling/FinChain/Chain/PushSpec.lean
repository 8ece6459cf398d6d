import FinChain.Chain.ApplySpec
import FinChain.Chain.ForkBranches

/-!
# What pushing and popping do

Applying a block in a session and popping one are the two steps everything else is put together
from. `applyInSession_ok`, `applyInSession_error`, `popBlock_ok` and `popBlock_error` say what they
do. `pushBlock_cases` and `switchFork_cases` list the ways a pushed block can go, and the frame
rules (`keeps_recover`, `keeps_pushBranch`, ...) carry what holds of single blocks through a fork
switch and through the recovery from a failed one. `linked_pushBlock` is their first use: the
items of the fork database stay linked.
-/

namespace FinChain.Chain

open Exec

variable {Op R : Type}

/-- Applying a block leads from one object state to another. -/
def Yields (P : Protocol Op R) (b : SignedBlock Op) (o o' : Objects R) : Prop :=
  ∃ s s' u, s.objects = o ∧ Database.applyBlock P b s = .ok u s' ∧ s'.objects = o'

theorem Yields.blockApplied {P : Protocol Op R} {b : SignedBlock Op} {o o' : Objects R}
    (h : Yields P b o o') : Database.BlockApplied P b o o' := by
  obtain ⟨s, s', u, rfl, h, rfl⟩ := h
  exact Database.applyBlock_ok h

namespace Database

variable {P : Protocol Op R}

/-! ### One block more -/

theorem undoOp_apply (op : SnapshotStack (Objects R) → Option (SnapshotStack (Objects R)))
    (s : Database Op R) : undoOp op s = match op s.undo with
      | none => .error .undo s
      | some u => .ok () { s with undo := u } := by
  unfold undoOp
  rw [get_bind]
  cases op s.undo with
  | none => rfl
  | some u => rfl

/-- The effect of a block that was applied in a session. -/
structure Extended (P : Protocol Op R) (id : BlockId) (b : SignedBlock Op)
    (s s' : Database Op R) : Prop where
  yields : Yields P b s.objects s'.objects
  saved : s'.undo.saved = s.objects :: s.undo.saved.take s.undo.maxSize
  active : s'.undo.active = s.undo.active
  blockDb : s'.blockDb = s.blockDb.store P id b
  chain : s'.chain = (b, s.objects) :: s.chain
  forkHead : s'.forkDb.head = s.forkDb.head
  forkHeld : s'.forkDb.held = s.forkDb.held
  forkIndex : s'.forkDb.index ⊆ s.forkDb.index

/-- What is left of a block that failed: snapshots beyond the limit are gone, and so may be items
of the fork database. -/
structure Unwound (s s' : Database Op R) : Prop where
  objects : s'.objects = s.objects
  saved : s'.undo.saved = s.undo.saved.take s.undo.maxSize
  active : s'.undo.active = s.undo.active
  blockDb : s'.blockDb = s.blockDb
  chain : s'.chain = s.chain
  forkHead : s'.forkDb.head = s.forkDb.head
  forkHeld : s'.forkDb.held = s.forkDb.held
  forkIndex : s'.forkDb.index ⊆ s.forkDb.index

section Session

variable {id : BlockId} {b : SignedBlock Op} {s s' : Database Op R}

theorem applyInSession_ok {u : Unit} (h : applyInSession P id b s = .ok u s') :
    Extended P id b s s' := by
  rw [applyInSession, get_bind, startUndoSession, update_bind] at h
  obtain ⟨_, s₁, happly, h₁⟩ := bind_eq_ok.mp h
  rcases tryCatch_eq_ok.mp happly with happly | ⟨e, s₂, -, hundo⟩
  · have hframe := (keeps_blockFrame P b).of_ok happly
    have hactive : s₁.undo.active = s.undo.active + 1 := hframe.active
    rw [update_bind] at h₁
    obtain ⟨_, s₂, hcommit, h₂⟩ := bind_eq_ok.mp h₁
    rw [undoOp_apply, SnapshotStack.commit_of_active hactive] at hcommit
    cases hcommit
    obtain rfl := update_eq_ok.mp h₂
    refine ⟨⟨{ s with undo := s.undo.start }, s₁, _, rfl, happly, rfl⟩, hframe.saved, rfl, ?_, ?_, hframe.forkHead,
      hframe.forkHeld, hframe.forkIndex⟩
    · exact congrArg (fun d => d.store P id b) hframe.blockDb
    · exact congrArg (fun c => (b, s.objects) :: c) hframe.chain
  · obtain ⟨_, s₃, -, hthrow⟩ := bind_eq_ok.mp hundo
    cases hthrow

theorem applyInSession_error {e : ChainError} (h : applyInSession P id b s = .error e s') :
    Unwound s s' := by
  rw [applyInSession, get_bind, startUndoSession, update_bind] at h
  rcases bind_eq_error.mp h with happly | ⟨_, s₁, happly, h₁⟩
  · obtain ⟨e₁, s₁, happly, hundo⟩ := tryCatch_eq_error.mp happly
    have hframe := (keeps_blockFrame P b).of_error happly
    have hactive : s₁.undo.active = s.undo.active + 1 := hframe.active
    have hsaved : s₁.undo.saved = s.objects :: s.undo.saved.take s.undo.maxSize := hframe.saved
    rw [bind_apply, undoOp_apply, SnapshotStack.undo_of_saved hsaved hactive] at hundo
    cases hundo
    exact ⟨rfl, rfl, rfl, hframe.blockDb, hframe.chain, hframe.forkHead,
      hframe.forkHeld, hframe.forkIndex⟩
  · -- after the block was applied nothing can fail any more
    exfalso
    rcases tryCatch_eq_ok.mp happly with happly | ⟨e, s₂, -, hundo⟩
    · have hframe := (keeps_blockFrame P b).of_ok happly
      have hactive : s₁.undo.active = s.undo.active + 1 := hframe.active
      rw [update_bind] at h₁
      rcases bind_eq_error.mp h₁ with hcommit | ⟨_, s₂, -, h₂⟩
      · rw [undoOp_apply, SnapshotStack.commit_of_active hactive] at hcommit
        cases hcommit
      · cases h₂
    · obtain ⟨_, s₃, -, hthrow⟩ := bind_eq_ok.mp hundo
      cases hthrow

end Session

/-! ### One block less -/

/-- The effect of popping a block. -/
structure Popped (P : Protocol Op R) (s s' : Database Op R) : Prop where
  saved : s.undo.saved = s'.objects :: s'.undo.saved
  active : s.undo.active = 0 ∧ s'.undo.active = 0
  maxSize : s'.undo.maxSize = s.undo.maxSize
  forkDb : s.forkDb.popBlock = .ok s'.forkDb
  blockDb : s.blockDb.remove s.objects.headBlockId = .ok s'.blockDb
  chain : s'.chain = s.chain.tail
  buffers : s'.buffers = s.buffers

/-- A block that could not be popped is still the head; the fork database and the block database
may have moved on. -/
structure NotPopped (s s' : Database Op R) : Prop where
  undo : s'.undo = s.undo
  chain : s'.chain = s.chain
  buffers : s'.buffers = s.buffers
  forkIndex : s'.forkDb.index = s.forkDb.index
  forkDb : s'.forkDb = s.forkDb ∨ s.forkDb.popBlock = .ok s'.forkDb
  blockDb : s'.blockDb = s.blockDb ∨ s.blockDb.remove s.objects.headBlockId = .ok s'.blockDb

theorem popBlock_index {f f' : ForkDatabase Op} (h : f.popBlock = .ok f') :
    f'.index = f.index ∧ f'.held = f.held ∧ f'.maxSize = f.maxSize := by
  unfold ForkDatabase.popBlock at h
  split at h
  · cases h
  · obtain rfl := Except.ok.inj h
    exact ⟨rfl, rfl, rfl⟩

section Pop

variable {s s' : Database Op R}

theorem popBlock_ok {u : Unit} (h : popBlock P s = .ok u s') : Popped P s s' := by
  rw [popBlock, get_bind, assert_bind_eq_ok, lift_bind_eq_ok] at h
  obtain ⟨-, f, hfork, h⟩ := h
  rw [update_bind, lift_bind_eq_ok] at h
  obtain ⟨d, hblock, h⟩ := h
  rw [update_bind] at h
  obtain ⟨_, _, hundo, h⟩ := bind_eq_ok.mp h
  rw [undoOp_apply] at hundo
  split at hundo
  · cases hundo
  · next hpop =>
    cases hundo
    obtain rfl := update_eq_ok.mp h
    obtain ⟨hsaved, hactive, hactive', hsize⟩ := SnapshotStack.popCommit_eq_some hpop
    exact ⟨hsaved, ⟨hactive, hactive'⟩, hsize, hfork, hblock, rfl, rfl⟩

theorem popBlock_error {e : ChainError} (h : popBlock P s = .error e s') : NotPopped s s' := by
  rw [popBlock, get_bind, assert_bind_eq_error, lift_bind_eq_error] at h
  rcases h with ⟨-, -, rfl⟩ | ⟨-, ⟨-, rfl⟩ | ⟨f, hfork, h⟩⟩
  · exact ⟨rfl, rfl, rfl, rfl, .inl rfl, .inl rfl⟩
  · exact ⟨rfl, rfl, rfl, rfl, .inl rfl, .inl rfl⟩
  have hindex := (popBlock_index hfork).1
  rw [update_bind, lift_bind_eq_error] at h
  rcases h with ⟨-, rfl⟩ | ⟨d, hblock, h⟩
  · exact ⟨rfl, rfl, rfl, hindex, .inr hfork, .inl rfl⟩
  rw [update_bind] at h
  rcases bind_eq_error.mp h with hundo | ⟨_, _, -, hupdate⟩
  · rw [undoOp_apply] at hundo
    split at hundo
    · cases hundo
      exact ⟨rfl, rfl, rfl, hindex, .inr hfork, .inr hblock⟩
    · cases hundo
  · cases hupdate

end Pop

/-! ### Fork switches -/

section Frames

variable {F : Database Op R → Database Op R → Prop} (hF : Frame F)
include hF

theorem keeps_popBlocksTo (hpop : Keeps F (popBlock P)) (id : BlockId) :
    Keeps F (popBlocksTo P id) := by
  have hloop : ∀ n, Keeps F (popUntil P id n) := by
    intro n
    induction n with
    | zero => exact hF.keeps_bind hF.keeps_get fun s => hF.keeps_assert _ _
    | succ n ih =>
      refine hF.keeps_bind hF.keeps_get fun s => ?_
      split
      · exact hF.keeps_pure ()
      · exact hF.keeps_bind hpop fun _ => ih
  exact hF.keeps_bind hF.keeps_get fun s => hloop _

theorem keeps_holding {items : List (ForkItem Op)} {x : DatabaseM Op R Unit}
    (hheld : ∀ s, F s { s with forkDb := { s.forkDb with held := items } })
    (hreleased : ∀ s, F s { s with forkDb := { s.forkDb with held := [] } }) (hx : Keeps F x) :
    Keeps F (holding items x) :=
  hF.keeps_bind (keeps_update hheld) fun _ =>
    hF.keeps_bind (hF.keeps_tryCatch hx fun e =>
      hF.keeps_bind (keeps_update hreleased) fun _ => hF.keeps_throw e)
      fun _ => keeps_update hreleased

variable {newBlock : SignedBlock Op} {forkPoint : BlockId} {oldBranch : List (ForkItem Op)}
  (hremove : ∀ s id, F s { s with forkDb := s.forkDb.remove P id })
  (hhead : ∀ s, F s { s with forkDb := { s.forkDb with head := oldBranch.head? } })
  (happly : ∀ id b, Keeps F (applyInSession P id b)) (hpop : Keeps F (popBlocksTo P forkPoint))
include hremove hhead happly hpop

theorem keeps_recover (failed : List (ForkItem Op)) (e : ChainError) :
    Keeps F (recover P newBlock forkPoint oldBranch failed e) :=
  hF.keeps_bind (hF.keeps_forM (fun _ => keeps_update fun s => hremove s _) _) fun _ =>
    hF.keeps_bind (keeps_update hhead) fun _ => hF.keeps_bind hpop fun _ =>
      hF.keeps_bind (hF.keeps_forM (fun _ => happly _ _) _) fun _ => hF.keeps_throw _

theorem keeps_pushBranch :
    ∀ l : List (ForkItem Op), Keeps F (pushBranch P newBlock forkPoint oldBranch l)
  | [] => hF.keeps_pure ()
  | _ :: l =>
    hF.keeps_bind
      (hF.keeps_tryCatch (happly _ _) (keeps_recover hF hremove hhead happly hpop _))
      fun _ => keeps_pushBranch l

end Frames

/-! ### The ways `pushBlock` can go -/

section Cases

variable (P)

/-- Pushing a block: the fork database refuses it, its head builds on the head of the database,
its head is on another branch that is not higher, or the branches are switched. -/
theorem pushBlock_cases (b : SignedBlock Op) (s : Database Op R) :
    (∃ e, s.forkDb.pushBlock P b = .error e ∧ pushBlock P b s = .error e s) ∨
    ∃ f newHead, s.forkDb.pushBlock P b = .ok f ∧ f.head = some newHead ∧
      ((newHead.data.previous = s.objects.headBlockId ∧
          pushBlock P b s = (extendChain P b >>= fun _ => pure false) { s with forkDb := f }) ∨
        (newHead.data.previous ≠ s.objects.headBlockId ∧
          newHead.num ≤ s.objects.headBlockNumber ∧
          pushBlock P b s = .ok false { s with forkDb := f }) ∨
        (newHead.data.previous ≠ s.objects.headBlockId ∧
          s.objects.headBlockNumber < newHead.num ∧
          pushBlock P b s =
            (switchFork P b newHead >>= fun _ => pure true) { s with forkDb := f })) := by
  cases hpush : s.forkDb.pushBlock P b with
  | error e =>
    refine .inl ⟨e, rfl, ?_⟩
    rw [pushBlock, get_bind, hpush]
    rfl
  | ok f =>
    obtain ⟨item, hlink, rfl⟩ := ForkDatabase.pushBlock_eq_ok hpush
    have hhead : ∃ newHead, (s.forkDb.add P item).head = some newHead := by
      rw [ForkDatabase.add_head]
      split
      · exact ⟨item, rfl⟩
      · split
        · exact ⟨item, rfl⟩
        · next head _ _ => exact ⟨head, rfl⟩
    obtain ⟨newHead, hhead⟩ := hhead
    refine .inr ⟨_, newHead, rfl, hhead, ?_⟩
    have hrun : pushBlock P b s = (if newHead.data.previous ≠ s.objects.headBlockId then
        if s.objects.headBlockNumber < newHead.num then do
          switchFork P b newHead
          return true
        else return false
      else do
        extendChain P b
        return false : DatabaseM Op R Bool) { s with forkDb := s.forkDb.add P item } := by
      rw [pushBlock, get_bind, hpush]
      simp only [lift, pure_bind_apply, update_bind, hhead]
    by_cases hprev : newHead.data.previous = s.objects.headBlockId
    · refine .inl ⟨hprev, ?_⟩
      rw [hrun, if_neg (not_not.mpr hprev)]
    · rw [if_pos hprev] at hrun
      by_cases hnum : s.objects.headBlockNumber < newHead.num
      · rw [if_pos hnum] at hrun
        exact .inr (.inr ⟨hprev, hnum, hrun⟩)
      · rw [if_neg hnum] at hrun
        exact .inr (.inl ⟨hprev, by omega, hrun⟩)

/-- A block that the fork database refuses changes nothing. -/
theorem pushBlock_of_refused {P : Protocol Op R} {b : SignedBlock Op} {s : Database Op R} {e : ChainError}
    (h : s.forkDb.pushBlock P b = .error e) : pushBlock P b s = .error e s := by
  rw [pushBlock, get_bind, h]
  rfl

/-- Switching forks: the branches are not known, or the database pops its branch and pushes the
new one. -/
theorem switchFork_cases (newBlock : SignedBlock Op) (newHead : ForkItem Op)
    (s : Database Op R) :
    (∃ e, s.forkDb.fetchBranchFrom P (newHead.id P) s.objects.headBlockId = .error e ∧
      switchFork P newBlock newHead s = .error e s) ∨
    ∃ newBranch oldBranch,
      s.forkDb.fetchBranchFrom P (newHead.id P) s.objects.headBlockId =
        .ok (newBranch, oldBranch) ∧
      switchFork P newBlock newHead s = holding (newHead :: newBranch ++ oldBranch) (do
        popBlocksTo P (forkPoint oldBranch)
        pushBranch P newBlock (forkPoint oldBranch) oldBranch newBranch.reverse) s := by
  rw [switchFork, get_bind]
  cases s.forkDb.fetchBranchFrom P (newHead.id P) s.objects.headBlockId with
  | error e => exact .inl ⟨e, rfl, rfl⟩
  | ok r => exact .inr ⟨r.1, r.2, rfl, rfl⟩

end Cases

/-- The branches of the fork switch that pushing `b` makes, the new and the old one, each with its
newest item first. -/
def switchBranches (P : Protocol Op R) (s : Database Op R) (b : SignedBlock Op) :
    Option (List (ForkItem Op) × List (ForkItem Op)) :=
  match s.forkDb.pushBlock P b with
  | .error _ => none
  | .ok f => match f.head with
    | none => none
    | some newHead =>
      if newHead.data.previous ≠ s.objects.headBlockId ∧
          s.objects.headBlockNumber < newHead.num then
        match f.fetchBranchFrom P (newHead.id P) s.objects.headBlockId with
        | .error _ => none
        | .ok branches => some branches
      else none

/-- The block the database goes back to when pushing `b` makes it switch forks. -/
def switchPoint (P : Protocol Op R) (s : Database Op R) (b : SignedBlock Op) : Option BlockId :=
  (switchBranches P s b).map fun branches => forkPoint branches.2

theorem switchBranches_eq {b : SignedBlock Op} {s : Database Op R} {f : ForkDatabase Op}
    {newHead : ForkItem Op} {branches : List (ForkItem Op) × List (ForkItem Op)}
    (hpush : s.forkDb.pushBlock P b = .ok f) (hhead : f.head = some newHead)
    (hprev : newHead.data.previous ≠ s.objects.headBlockId)
    (hnum : s.objects.headBlockNumber < newHead.num)
    (hfetch : f.fetchBranchFrom P (newHead.id P) s.objects.headBlockId = .ok branches) :
    switchBranches P s b = some branches := by
  unfold switchBranches
  simp only [hpush, hhead]
  rw [if_pos ⟨hprev, hnum⟩]
  simp only [hfetch]

theorem switchBranches_eq_some {b : SignedBlock Op} {s : Database Op R}
    {branches : List (ForkItem Op) × List (ForkItem Op)}
    (h : switchBranches P s b = some branches) :
    ∃ f newHead, s.forkDb.pushBlock P b = .ok f ∧ f.head = some newHead ∧
      f.fetchBranchFrom P (newHead.id P) s.objects.headBlockId = .ok branches := by
  unfold switchBranches at h
  split at h
  · cases h
  · next f hpush =>
    split at h
    · cases h
    · next newHead hhead =>
      split at h
      · split at h
        · cases h
        · next hfetch =>
          cases h
          exact ⟨f, newHead, hpush, hhead, hfetch⟩
      · cases h

theorem final_bind_pure {α β : Type} (x : DatabaseM Op R α) (f : α → β) (s : Database Op R) :
    final (x >>= fun a => pure (f a)) s = final x s := by
  unfold final
  rw [bind_apply]
  cases x s with
  | ok a s' => rfl
  | error e s' => rfl

/-- What holds of blocks applied in a session, of popping back to the fork point if there is one,
and of changes to the fork database holds of `pushBlock`. -/
theorem keeps_pushBlock {F : Database Op R → Database Op R → Prop} (hF : Frame F)
    (hfork : ∀ s f, F s { s with forkDb := f }) (happly : ∀ id b, Keeps F (applyInSession P id b))
    {b : SignedBlock Op} {s : Database Op R}
    (hpop : ∀ pt, switchPoint P s b = some pt → Keeps F (popBlocksTo P pt)) :
    F s (final (pushBlock P b) s) := by
  rcases pushBlock_cases P b s with ⟨e, -, hrun⟩ | ⟨f, newHead, hpush, hhead, hcases⟩
  · rw [final_of_error hrun]
    exact hF.refl s
  refine hF.trans (hfork s f) ?_
  rcases hcases with ⟨-, hrun⟩ | ⟨-, -, hrun⟩ | ⟨hprev, hnum, hrun⟩
  · rw [final, hrun]
    change F _ (final (extendChain P b >>= fun _ => pure false) _)
    rw [final_bind_pure]
    refine hF.keeps_tryCatch (happly _ _) (fun e => ?_) _
    exact hF.keeps_bind (keeps_update fun s => hfork s _) fun _ => hF.keeps_throw e
  · rw [final_of_ok hrun]
    exact hF.refl _
  · rw [final, hrun]
    change F _ (final (switchFork P b newHead >>= fun _ => pure true) _)
    rw [final_bind_pure]
    rcases switchFork_cases P b newHead { s with forkDb := f } with
      ⟨e, -, hswitch⟩ | ⟨newBranch, oldBranch, hfetch, hswitch⟩
    · rw [final_of_error hswitch]
      exact hF.refl _
    · have hpop' := hpop (forkPoint oldBranch) (by
        rw [switchPoint, switchBranches_eq hpush hhead hprev hnum hfetch]
        rfl)
      rw [final, hswitch]
      refine keeps_holding hF (fun s => hfork s _) (fun s => hfork s _) ?_ _
      exact hF.keeps_bind hpop' fun _ =>
        keeps_pushBranch hF (fun s _ => hfork s _) (fun s => hfork s _) happly hpop' _

theorem holding_ok {items : List (ForkItem Op)} {x : DatabaseM Op R Unit} {s s' : Database Op R}
    {u : Unit} (h : holding items x s = .ok u s') :
    ∃ u' s₁, x { s with forkDb := { s.forkDb with held := items } } = .ok u' s₁ ∧
      s' = { s₁ with forkDb := { s₁.forkDb with held := [] } } := by
  rw [holding, update_bind] at h
  obtain ⟨u', s₁, hx, hrelease⟩ := bind_eq_ok.mp h
  rcases tryCatch_eq_ok.mp hx with hx | ⟨e, s₂, -, hthrow⟩
  · exact ⟨u', s₁, hx, update_eq_ok.mp hrelease⟩
  · rw [update_bind] at hthrow
    cases hthrow

/-! ### The fork database stays linked -/

section Linked

theorem linked_frame :
    Frame fun s s' : Database Op R => s.forkDb.Linked P → s'.forkDb.Linked P where
  refl _ h := h
  trans h₁ h₂ h := h₂ (h₁ h)

theorem keeps_linked_applyInSession (id : BlockId) (b : SignedBlock Op) :
    Keeps (fun s s' => s.forkDb.Linked P → s'.forkDb.Linked P) (applyInSession P id b) := by
  intro s h
  have hsub : ∀ s' : Database Op R, s'.forkDb.index ⊆ s.forkDb.index →
      s'.forkDb.head = s.forkDb.head → s'.forkDb.held = s.forkDb.held → s'.forkDb.Linked P := by
    intro s' hindex hhead hheld
    refine h.of_subset fun i hi => .inl ?_
    rw [hhead, hheld, List.mem_append, List.mem_append] at hi
    rcases hi with (hi | hi) | hi
    · simp [hindex hi]
    · simp [hi]
    · simp [hi]
  unfold final
  split
  · next hok =>
    have he := applyInSession_ok hok
    exact hsub _ he.forkIndex he.forkHead he.forkHeld
  · next herr =>
    have hu := applyInSession_error herr
    exact hsub _ hu.forkIndex hu.forkHead hu.forkHeld

theorem keeps_linked_popBlock :
    Keeps (fun s s' => s.forkDb.Linked P → s'.forkDb.Linked P) (popBlock P) := by
  intro s h
  unfold final
  split
  · next hok => exact h.popBlock (popBlock_ok hok).forkDb
  · next herr =>
    rcases (popBlock_error herr).forkDb with hsame | hpop
    · rw [hsame]
      exact h
    · exact h.popBlock hpop

/-- Forgetting items keeps the rest linked. -/
theorem linked_remove {f : ForkDatabase Op} (h : f.Linked P) (id : BlockId) :
    (f.remove P id).Linked P := by
  refine h.of_subset fun i hi => .inl ?_
  simp only [ForkDatabase.remove, List.mem_append, List.mem_filter] at hi ⊢
  exact hi.imp_left (Or.imp_left And.left)

/-- Items that local variables hold do not harm when they are linked. -/
theorem linked_held {f : ForkDatabase Op} (h : f.Linked P) {items : List (ForkItem Op)}
    (hitems : ∀ i ∈ items, i.WellLinked P) :
    ({ f with held := items } : ForkDatabase Op).Linked P := by
  refine h.of_subset fun i hi => ?_
  simp only [List.mem_append] at hi
  rcases hi with (hi | hi) | hi
  · exact .inl (by simp [hi])
  · exact .inl (by simp [hi])
  · exact .inr (hitems i hi)

/-- The head can be set to the head of a branch. -/
theorem linked_setHead {f : ForkDatabase Op} (h : f.Linked P) {branch : List (ForkItem Op)}
    (hbranch : ∀ i ∈ branch, i.WellLinked P) :
    ({ f with head := branch.head? } : ForkDatabase Op).Linked P := by
  refine h.of_subset fun i hi => ?_
  simp only [List.mem_append] at hi
  rcases hi with (hi | hi) | hi
  · exact .inl (by simp [hi])
  · rw [Option.mem_toList] at hi
    exact .inr (hbranch i (List.mem_of_head? hi))
  · exact .inl (by simp [hi])

/-- What holds of blocks applied in a session, of popped blocks and of each change to the fork
database holds of `pushBlock` from where the fork database has taken the block. -/
theorem keeps_pushBlock_of_taken {F : Database Op R → Database Op R → Prop} (hF : Frame F)
    {b : SignedBlock Op} {s : Database Op R} {f : ForkDatabase Op}
    (hf : s.forkDb.pushBlock P b = .ok f) (hlinked : f.Linked P)
    (hheld : ∀ s items, (∀ i ∈ items, i.WellLinked P) →
      F s { s with forkDb := { s.forkDb with held := items } })
    (hremove : ∀ s id, F s { s with forkDb := s.forkDb.remove P id })
    (hhead : ∀ s i l, (∀ j ∈ i :: l, j.WellLinked P) →
      F s { s with forkDb := { s.forkDb with head := (i :: l).head? } })
    (happly : ∀ id b, Keeps F (applyInSession P id b)) (hpop : Keeps F (popBlock P)) :
    F { s with forkDb := f } (final (pushBlock P b) s) := by
  rcases pushBlock_cases P b s with ⟨e, herr, -⟩ | ⟨f', newHead, hf', hnewHead, hcases⟩
  · rw [hf] at herr
    cases herr
  obtain rfl : f = f' := Except.ok.inj (hf.symm.trans hf')
  rcases hcases with ⟨-, hrun⟩ | ⟨-, -, hrun⟩ | ⟨-, -, hrun⟩
  · rw [final, hrun]
    change F _ (final (extendChain P b >>= fun _ => pure false) _)
    rw [final_bind_pure]
    refine hF.keeps_tryCatch (happly _ _) (fun e => ?_) _
    exact hF.keeps_bind (keeps_update fun s => hremove s _) fun _ => hF.keeps_throw e
  · rw [final_of_ok hrun]
    exact hF.refl _
  · rw [final, hrun]
    change F _ (final (switchFork P b newHead >>= fun _ => pure true) _)
    rw [final_bind_pure]
    rcases switchFork_cases P b newHead { s with forkDb := f } with
      ⟨e, -, hswitch⟩ | ⟨newBranch, oldBranch, hfetch, hswitch⟩
    · rw [final_of_error hswitch]
      exact hF.refl _
    obtain ⟨-, hne, hall, -⟩ := ForkDatabase.fetchBranchFrom_path hlinked hfetch
    obtain ⟨i, older, rfl⟩ := List.exists_cons_of_ne_nil hne
    rw [final, hswitch]
    refine keeps_holding hF (fun s => hheld s _ fun j hj => ?_)
      (fun s => hheld s _ (by simp)) ?_ _
    · rcases List.mem_cons.mp hj with rfl | hj
      · exact hlinked j (by simp [hnewHead])
      · exact hall j hj
    · have hpop' := keeps_popBlocksTo hF hpop (forkPoint (i :: older))
      exact hF.keeps_bind hpop' fun _ => keeps_pushBranch hF hremove
        (fun s => hhead s i older fun j hj => hall j (List.mem_append_right _ hj)) happly hpop' _

/-- **Pushing a block keeps the fork database linked.** -/
theorem linked_pushBlock (b : SignedBlock Op) {s : Database Op R} (h : s.forkDb.Linked P) :
    (final (pushBlock P b) s).forkDb.Linked P := by
  cases hf : s.forkDb.pushBlock P b with
  | error e =>
    rw [final_of_error (pushBlock_of_refused hf)]
    exact h
  | ok f =>
    exact keeps_pushBlock_of_taken linked_frame hf (h.pushBlock hf)
      (fun _ _ hitems h => linked_held h hitems) (fun _ id h => linked_remove h id)
      (fun _ _ _ hall h => linked_setHead h hall) keeps_linked_applyInSession
      keeps_linked_popBlock (h.pushBlock hf)

/-- Popping blocks moves the head of the fork database down. -/
theorem popUntil_forkHead {pt : BlockId} : ∀ {n : ℕ} {s s' : Database Op R} {u : Unit}
    {i : ForkItem Op}, s.forkDb.Linked P → s.forkDb.head = some i →
    popUntil P pt n s = .ok u s' →
    ∃ i', s'.forkDb.head = some i' ∧ i'.num ≤ i.num ∧
      (s.objects.headBlockId ≠ pt → i'.num < i.num) := by
  intro n
  induction n with
  | zero =>
    intro s s' u i _ hi h
    rw [popUntil, get_bind] at h
    obtain ⟨heq, rfl⟩ := assert_eq_ok.mp h
    exact ⟨i, hi, Nat.le_refl _, fun hne => absurd heq hne⟩
  | succ n ih =>
    intro s s' u i hlinked hi h
    rw [popUntil, get_bind] at h
    split at h
    · next heq =>
      cases h
      exact ⟨i, hi, Nat.le_refl _, fun hne => absurd heq hne⟩
    · obtain ⟨_, s₁, hpop, hrest⟩ := bind_eq_ok.mp h
      have hfork := (popBlock_ok hpop).forkDb
      obtain ⟨hd, b, p, hhead, -, hf⟩ := ForkDatabase.popBlock_eq_ok hfork
      obtain rfl : i = .linked hd b p := Option.some.inj (hi.symm.trans hhead)
      have hitem : (ForkItem.linked hd b p).WellLinked P := hlinked _ (by simp [hhead])
      have hprev : p.id P = b.previous := hitem.1
      have hlt : p.num < (ForkItem.linked hd b p).num := by
        have hnum : p.num = b.previous.num := congrArg BlockId.num hprev
        rw [hnum]
        exact Nat.lt_succ_self _
      obtain ⟨i', hi', hle, -⟩ := ih (hlinked.popBlock hfork) (by rw [hf]) hrest
      exact ⟨i', hi', by omega, fun _ => by omega⟩

theorem popBlocksTo_forkHead {pt : BlockId} {s s' : Database Op R} {u : Unit} {i : ForkItem Op}
    (h : popBlocksTo P pt s = .ok u s') (hlinked : s.forkDb.Linked P)
    (hi : s.forkDb.head = some i) :
    ∃ i', s'.forkDb.head = some i' ∧ i'.num ≤ i.num ∧
      (s.objects.headBlockId ≠ pt → i'.num < i.num) := by
  rw [popBlocksTo, get_bind] at h
  exact popUntil_forkHead hlinked hi h

end Linked

end Database

end FinChain.Chain
