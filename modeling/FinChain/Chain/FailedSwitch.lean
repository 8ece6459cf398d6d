import FinChain.Chain.Consistent

/-!
# Failed fork switches

When a block of the new branch fails, `_push_block` takes the branch off again, applies the blocks
of the old branch once more and throws the exception of the block. The objects are then as they
were, but not everything else is:

* every block of the old branch is stored under the id of the block that was pushed, so the block
  database does not know the old head block any more;
* the head of the fork database is set to the old head before the new branch is popped, and every
  pop moves it down.

`not_restores` puts the two together: no call of `push_block` that ends with the exception of a
failed branch leaves the database as it was.
-/

namespace FinChain.Chain

open Exec Database

variable {Op R : Type} {P : Protocol Op R} {g : Objects R}

/-- Everything is as before a fork switch that failed: the objects with the head block, the head of
the fork database, and the stored blocks, those of the old branch and none that is only on the new
one. -/
structure Restored (P : Protocol Op R) (b : SignedBlock Op) (s s' : Database Op R) : Prop where
  objects : s'.objects = s.objects
  forkHead : s'.forkDb.head.map (ForkItem.id P) = s.forkDb.head.map (ForkItem.id P)
  stored : ∀ newBranch oldBranch, switchBranches P s b = some (newBranch, oldBranch) →
    ∀ i ∈ oldBranch, s'.blockDb.contains (i.id P) = true ∧
      s'.blockDb.fetchOptional P (i.id P) = some i.data
  dropped : ∀ newBranch oldBranch, switchBranches P s b = some (newBranch, oldBranch) →
    ∀ i ∈ newBranch, i.id P ∉ oldBranch.map (ForkItem.id P) →
      s'.blockDb.contains (i.id P) = false

/-- Pushing the block ends with the exception of a block of the new branch, and everything is as
before. -/
def Restores (P : Protocol Op R) (b : SignedBlock Op) (s : Database Op R) : Prop :=
  ∃ e s', pushBlock P b s = .error (.switchFailed e) s' ∧ Restored P b s s'

/-! ### Where the exception comes from -/

/-- The exceptions other than that of a failed fork switch. -/
def ChainError.Direct : ChainError → Prop
  | .switchFailed _ => False
  | _ => True

theorem raises_undoOp (op : SnapshotStack (Objects R) → Option (SnapshotStack (Objects R))) :
    Raises ChainError.Direct (undoOp op : DatabaseM Op R Unit) := by
  refine raises_bind raises_get fun s => ?_
  split
  · exact raises_throw trivial
  · exact raises_update _

theorem raises_modifyRest (f : Objects R → Option R) :
    Raises ChainError.Direct (modifyRest f : DatabaseM Op R Unit) := by
  refine raises_bind raises_get fun s => ?_
  split
  · exact raises_throw trivial
  · exact raises_update _

theorem raises_applyTransaction (trx : Transaction Op) :
    Raises ChainError.Direct (applyTransaction P trx) :=
  raises_bind raises_get fun _ => raises_bind (raises_assert trivial _) fun _ =>
    raises_bind (raises_assert trivial _) fun _ => raises_bind (raises_assert trivial _) fun _ =>
      raises_bind (raises_update _) fun _ => raises_modifyRest _

theorem raises_maintainAccount (account : ℕ) :
    Raises ChainError.Direct (maintainAccount P account : DatabaseM Op R Unit) := by
  refine raises_bind (raises_bind raises_get fun s => ?_) fun _ => raises_modifyRest _
  split
  · exact raises_throw trivial
  · exact raises_update _

theorem raises_performChainMaintenance (b : SignedBlock Op) :
    Raises ChainError.Direct (performChainMaintenance P b) := by
  refine raises_bind (raises_modifyRest _) fun _ => raises_bind (raises_update _) fun _ =>
    raises_bind raises_get fun _ => raises_bind (raises_forM raises_maintainAccount _) fun _ =>
      raises_bind (raises_tryCatch (raises_bind raises_get fun s => ?_) fun e he =>
        raises_bind (raises_update _) fun _ => raises_throw he) fun _ => raises_update _
  split
  · exact raises_throw trivial
  · exact raises_update _

/-- Applying a block does not throw it. -/
theorem raises_applyBlock (b : SignedBlock Op) : Raises ChainError.Direct (applyBlock P b) := by
  refine raises_bind (raises_assert trivial _) fun _ => raises_bind ?_ fun _ =>
    raises_bind raises_get fun _ => raises_bind (raises_forM raises_applyTransaction _) fun _ =>
      raises_bind ?_ fun _ => raises_bind ?_ fun _ => raises_bind (raises_update _) fun _ =>
        raises_bind ?_ fun _ => raises_bind (raises_update _) fun _ => raises_modifyRest _
  · exact raises_bind raises_get fun _ => raises_bind (raises_assert trivial _) fun _ =>
      raises_bind (raises_assert trivial _) fun _ => raises_assert trivial _
  · exact raises_bind (raises_update _) fun _ => raises_bind raises_get fun _ =>
      raises_bind (raises_assert trivial _) fun _ => raises_update _
  · exact raises_bind (raises_modifyRest _) fun _ => raises_update _
  · unfold maintainIf
    split
    · exact raises_performChainMaintenance b
    · exact raises_pure ()

theorem raises_applyInSession (id : BlockId) (b : SignedBlock Op) :
    Raises ChainError.Direct (applyInSession P id b) :=
  raises_bind raises_get fun _ => raises_bind (raises_update _) fun _ =>
    raises_bind (raises_tryCatch (raises_applyBlock b) fun _ he =>
      raises_bind (raises_undoOp _) fun _ => raises_throw he) fun _ =>
      raises_bind (raises_update _) fun _ => raises_bind (raises_undoOp _) fun _ =>
        raises_update _

theorem direct_of_link {f : ForkDatabase Op} {b : SignedBlock Op} {e : ChainError}
    (h : f.link P b = .error e) : e.Direct := by
  unfold ForkDatabase.link at h
  split at h
  · cases h
  · split at h
    · split at h
      · cases h
      · split at h
        · cases h
          trivial
        · cases h
    · cases h
      trivial

theorem raises_popBlock : Raises ChainError.Direct (popBlock P) := by
  refine raises_bind raises_get fun s => raises_bind (raises_assert trivial _) fun _ =>
    raises_bind (raises_lift fun e he => ?_) fun _ => raises_bind (raises_update _) fun _ =>
      raises_bind (raises_lift fun e he => ?_) fun _ => raises_bind (raises_update _) fun _ =>
        raises_bind (raises_undoOp _) fun _ => raises_update _
  · unfold ForkDatabase.popBlock at he
    split at he
    · cases he
      trivial
    · cases he
  · unfold BlockDatabase.remove at he
    split at he
    · cases he
      trivial
    · split at he
      · cases he
      · cases he

theorem raises_popBlocksTo (pt : BlockId) : Raises ChainError.Direct (popBlocksTo P pt) := by
  have hloop : ∀ n, Raises ChainError.Direct (popUntil P pt n) := by
    intro n
    induction n with
    | zero => exact raises_bind raises_get fun s => raises_assert trivial _
    | succ n ih =>
      refine raises_bind raises_get fun s => ?_
      split
      · exact raises_pure ()
      · exact raises_bind raises_popBlock fun _ => ih
  exact raises_bind raises_get fun s => hloop _

theorem direct_of_bind {α β : Type} {x : Except ChainError α} {f : α → Except ChainError β}
    (hx : ∀ e, x = .error e → e.Direct) (hf : ∀ a e, f a = .error e → e.Direct) {e : ChainError}
    (h : (x >>= f) = .error e) : e.Direct := by
  cases x with
  | error e' =>
    cases h
    exact hx e rfl
  | ok a => exact hf a e h

theorem direct_of_walkDown {f : ForkDatabase Op} {num : ℕ} :
    ∀ {i : ForkItem Op} (e : ChainError), f.walkDown num i = .error e → e.Direct
  | .unlinked _ _, e, h => by
    unfold ForkDatabase.walkDown at h
    split at h
    · cases h
      trivial
    · cases h
  | .linked _ _ p, e, h => by
    unfold ForkDatabase.walkDown at h
    split at h
    · split at h
      · exact direct_of_bind direct_of_walkDown (fun r e h => by cases h) h
      · cases h
        trivial
    · cases h

theorem direct_of_walkBoth {f : ForkDatabase Op} :
    ∀ {i j : ForkItem Op} (e : ChainError), f.walkBoth i j = .error e → e.Direct
  | .unlinked _ _, j, e, h => by
    unfold ForkDatabase.walkBoth at h
    split at h
    · cases h
    · cases h
      trivial
  | .linked _ _ p, j, e, h => by
    unfold ForkDatabase.walkBoth at h
    split at h
    · cases h
    · split at h
      · split at h
        · cases h
          trivial
        · exact direct_of_bind direct_of_walkBoth (fun r e h => by cases h) h
      · cases h
        trivial

theorem direct_of_fetchBranchFrom {f : ForkDatabase Op} {first second : BlockId} {e : ChainError}
    (h : f.fetchBranchFrom P first second = .error e) : e.Direct := by
  unfold ForkDatabase.fetchBranchFrom at h
  split at h
  · refine direct_of_bind direct_of_walkDown (fun r e h => ?_) h
    refine direct_of_bind direct_of_walkDown (fun r' e h => ?_) h
    exact direct_of_bind direct_of_walkBoth (fun r'' e h => by cases h) h
  · cases h
    trivial

/-! ### The way to the recovery -/

theorem holding_error {items : List (ForkItem Op)} {x : DatabaseM Op R Unit}
    {s s' : Database Op R} {e : ChainError} (h : holding items x s = .error e s') :
    ∃ s₁, x { s with forkDb := { s.forkDb with held := items } } = .error e s₁ ∧
      s' = { s₁ with forkDb := { s₁.forkDb with held := [] } } := by
  rw [holding, update_bind] at h
  rcases bind_eq_error.mp h with hcatch | ⟨_, s₁, -, hrelease⟩
  · obtain ⟨e₁, s₁, hx, hthrow⟩ := tryCatch_eq_error.mp hcatch
    rw [update_bind] at hthrow
    cases hthrow
    exact ⟨s₁, hx, rfl⟩
  · cases hrelease

/-- A branch that could not be pushed ends with the recovery from its first block that failed. What
holds of blocks applied under their own id holds up to there. -/
theorem pushBranch_error {F : Database Op R → Database Op R → Prop} (hF : Frame F)
    (happly : ∀ b, Keeps F (applyInSession P (P.blockId b) b)) {newBlock : SignedBlock Op}
    {pt : BlockId} {old : List (ForkItem Op)} {e : ChainError} {s' : Database Op R} :
    ∀ {l : List (ForkItem Op)} {s : Database Op R},
      pushBranch P newBlock pt old l s = .error e s' →
      ∃ failed except s₁, F s s₁ ∧ recover P newBlock pt old failed except s₁ = .error e s'
  | [], s, h => by cases h
  | i :: l, s, h => by
    rcases bind_eq_error.mp h with h | ⟨_, s₁, hok, hrest⟩
    · obtain ⟨except, s₁, happlied, hrecover⟩ := tryCatch_eq_error.mp h
      exact ⟨i :: l, except, s₁, (happly i.data).of_error happlied, hrecover⟩
    · rcases tryCatch_eq_ok.mp hok with hok | ⟨except, s₂, happlied, hrecover⟩
      · obtain ⟨failed, except, s₂, hs₂, hrecover⟩ := pushBranch_error hF happly hrest
        exact ⟨failed, except, s₂, hF.trans ((happly i.data).of_ok hok) hs₂, hrecover⟩
      · obtain ⟨_, _, -, h₁⟩ := bind_eq_ok.mp hrecover
        obtain ⟨_, _, -, h₂⟩ := bind_eq_ok.mp h₁
        obtain ⟨_, _, -, h₃⟩ := bind_eq_ok.mp h₂
        obtain ⟨_, _, -, h₄⟩ := bind_eq_ok.mp h₃
        cases h₄

/-- A recovery that throws the exception of the block has popped the new branch and applied the old
one. -/
theorem recover_switchFailed {newBlock : SignedBlock Op} {pt : BlockId}
    {old failed : List (ForkItem Op)} {except e : ChainError} {s s' : Database Op R}
    (h : recover P newBlock pt old failed except s = .error (.switchFailed e) s') :
    ∃ s₁ s₂, final (failed.forM fun i => update fun s : Database Op R =>
        { s with forkDb := s.forkDb.remove P (i.id P) } : DatabaseM Op R Unit) s = s₁ ∧
      popBlocksTo P pt { s₁ with forkDb := { s₁.forkDb with head := old.head? } } = .ok () s₂ ∧
      old.reverse.forM (fun i => applyInSession P (P.blockId newBlock) i.data) s₂ =
        .ok () s' := by
  rw [recover] at h
  rcases bind_eq_error.mp h with h₁ | ⟨_, s₁, hremove, h⟩
  · exact absurd (raises_forM (fun _ => raises_update _) _ _ _ _ h₁ : ChainError.Direct _) id
  rw [update_bind] at h
  rcases bind_eq_error.mp h with h₁ | ⟨_, s₂, hpop, h⟩
  · exact absurd (raises_popBlocksTo pt _ _ _ h₁) id
  rcases bind_eq_error.mp h with h₁ | ⟨_, s₃, happly, h⟩
  · exact absurd (raises_forM (fun _ => raises_applyInSession _ _) _ _ _ _ h₁) id
  cases h
  exact ⟨s₁, s₂, final_of_ok hremove, hpop, happly⟩

/-! ### The old head in the block database -/

/-- What holds while the branches are switched: the old head `H` is stored only while it is on the
chain. -/
structure Switching (P : Protocol Op R) (g : Objects R) (H : BlockId) (s : Database Op R) :
    Prop where
  consistent : Consistent P g s
  linked : s.forkDb.Linked P
  stored : s.blockDb.contains H = true → H ∈ s.chain.map fun e => P.blockId e.1

section Switching

variable {H : BlockId}

theorem Switching.frame :
    Frame fun s s' : Database Op R => Switching P g H s → Switching P g H s' where
  refl _ h := h
  trans h₁ h₂ h := h₂ (h₁ h)

theorem Switching.keeps_applyInSession (b : SignedBlock Op) :
    Keeps (fun s s' : Database Op R => Switching P g H s → Switching P g H s')
      (applyInSession P (P.blockId b) b) := by
  intro s h
  refine ⟨Consistent.keeps_applyInSession _ b s h.consistent,
    keeps_linked_applyInSession _ b s h.linked, ?_⟩
  unfold final
  split
  · next hok =>
    have he := applyInSession_ok hok
    rw [he.blockDb, he.chain]
    intro hcontains
    rcases BlockDatabase.contains_store P _ (P.blockId_ne_zero b) b H hcontains with rfl | hold
    · exact List.mem_cons_self
    · exact List.mem_cons_of_mem _ (h.stored hold)
  · next herr =>
    have hu := applyInSession_error herr
    rw [hu.blockDb, hu.chain]
    exact h.stored

theorem Switching.keeps_popBlock (hg : Genesis g) :
    Keeps (fun s s' : Database Op R => Switching P g H s → Switching P g H s') (popBlock P) := by
  intro s h
  refine ⟨Consistent.keeps_popBlock s h.consistent, keeps_linked_popBlock s h.linked, ?_⟩
  unfold final
  split
  · next hok =>
    have hp := popBlock_ok hok
    obtain ⟨b, hchain⟩ := h.consistent.chain_of_popped hp
    intro hcontains
    obtain ⟨hne, hold⟩ := BlockDatabase.contains_remove hp.blockDb H hcontains
    rw [h.consistent.applied.headBlockId hg, hchain] at hne
    have hmem := h.stored hold
    rw [hchain, List.map_cons] at hmem
    exact (List.mem_cons.mp hmem).resolve_left hne
  · next herr =>
    have hn := popBlock_error herr
    rw [hn.chain]
    intro hcontains
    refine h.stored ?_
    rcases hn.blockDb with hsame | hremove
    · rw [← hsame]
      exact hcontains
    · exact (BlockDatabase.contains_remove hremove H hcontains).2

theorem popUntil_headBlockId {pt : BlockId} : ∀ {n : ℕ} {s s' : Database Op R} {u : Unit},
    popUntil P pt n s = .ok u s' → s'.objects.headBlockId = pt := by
  intro n
  induction n with
  | zero =>
    intro s s' u h
    rw [popUntil, get_bind] at h
    obtain ⟨heq, rfl⟩ := assert_eq_ok.mp h
    exact heq
  | succ n ih =>
    intro s s' u h
    rw [popUntil, get_bind] at h
    split at h
    · next heq =>
      cases h
      exact heq
    · obtain ⟨_, s₁, -, hrest⟩ := bind_eq_ok.mp h
      exact ih hrest

/-- Below the old head it is not stored. -/
theorem Switching.not_contains (hg : Genesis g) {s : Database Op R} (h : Switching P g H s)
    (hlt : s.objects.headBlockId.num < H.num) : s.blockDb.contains H = false := by
  by_contra hcontains
  obtain ⟨e, he, rfl⟩ := List.mem_map.mp (h.stored (Bool.of_not_eq_false hcontains))
  obtain ⟨newer, older, hchain⟩ := List.append_of_mem he
  obtain ⟨o', ho'⟩ := h.consistent.applied.of_suffix (c := e :: older) ⟨newer, hchain.symm⟩
  have hnum : (P.blockId e.1).num = (e :: older).length := (ho'.headBlockNumber hg).2
  have hlen := (h.consistent.applied.headBlockNumber hg).2
  rw [← h.consistent.applied.headBlockId hg, hchain, List.length_append] at hlen
  omega

end Switching

/-! ### What the recovery leaves behind -/

/-- The effect of blocks that are stored under the given id: no other id becomes known, and the head
of the fork database stays. -/
structure Restoring (H id : BlockId) (s s' : Database Op R) : Prop where
  forkHead : s'.forkDb.head = s.forkDb.head
  contains : s'.blockDb.contains H = true → H = id ∨ s.blockDb.contains H = true

theorem Restoring.frame (H id : BlockId) : Frame (@Restoring Op R H id) where
  refl _ := ⟨rfl, .inr⟩
  trans h₁ h₂ :=
    ⟨h₂.forkHead.trans h₁.forkHead, fun h => (h₂.contains h).elim .inl h₁.contains⟩

theorem keeps_restoring (H id : BlockId) (hid : id ≠ .zero) (b : SignedBlock Op) :
    Keeps (Restoring H id) (applyInSession P id b) := by
  intro s
  unfold final
  split
  · next hok =>
    have he := applyInSession_ok hok
    refine ⟨he.forkHead, ?_⟩
    rw [he.blockDb]
    exact BlockDatabase.contains_store P _ hid b H
  · next herr =>
    have hu := applyInSession_error herr
    refine ⟨hu.forkHead, ?_⟩
    rw [hu.blockDb]
    exact .inr

theorem keeps_restoring_forM (H id : BlockId) (hid : id ≠ .zero) (l : List (ForkItem Op)) :
    Keeps (Restoring H id) (l.forM fun i => applyInSession P id i.data : DatabaseM Op R Unit) := by
  refine (Restoring.frame H id).keeps_forM ?_ l
  intro i
  exact keeps_restoring H id hid i.data

/-- **After the recovery** the head of the fork database is not above the old head, and the old head
is stored only if it is the block that was pushed. -/
theorem recover_leaves (hg : Genesis g) {newBlock : SignedBlock Op} {pt : BlockId}
    {i : ForkItem Op} {older failed : List (ForkItem Op)} {except e : ChainError}
    {s s' : Database Op R} (hs : Switching P g (i.id P) s)
    (hall : ∀ j ∈ i :: older, j.WellLinked P) (hlt : pt.num < (i.id P).num)
    (h : recover P newBlock pt (i :: older) failed except s = .error (.switchFailed e) s') :
    (∃ j, s'.forkDb.head = some j ∧ j.num ≤ i.num) ∧
      (s'.blockDb.contains (i.id P) = true → i.id P = P.blockId newBlock) := by
  obtain ⟨s₁, s₂, hremove, hpop, happly⟩ := recover_switchFailed h
  have hs₁ : Switching P g (i.id P) s₁ := by
    rw [← hremove]
    refine Switching.frame.keeps_forM (fun j => keeps_update fun t ht => ?_) failed s hs
    exact ⟨ht.consistent.withForkDb _, linked_remove ht.linked _, ht.stored⟩
  have hset : Switching P g (i.id P)
      { s₁ with forkDb := { s₁.forkDb with head := (i :: older).head? } } :=
    ⟨hs₁.consistent.withForkDb _, linked_setHead hs₁.linked hall, hs₁.stored⟩
  have hs₂ : Switching P g (i.id P) s₂ :=
    (keeps_popBlocksTo Switching.frame (Switching.keeps_popBlock hg) pt).of_ok hpop hset
  obtain ⟨j, hj, hle, -⟩ := popBlocksTo_forkHead hpop hset.linked rfl
  have hrestoring : Restoring (i.id P) (P.blockId newBlock) s₂ s' :=
    (keeps_restoring_forM _ _ (P.blockId_ne_zero newBlock) _).of_ok happly
  refine ⟨⟨j, hrestoring.forkHead.trans hj, hle⟩, fun hcontains => ?_⟩
  refine (hrestoring.contains hcontains).resolve_right fun hcontains => ?_
  rw [popBlocksTo, get_bind] at hpop
  have hhead := popUntil_headBlockId hpop
  have hnot := hs₂.not_contains hg (by rw [hhead]; exact hlt)
  rw [hnot] at hcontains
  cases hcontains

/-- A fork switch that fails comes to the recovery, with the old head stored only while it is on
the chain. -/
theorem switchFork_switchFailed (hg : Genesis g) {s s' : Database Op R}
    (hs : Consistent P g s) (hf : s.forkDb.Linked P) {newBlock : SignedBlock Op}
    {newHead : ForkItem Op} (hhead : s.forkDb.head = some newHead) {e : ChainError}
    (h : switchFork P newBlock newHead s = .error (.switchFailed e) s') :
    ∃ newBranch i older pt failed except s₁ s₂,
      s.forkDb.fetchBranchFrom P (newHead.id P) s.objects.headBlockId =
        .ok (newBranch, i :: older) ∧ i.id P = s.objects.headBlockId ∧
      (∀ j ∈ i :: older, j.WellLinked P) ∧ pt.num < (i.id P).num ∧
      Switching P g (i.id P) s₁ ∧
      recover P newBlock pt (i :: older) failed except s₁ = .error (.switchFailed e) s₂ ∧
      s' = { s₂ with forkDb := { s₂.forkDb with held := [] } } := by
  rcases switchFork_cases P newBlock newHead s with
    ⟨e', hfetch, hrun⟩ | ⟨newBranch, oldBranch, hfetch, hrun⟩
  · rw [hrun] at h
    cases h
    exact (direct_of_fetchBranchFrom hfetch).elim
  rw [hrun] at h
  obtain ⟨-, hne, hall, last, -, hpath⟩ := ForkDatabase.fetchBranchFrom_path hf hfetch
  have hpoint : forkPoint oldBranch = last := by
    rw [forkPoint, hpath.getLast? hne]
    rfl
  have hnum := hpath.num_eq
  obtain ⟨i, older, rfl⟩ := List.exists_cons_of_ne_nil hne
  obtain ⟨s₂, hx, hs'⟩ := holding_error h
  have hheld : Switching P g (i.id P)
      { s with forkDb := { s.forkDb with held := newHead :: newBranch ++ i :: older } } := by
    refine ⟨hs.withForkDb _, linked_held hf fun j hj => ?_, fun hcontains => ?_⟩
    · rcases List.mem_cons.mp hj with rfl | hj
      · exact hf j (by simp [hhead])
      · exact hall j hj
    · -- the old head is on the chain, unless there is no block at all
      have hheadId := hpath.1.trans (hs.applied.headBlockId hg)
      change i.id P ∈ s.chain.map fun e => P.blockId e.1
      cases hchain : s.chain with
      | nil =>
        rw [hchain] at hheadId
        exact absurd hheadId (P.blockId_ne_zero _)
      | cons e c =>
        rw [hchain] at hheadId
        rw [hheadId]
        exact List.mem_cons_self
  rcases bind_eq_error.mp hx with hx | ⟨_, s₁, hpop, hx⟩
  · exact (raises_popBlocksTo _ _ _ _ hx).elim
  have hs₁ := (keeps_popBlocksTo Switching.frame (Switching.keeps_popBlock hg) _).of_ok hpop hheld
  obtain ⟨failed, except, s₃, hs₃, hrecover⟩ :=
    pushBranch_error Switching.frame Switching.keeps_applyInSession hx
  refine ⟨newBranch, i, older, _, failed, except, s₃, s₂, hfetch, hpath.1,
    fun j hj => hall j (List.mem_append_right _ hj), ?_, hs₃ hs₁, hrecover, hs'⟩
  rw [hpoint, hpath.1, hnum, List.length_cons]
  omega

/-- **A failed switch does not restore the database.** -/
theorem not_restored (hg : Genesis g) {s s' : Database Op R} (hs : Consistent P g s)
    (hf : s.forkDb.Linked P) {b : SignedBlock Op} {e : ChainError}
    (h : pushBlock P b s = .error (.switchFailed e) s') : ¬ Restored P b s s' := by
  intro hrestored
  rcases pushBlock_cases P b s with ⟨e', hrefused, hrun⟩ | ⟨f, newHead, hpush, hhead, hcases⟩
  · rw [hrun] at h
    cases h
    exact direct_of_bind (fun e he => direct_of_link he) (fun i e he => by cases he) hrefused
  rcases hcases with ⟨-, hrun⟩ | ⟨-, -, hrun⟩ | ⟨hprev, hnum, hrun⟩
  · rw [hrun] at h
    rcases bind_eq_error.mp h with hextend | ⟨_, _, -, hpure⟩
    · refine raises_tryCatch (raises_applyInSession (P.blockId b) b) (fun e he => ?_) _ _ _ hextend
      exact raises_bind (raises_update _) fun _ => raises_throw he
    · cases hpure
  · rw [hrun] at h
    cases h
  rw [hrun] at h
  rcases bind_eq_error.mp h with hswitch | ⟨_, _, -, hpure⟩
  · obtain ⟨newBranch, i, older, pt, failed, except, s₁, s₂, hfetch, hid, hall, hlt, hs₁, hrecover,
      rfl⟩ := switchFork_switchFailed hg (hs.withForkDb f) (hf.pushBlock hpush) hhead hswitch
    obtain ⟨⟨j, hj, hle⟩, hstored⟩ := recover_leaves hg hs₁ hall hlt hrecover
    have hbranches := switchBranches_eq hpush hhead hprev hnum hfetch
    have hcontains := (hrestored.stored _ _ hbranches i List.mem_cons_self).1
    have heq : s.objects.headBlockId = P.blockId b := hid.symm.trans (hstored hcontains)
    -- the block pushed is the old head itself, so the head of the fork database was higher
    have hheadNum : s.objects.headBlockId.num = s.objects.headBlockNumber := by
      rw [hs.applied.headBlockId hg, (hs.applied.headBlockNumber hg).1,
        (hs.applied.headBlockNumber hg).2]
    have hsame : s.forkDb.head = some newHead := by
      obtain ⟨item, hlink, rfl⟩ := ForkDatabase.pushBlock_eq_ok hpush
      have hitem : item.num = s.objects.headBlockNumber := by
        rw [← hheadNum, heq, ForkItem.num, ForkDatabase.link_data hlink]
        rfl
      rw [ForkDatabase.add_head] at hhead
      cases hold : s.forkDb.head with
      | none =>
        rw [hold] at hhead
        cases hhead
        omega
      | some head =>
        rw [hold] at hhead
        by_cases hlt : head.num < item.num
        · simp only [if_pos hlt] at hhead
          cases hhead
          omega
        · simp only [if_neg hlt] at hhead
          exact hhead
    have hforkHead := hrestored.forkHead
    rw [hsame] at hforkHead
    change s₂.forkDb.head.map (ForkItem.id P) = _ at hforkHead
    rw [hj] at hforkHead
    have hjnum : j.num = newHead.num := congrArg BlockId.num (Option.some.inj hforkHead)
    have hinum : i.num = s.objects.headBlockId.num := congrArg BlockId.num hid
    omega
  · cases hpure

/-- **No failed switch restores the database**, in whatever state the calls before it have left
it. -/
theorem not_restores (hg : Genesis g) (bs : List (SignedBlock Op)) (b : SignedBlock Op) :
    ¬ Restores P b (pushAll P (genesis g) bs) := by
  rintro ⟨e, s', hpush, hrestored⟩
  obtain ⟨hs, hf⟩ := consistent_pushAll bs (Consistent.genesis P g) (linked_genesis g)
  exact not_restored hg hs hf hpush hrestored

section Example

private def start : Database ℕ Unit := genesis (Protocol.permissiveGenesis [0])

private def common : SignedBlock ℕ := .empty .zero 1 1
private def oldHead : SignedBlock ℕ := .empty (Protocol.permissive.blockId common) 2 1

/-- A competing branch whose second block has a wrong merkle root. -/
private def sibling : SignedBlock ℕ := .empty (Protocol.permissive.blockId common) 3 2
private def invalid : SignedBlock ℕ :=
  { SignedBlock.empty (Protocol.permissive.blockId sibling) 4 2 with transactionMerkleRoot := 1 }

theorem not_restores_of_invalid_block :
    (∃ s', pushBlock .permissive invalid (pushAll .permissive start [common, oldHead, sibling]) =
        .error (.switchFailed .assertion) s') ∧
      ¬ Restores .permissive invalid (pushAll .permissive start [common, oldHead, sibling]) :=
  ⟨⟨_, error_final_of_thrown (by decide +kernel)⟩,
    not_restores ⟨rfl, rfl, rfl⟩ [common, oldHead, sibling] invalid⟩

/-- After the switch to the branch with the invalid block failed, the block database does not
contain the head block. -/
theorem not_restored_head_block :
    ¬ ∀ (bs : List (SignedBlock ℕ)) (b : SignedBlock ℕ) (e : ChainError)
      (s' : Database ℕ Unit),
      pushBlock .permissive b (pushAll .permissive start bs) = .error (.switchFailed e) s' →
      Restored .permissive b (pushAll .permissive start bs) s' := by
  intro hall
  have hrestored := hall [common, oldHead, sibling] invalid .assertion _
    (error_final_of_thrown (by decide +kernel))
  have hids : (switchBranches .permissive (pushAll .permissive start [common, oldHead, sibling])
      invalid).map (fun branches => branches.2.map (ForkItem.id .permissive)) =
      some [Protocol.permissive.blockId oldHead] := by decide +kernel
  obtain ⟨⟨newBranch, oldBranch⟩, hbranches, hold⟩ := Option.map_eq_some_iff.mp hids
  obtain ⟨i, hi, hid⟩ := List.mem_map.mp (hold ▸ List.mem_cons_self)
  have hcontains := (hrestored.stored newBranch oldBranch hbranches i hi).1
  rw [hid] at hcontains
  exact absurd hcontains (by decide +kernel)

end Example

end FinChain.Chain
