import FinChain.Chain.Consistent
import FinChain.Chain.Sessions

/-!
# Popping a block, or not

`pop_block` changes four things one after the other: the session of the pending transactions is
undone, the head of the fork database goes to its predecessor, the block is removed from the block
database, and the newest copy of the undo database is brought back. Each step fails on a condition
of its own, and no step takes the ones before it back.

So the call is all or nothing (`PopsAtomically`) in two kinds of states. In the first, nothing has
been touched when it throws (`RefusedAtOnce`): there are no pending transactions to undo, and the head
block is not known or the fork database has no predecessor of its head. In the second every step is
possible and leads to the predecessor (`CanGoBack`). In all others it throws half way, or one of the
stores was not at the head block and does not come to its predecessor.
-/

namespace FinChain.Chain

open Exec

variable {Op R : Type} {P : Protocol Op R}

namespace Database

/-- All ways a block may be popped or not. -/
theorem popBlock_eq (P : Protocol Op R) (s : Database Op R) :
    popBlock P s =
      if (s.fetchBlockById P s.objects.headBlockId).isSome = true then
        match s.forkDb.popBlock with
        | .error e => .error e s
        | .ok f =>
          match s.blockDb.remove s.objects.headBlockId with
          | .error e => .error e { s with forkDb := f }
          | .ok d =>
            match s.undo.popCommit with
            | none => .error .undo { s with forkDb := f, blockDb := d }
            | some u => .ok () { s with undo := u, forkDb := f, blockDb := d, chain := s.chain.tail }
      else .error .popEmptyChain s := by
  unfold popBlock assert
  rw [get_bind]
  by_cases hfetch : (s.fetchBlockById P s.objects.headBlockId).isSome = true
  · simp only [if_pos hfetch]
    rw [pure_bind_apply]
    cases hfork : s.forkDb.popBlock with
    | error e => rfl
    | ok f =>
      show (lift (s.blockDb.remove s.objects.headBlockId) >>= _) { s with forkDb := f } = _
      cases hremove : s.blockDb.remove s.objects.headBlockId with
      | error e => rfl
      | ok d =>
        show (undoOp SnapshotStack.popCommit >>= _) { s with forkDb := f, blockDb := d } = _
        rw [bind_apply, undoOp_apply]
        cases hundo : s.undo.popCommit with
        | none => rfl
        | some u => rfl
  · simp only [if_neg hfetch]
    rfl

/-- Nothing of what a block changes is different. -/
structure Untouched (s s' : Database Op R) : Prop where
  objects : s'.objects = s.objects
  undo : s'.undo = s.undo
  forkHead : s'.forkDb.head = s.forkDb.head
  blockDb : s'.blockDb = s.blockDb

/-- Everything has moved from the head block `b` to its predecessor. -/
structure AtParent (P : Protocol Op R) (b : SignedBlock Op) (s s' : Database Op R) : Prop where
  headBlock : s'.objects.headBlockId = b.previous
  /-- The objects are the newest copy, which is gone from the undo database. -/
  undo : s.undo.saved = s'.objects :: s'.undo.saved
  forkHead : ∃ i, s'.forkDb.head = some i ∧ i.id P = b.previous
  /-- The block is not in the block database any more, and all others are as before. -/
  removed : s'.blockDb.fetchOptional P s.objects.headBlockId = none
  kept : ∀ id ≠ s.objects.headBlockId, s'.blockDb.fetchOptional P id = s.blockDb.fetchOptional P id

/-- The head block is known, and the fork database, the block database and the undo database can all go
back to its predecessor. -/
def CanGoBack (P : Protocol Op R) (s : Database Op R) : Prop :=
  ∃ b, s.fetchBlockById P s.objects.headBlockId = some b ∧
    (∃ i, s.forkDb.head.bind s.forkDb.lock = some i ∧ i.id P = b.previous) ∧
    s.objects.headBlockId.num < s.blockDb.size ∧
    s.undo.active = 0 ∧ ∃ o copies, s.undo.saved = o :: copies ∧ o.headBlockId = b.previous

/-! ### What the steps need and do -/

theorem forkPop_eq_ok {f f' : ForkDatabase Op} :
    f.popBlock = .ok f' ↔ ∃ i, f.head.bind f.lock = some i ∧ f' = { f with head := some i } := by
  rw [ForkDatabase.popBlock]
  cases h : f.head.bind f.lock with
  | none => simp
  | some i => simp [eq_comm]

theorem forkHead_ne {f : ForkDatabase Op} {i : ForkItem Op} (h : f.head.bind f.lock = some i) : some i ≠ f.head := by
  obtain ⟨head, hhead, hlock⟩ := Option.bind_eq_some_iff.mp h
  rw [hhead]
  intro heq
  obtain rfl := Option.some.inj heq
  cases i with
  | unlinked hd b => exact absurd hlock (by simp [ForkDatabase.lock])
  | linked hd b p =>
    simp only [ForkDatabase.lock, Option.ite_none_right_eq_some, Option.some.injEq] at hlock
    have hsize := congrArg sizeOf hlock.2
    simp at hsize

theorem remove_eq_ok_iff {d : BlockDatabase Op} {id : BlockId} : (∃ d', d.remove id = .ok d') ↔ id.num < d.size := by
  unfold BlockDatabase.remove
  by_cases hsize : d.size ≤ id.num
  · simp [hsize]
  · rw [if_neg hsize]
    refine iff_of_true ?_ (not_le.mp hsize)
    split
    · exact ⟨_, rfl⟩
    · exact ⟨_, rfl⟩

/-- A block that is removed is not found any more, and all others are. -/
theorem fetchOptional_remove {d d' : BlockDatabase Op} {id : BlockId} (h : d.remove id = .ok d') :
    d'.fetchOptional P id = none ∧ ∀ id' ≠ id, d'.fetchOptional P id' = d.fetchOptional P id' := by
  obtain ⟨hsize, hentries⟩ := BlockDatabase.remove_ok h
  unfold BlockDatabase.fetchOptional
  refine ⟨?_, fun id' hne => ?_⟩
  · rw [(hentries id.num).1, (hentries id.num).2, hsize]
    by_cases hid : (d.entries id.num).blockId = id
    · simp [hid]
    · simp [hid]
  · rw [(hentries id'.num).1, (hentries id'.num).2, hsize]
    by_cases hid : (d.entries id'.num).blockId = id'
    · -- the entry is that of the other block, so it is not emptied
      have hother : ¬ (id'.num = id.num ∧ (d.entries id'.num).blockId = id) := fun hand =>
        hne (hid.symm.trans hand.2)
      rw [if_neg hother]
    · simp [hid]

theorem popCommit_eq_some_iff {a a' : SnapshotStack (Objects R)} : a.popCommit = some a' ↔
    a.active = 0 ∧ ∃ o copies, a.saved = o :: copies ∧ a' = { a with current := o, saved := copies } := by
  unfold SnapshotStack.popCommit
  cases a.saved with
  | nil => simp
  | cons o copies => simp [eq_comm]

/-! ### The whole call -/

theorem popBlock_of_canGoBack {s : Database Op R} (h : CanGoBack P s) :
    ∃ b s', s.fetchBlockById P s.objects.headBlockId = some b ∧ popBlock P s = .ok () s' ∧ AtParent P b s s' := by
  obtain ⟨b, hfetch, ⟨i, hlock, hi⟩, hnum, hactive, o, copies, hsaved, ho⟩ := h
  obtain ⟨d, hremove⟩ := remove_eq_ok_iff.mpr hnum
  have hfork : s.forkDb.popBlock = .ok { s.forkDb with head := some i } := forkPop_eq_ok.mpr ⟨i, hlock, rfl⟩
  have hundo : s.undo.popCommit = some { s.undo with current := o, saved := copies } :=
    popCommit_eq_some_iff.mpr ⟨hactive, o, copies, hsaved, rfl⟩
  obtain ⟨hremoved, hkept⟩ := fetchOptional_remove (P := P) hremove
  refine ⟨b, { s with
    undo := { s.undo with current := o, saved := copies }
    forkDb := { s.forkDb with head := some i }
    blockDb := d
    chain := s.chain.tail }, hfetch, ?_, ho, hsaved, ⟨i, rfl, hi⟩, hremoved, hkept⟩
  rw [popBlock_eq, hfetch, hfork, hremove, hundo]
  rfl

/-- When it returns it could go back, if all has moved to the predecessor. -/
theorem canGoBack_of_popBlock {s s' : Database Op R} {b : SignedBlock Op} {u : Unit}
    (hfetch : s.fetchBlockById P s.objects.headBlockId = some b) (h : popBlock P s = .ok u s')
    (hparent : AtParent P b s s') : CanGoBack P s := by
  have hpopped := popBlock_ok h
  obtain ⟨i, hlock, hfork⟩ := forkPop_eq_ok.mp hpopped.forkDb
  obtain ⟨i', hi', hid⟩ := hparent.forkHead
  rw [hfork] at hi'
  obtain rfl := Option.some.inj hi'
  exact ⟨b, hfetch, ⟨i, hlock, hid⟩, remove_eq_ok_iff.mp ⟨_, hpopped.blockDb⟩, hpopped.active.1, _, _,
    hparent.undo, hparent.headBlock⟩

/-- It throws before it has changed anything if and only if it does so at one of the first two steps. -/
theorem untouched_iff {s s' : Database Op R} {e : ChainError} (h : popBlock P s = .error e s') :
    Untouched s s' ↔
      s.fetchBlockById P s.objects.headBlockId = none ∨ s.forkDb.head.bind s.forkDb.lock = none := by
  rw [popBlock_eq] at h
  by_cases hfetch : (s.fetchBlockById P s.objects.headBlockId).isSome = true
  · rw [if_pos hfetch] at h
    have hknown : s.fetchBlockById P s.objects.headBlockId ≠ none := Option.isSome_iff_ne_none.mp hfetch
    cases hfork : s.forkDb.popBlock with
    | error e' =>
      rw [hfork] at h
      obtain ⟨-, rfl⟩ := EStateM.Result.error.inj h
      refine iff_of_true ⟨rfl, rfl, rfl, rfl⟩ (.inr ?_)
      cases hlock : s.forkDb.head.bind s.forkDb.lock with
      | none => rfl
      | some i => exact absurd (hfork.symm.trans (forkPop_eq_ok.mpr ⟨i, hlock, rfl⟩)) (by simp)
    | ok f =>
      obtain ⟨i, hlock, rfl⟩ := forkPop_eq_ok.mp hfork
      -- the head of the fork database has moved, and nothing moves it back
      have hmoved : s'.forkDb.head = some i := by
        rw [hfork] at h
        cases hremove : s.blockDb.remove s.objects.headBlockId with
        | error e' =>
          simp only [hremove] at h
          rw [← (EStateM.Result.error.inj h).2]
        | ok d =>
          cases hundo : s.undo.popCommit with
          | none =>
            simp only [hremove, hundo] at h
            rw [← (EStateM.Result.error.inj h).2]
          | some u =>
            simp only [hremove, hundo] at h
            exact absurd h (by simp)
      refine iff_of_false (fun hsame => forkHead_ne hlock (hmoved.symm.trans hsame.forkHead)) ?_
      rintro (hnone | hnone)
      · exact hknown hnone
      · exact absurd (hlock.symm.trans hnone) (by simp)
  · rw [if_neg hfetch] at h
    obtain ⟨-, rfl⟩ := EStateM.Result.error.inj h
    exact iff_of_true ⟨rfl, rfl, rfl, rfl⟩ (.inl (Option.not_isSome_iff_eq_none.mp hfetch))

theorem popBlock_ne_ok {s s' : Database Op R} {u : Unit}
    (h : s.fetchBlockById P s.objects.headBlockId = none ∨ s.forkDb.head.bind s.forkDb.lock = none) :
    popBlock P s ≠ .ok u s' := by
  intro hrun
  rcases h with hfetch | hlock
  · rw [popBlock_eq, hfetch] at hrun
    exact absurd hrun (by simp)
  · obtain ⟨i, hi, -⟩ := forkPop_eq_ok.mp (popBlock_ok hrun).forkDb
    exact absurd (hlock.symm.trans hi) (by simp)

end Database

namespace Node

/-- `pop_block`, with the session of the pending transactions. -/
def popBlockWithPending (P : Protocol Op R) : NodeM Op R Unit := do
  resetPending
  let s ← get
  let headBlock := s.db.fetchBlockById P s.db.objects.headBlockId
  onDb (Database.popBlock P)
  update fun s' => { s' with poppedTx := (headBlock.map SignedBlock.transactions).getD [] ++ s'.poppedTx }

/-- The database when the pending transactions are undone. There is none if the session of the pending
transactions is not open, which a session is as long as it is valid. -/
def withoutPending (s : Node Op R) : Option (Database Op R) :=
  if s.pendingSession then s.undo.undo.map fun u => { s.db with undo := u } else some s.db

/-- The call is all or nothing. -/
def PopsAtomically (P : Protocol Op R) (s : Node Op R) : Prop :=
  match popBlockWithPending P s with
  | .error _ s' => Database.Untouched s.db s'.db
  | .ok _ s' => ∃ d b, s.withoutPending = some d ∧
      d.fetchBlockById P d.objects.headBlockId = some b ∧ Database.AtParent P b d s'.db

/-- The call throws before it has changed anything. -/
def RefusedAtOnce (P : Protocol Op R) (s : Node Op R) : Prop :=
  s.withoutPending = none ∨ s.pendingSession = false ∧
    (s.db.fetchBlockById P s.db.objects.headBlockId = none ∨ s.db.forkDb.head.bind s.db.forkDb.lock = none)

theorem resetPending_eq (s : Node Op R) : resetPending s = match s.withoutPending with
    | none => .error .undo s
    | some d => .ok () { s with db := d, pendingSession := false } := by
  unfold resetPending withoutPending
  rw [get_bind]
  cases hpending : s.pendingSession with
  | false =>
    cases s
    subst hpending
    rfl
  | true =>
    simp only [if_true]
    show (onDb (Database.undoOp SnapshotStack.undo) >>= _) s = _
    have hundo : s.undo = s.db.undo := rfl
    rw [bind_apply, onDb, Database.undoOp_apply, hundo]
    cases s.db.undo.undo <;> rfl

/-- The call throws if the session cannot be undone, and otherwise it does what `pop_block` does to the database
without the pending transactions. -/
theorem popBlockWithPending_eq (P : Protocol Op R) (s : Node Op R) :
    popBlockWithPending P s = match s.withoutPending with
      | none => .error .undo s
      | some d => match Database.popBlock P d with
        | .error e d' => .error e { s with db := d', pendingSession := false }
        | .ok _ d' => .ok () { s with
            db := d'
            pendingSession := false
            poppedTx := ((d.fetchBlockById P d.objects.headBlockId).map SignedBlock.transactions).getD [] ++
              s.poppedTx } := by
  rw [popBlockWithPending, bind_apply, resetPending_eq]
  cases s.withoutPending with
  | none => rfl
  | some d =>
    show (onDb (Database.popBlock P) >>= _) { s with db := d, pendingSession := false } = _
    rw [bind_apply, onDb]
    cases hrun : Database.popBlock P d with
    | ok u d' =>
      simp only [hrun]
      rfl
    | error e d' => simp only [hrun]

/-- With a session of pending transactions there is a copy less when it is undone. -/
theorem withoutPending_undo_ne {s : Node Op R} {d : Database Op R} (hpending : s.pendingSession = true)
    (h : s.withoutPending = some d) : d.undo ≠ s.db.undo := by
  rw [withoutPending, hpending, if_pos rfl, Option.map_eq_some_iff] at h
  obtain ⟨u, hu, rfl⟩ := h
  intro hsame
  have hlength : u.saved.length + 1 = s.db.undo.saved.length := by
    have hundo : s.db.undo.undo = some u := hu
    unfold SnapshotStack.undo at hundo
    split at hundo
    · exact absurd hundo (by simp)
    · next hsaved =>
      rw [Option.ite_none_left_eq_some, Option.some.injEq] at hundo
      rw [hsaved, ← hundo.2, List.length_cons]
  have hsame' : u = s.db.undo := hsame
  rw [hsame'] at hlength
  omega

/-- **When popping a block is all or nothing.** -/
theorem popBlock_atomic_iff (P : Protocol Op R) (s : Node Op R) :
    PopsAtomically P s ↔ RefusedAtOnce P s ∨ ∃ d, s.withoutPending = some d ∧ d.CanGoBack P := by
  rw [PopsAtomically, popBlockWithPending_eq]
  cases hreset : s.withoutPending with
  | none => exact iff_of_true ⟨rfl, rfl, rfl, rfl⟩ (.inl (.inl hreset))
  | some d =>
    cases hrun : Database.popBlock P d with
    | ok u d' =>
      simp only [hrun]
      constructor
      · rintro ⟨d₁, b, heq, hfetch, hparent⟩
        obtain rfl := Option.some.inj heq
        exact .inr ⟨d, rfl, Database.canGoBack_of_popBlock hfetch hrun hparent⟩
      · rintro (hrefused | ⟨d₁, heq, hback⟩)
        · -- a call that is refused at once does not return
          rcases hrefused with hnone | ⟨hpending, hstep⟩
          · exact absurd (hreset.symm.trans hnone) (by simp)
          · rw [withoutPending, hpending] at hreset
            obtain rfl : s.db = d := Option.some.inj hreset
            exact absurd hrun (Database.popBlock_ne_ok hstep)
        · obtain rfl := Option.some.inj heq
          obtain ⟨b, d₂, hfetch, hrun', hparent⟩ := Database.popBlock_of_canGoBack hback
          obtain ⟨-, rfl⟩ := EStateM.Result.ok.inj (hrun.symm.trans hrun')
          exact ⟨d, b, rfl, hfetch, hparent⟩
    | error e d' =>
      simp only [hrun]
      have hnot : ¬ ∃ d₁, some d = some d₁ ∧ d₁.CanGoBack P := by
        rintro ⟨d₁, heq, hback⟩
        obtain rfl := Option.some.inj heq
        obtain ⟨b, d₂, -, hrun', -⟩ := Database.popBlock_of_canGoBack hback
        exact absurd (hrun.symm.trans hrun') (by simp)
      rw [or_iff_left hnot, RefusedAtOnce, hreset]
      cases hpending : s.pendingSession with
      | true =>
        -- the copy of the session is gone
        have hne := withoutPending_undo_ne hpending hreset
        refine iff_of_false (fun hsame => ?_) (by simp)
        rw [← (Database.popBlock_error hrun).undo] at hne
        exact hne hsame.undo
      | false =>
        rw [withoutPending, hpending] at hreset
        obtain rfl : s.db = d := Option.some.inj hreset
        rw [Database.untouched_iff hrun]
        simp

/-! ### Two blocks -/

private def lower : SignedBlock ℕ := .empty .zero 1 1
private def upper : SignedBlock ℕ := .empty (Protocol.permissive.blockId lower) 2 1

/-- A database with two blocks and no pending transactions. -/
private def twoBlocks : Node ℕ Unit where
  db := Database.pushAll .permissive (Database.genesis (Protocol.permissiveGenesis [0])) [lower, upper]

/-- The same with an undo session that is still open. -/
private def sessionOpen : Node ℕ Unit where
  db := { twoBlocks.db with undo := twoBlocks.db.undo.start }

private theorem twoBlocks_canGoBack : twoBlocks.db.CanGoBack .permissive := by
  have hlock : (twoBlocks.db.forkDb.head.bind twoBlocks.db.forkDb.lock).isSome = true := by decide
  have hfetch : twoBlocks.db.fetchBlockById .permissive twoBlocks.db.objects.headBlockId = some upper := by
    decide
  have hcopies : (twoBlocks.db.undo.saved.map Objects.headBlockId).head? = some upper.previous := by decide
  have hitem : ((twoBlocks.db.forkDb.head.bind twoBlocks.db.forkDb.lock).map (ForkItem.id .permissive)) =
      some upper.previous := by decide
  obtain ⟨i, hi, hid⟩ := Option.map_eq_some_iff.mp hitem
  refine ⟨upper, hfetch, ⟨i, hi, hid⟩, by decide, by decide, ?_⟩
  cases hsaved : twoBlocks.db.undo.saved with
  | nil =>
    rw [hsaved] at hcopies
    exact absurd hcopies (by simp)
  | cons o copies =>
    rw [hsaved] at hcopies
    exact ⟨o, copies, rfl, Option.some.inj hcopies⟩

/-- The second block is popped. -/
theorem popBlock_atomic_two : PopsAtomically .permissive twoBlocks :=
  (popBlock_atomic_iff .permissive twoBlocks).mpr (.inr ⟨twoBlocks.db, rfl, twoBlocks_canGoBack⟩)

/-- While an undo session is open, the call throws, and the fork database and the block database have gone back
to the first block. -/
theorem not_popBlock_atomic : ¬ PopsAtomically .permissive sessionOpen := by
  have hactive : sessionOpen.db.undo.active = 1 := by decide +kernel
  have hfetch : sessionOpen.db.fetchBlockById .permissive sessionOpen.db.objects.headBlockId ≠ none := by
    decide +kernel
  have hlock : (sessionOpen.db.forkDb.head.bind sessionOpen.db.forkDb.lock).isSome = true := by decide +kernel
  intro hatomic
  have hreset : sessionOpen.withoutPending = some sessionOpen.db := rfl
  rw [PopsAtomically, popBlockWithPending_eq, hreset] at hatomic
  cases hrun : Database.popBlock .permissive sessionOpen.db with
  | ok u d =>
    have hzero := (Database.popBlock_ok hrun).active.1
    rw [hactive] at hzero
    exact absurd hzero (by decide)
  | error e d =>
    simp only [hrun] at hatomic
    rcases (Database.untouched_iff hrun).mp hatomic with hnone | hnone
    · exact hfetch hnone
    · rw [hnone] at hlock
      exact absurd hlock (by decide)

end Node

end FinChain.Chain
