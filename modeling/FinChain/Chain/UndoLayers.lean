import FinChain.Lib.History
import FinChain.Chain.Sessions
import FinChain.Chain.ApplySpec

/-!
# Copies and sessions

Where the copies of the undo database lie while sessions are open: those of the open sessions on
top of those of the blocks (`Layered`). A function that works inside a session leaves them as they
are (`Body`), except that the oldest copies may be dropped whenever a session is started. There
must remain a copy for every block above the irreversible one, so that these blocks can be popped.
The bound is the number of those blocks plus one, taken before the irreversible block moves, and
every open session counts against it: with one session open there is just enough room, with two or
more the oldest copy that is needed may be dropped. A second way to run short is to pop a block
that had moved the irreversible block, since the irreversible block then moves back and more copies
are needed. `Fine` says of the sessions started and the blocks popped that neither happens.

The main result is `leads_applyInSession`: a block that is applied in a session of its own leaves
enough copies behind.
-/

namespace FinChain.Chain

open Exec

variable {Op R : Type} {P : Protocol Op R} {Q : Proposals Op R}

/-- A session is started with at most one session open or within the bound; a block is popped that
has not moved the irreversible block. -/
def UndoEvent.Fine : UndoEvent → Prop
  | .start active maxSize reversible => active ≤ 1 ∨ active + reversible ≤ maxSize
  | .pop lib lib' => lib' = lib

instance : DecidablePred UndoEvent.Fine
  | .start active maxSize reversible =>
    inferInstanceAs (Decidable (active ≤ 1 ∨ active + reversible ≤ maxSize))
  | .pop lib lib' => inferInstanceAs (Decidable (lib' = lib))

namespace Node

/-- All that has happened so far was fine. -/
def Fine (s : Node Op R) : Prop := ∀ e ∈ s.events, e.Fine

/-! ### Inside sessions -/

/-- The copies of the sessions that are open (`inner`) lie on top of those of the blocks (`kept`).
The objects of the last block are `base`; there is a copy for each of its reversible blocks, and
the bound `m` leaves room for one more. -/
structure Layered (m : ℕ) (base : Objects R) (inner kept : List (Objects R)) (s : Node Op R) :
    Prop where
  saved : s.undo.saved = inner ++ kept
  active : s.undo.active = inner.length
  outermost : (s.undo.current :: inner).getLast? = some base
  maxSize : s.undo.maxSize = m
  room : base.reversible + 1 ≤ m
  enough : base.reversible ≤ kept.length

theorem Layered.committed {m : ℕ} {base : Objects R} {inner kept : List (Objects R)} {s : Node Op R}
    (h : Layered m base inner kept s) : s.committed = base := by
  have hlast := h.outermost
  rw [List.getLast?_eq_getElem?, List.length_cons, Nat.add_sub_cancel] at hlast
  rw [Node.committed, h.saved, h.active, List.getD_eq_getElem?_getD, ← List.cons_append,
    List.getElem?_append_left (by simp), hlast]
  rfl

/-- The relations between objects that single steps keep up. -/
structure Order (H : Objects R → Objects R → Prop) : Prop where
  refl : ∀ o, H o o
  trans : ∀ {o₁ o₂ o₃}, H o₁ o₂ → H o₂ o₃ → H o₁ o₃

/-- Steps that leave the pending session and the chain alone; events are only added. -/
structure Grown (s s' : Node Op R) : Prop where
  events : s.events <:+ s'.events
  pendingSession : s'.pendingSession = s.pendingSession
  chain : s'.db.chain = s.db.chain

theorem Grown.frame : Frame (@Grown Op R) where
  refl _ := ⟨List.suffix_refl _, rfl, rfl⟩
  trans h₁ h₂ :=
    ⟨h₁.events.trans h₂.events, h₂.pendingSession.trans h₁.pendingSession,
      h₂.chain.trans h₁.chain⟩

theorem Fine.of_suffix {s s' : Node Op R} (hf : s'.Fine) (h : s.events <:+ s'.events) : s.Fine :=
  fun e he => hf e (h.mem he)

/-- Steps inside a session: whatever sessions they open they close again, and the copies that are
needed stay. -/
structure Body (H : Objects R → Objects R → Prop) (s s' : Node Op R) : Prop where
  grown : Grown s s'
  layered : s'.Fine → ∀ m base inner kept, inner ≠ [] → Layered m base inner kept s →
    H s.db.objects s'.db.objects ∧ ∃ kept', kept' <+: kept ∧ Layered m base inner kept' s'

theorem Body.frame {H : Objects R → Objects R → Prop} (hH : Order H) :
    Frame (@Body Op R H) where
  refl _ := ⟨Grown.frame.refl _, fun _ _ _ _ kept _ h => ⟨hH.refl _, kept, List.prefix_refl _, h⟩⟩
  trans h₁ h₂ := by
    refine ⟨Grown.frame.trans h₁.grown h₂.grown, fun hf m base inner kept hne h => ?_⟩
    obtain ⟨hr₁, kept₁, hk₁, hl₁⟩ :=
      h₁.layered (hf.of_suffix h₂.grown.events) m base inner kept hne h
    obtain ⟨hr₂, kept₂, hk₂, hl₂⟩ := h₂.layered hf m base inner kept₁ hne hl₁
    exact ⟨hH.trans hr₁ hr₂, kept₂, hk₂.trans hk₁, hl₂⟩

theorem Body.mono {H H' : Objects R → Objects R → Prop} (hH : ∀ o o', H o o' → H' o o')
    {s s' : Node Op R} (h : Body H s s') : Body H' s s' := by
  refine ⟨h.grown, fun hf m base inner kept hne hl => ?_⟩
  obtain ⟨hr, hk⟩ := h.layered hf m base inner kept hne hl
  exact ⟨hH _ _ hr, hk⟩

/-- A step on the objects leaves the copies alone. -/
structure OnObjects (H : Objects R → Objects R → Prop) (d d' : Database Op R) : Prop where
  saved : d'.undo.saved = d.undo.saved
  active : d'.undo.active = d.undo.active
  maxSize : d'.undo.maxSize = d.undo.maxSize
  chain : d'.chain = d.chain
  objects : H d.objects d'.objects

theorem OnObjects.frame {H : Objects R → Objects R → Prop} (hH : Order H) :
    Frame (@OnObjects Op R H) where
  refl _ := ⟨rfl, rfl, rfl, rfl, hH.refl _⟩
  trans h₁ h₂ :=
    ⟨h₂.saved.trans h₁.saved, h₂.active.trans h₁.active, h₂.maxSize.trans h₁.maxSize,
      h₂.chain.trans h₁.chain, hH.trans h₁.objects h₂.objects⟩

theorem final_onDb {α : Type} (x : DatabaseM Op R α) (s : Node Op R) :
    final (onDb x) s = { s with db := final x s.db } := by
  unfold final onDb
  cases x s.db with
  | ok a d => rfl
  | error e d => rfl

theorem keeps_body_onDb {α : Type} {H : Objects R → Objects R → Prop} {x : DatabaseM Op R α}
    (hx : Keeps (OnObjects H) x) : Keeps (Body H) (onDb x) := by
  intro s
  rw [final_onDb]
  have h := hx s.db
  refine ⟨⟨List.suffix_refl _, rfl, h.chain⟩, fun _ m base inner kept hne hl => ?_⟩
  refine ⟨h.objects, kept, List.prefix_refl _, h.saved.trans hl.saved, h.active.trans hl.active,
    ?_, h.maxSize.trans hl.maxSize, hl.room, hl.enough⟩
  obtain ⟨i, is, rfl⟩ := List.exists_cons_of_ne_nil hne
  have hbase := hl.outermost
  rw [List.getLast?_cons_cons] at hbase ⊢
  exact hbase

/-! ### Sessions -/

theorem onDb_undoOp (op : SnapshotStack (Objects R) → Option (SnapshotStack (Objects R)))
    (s : Node Op R) : onDb (Database.undoOp op) s = match op s.undo with
      | none => .error .undo s
      | some u => .ok () { s with db := { s.db with undo := u } } := by
  unfold onDb Database.undoOp
  rw [get_bind]
  cases h : op s.db.undo with
  | none => simp only [Node.undo, h]; rfl
  | some u => simp only [Node.undo, h]; rfl

/-- A session that is started with enough room saves the current objects on top. -/
theorem Layered.start {m : ℕ} {base : Objects R} {inner kept : List (Objects R)} {s : Node Op R}
    (h : Layered m base inner kept s)
    (hfine : (UndoEvent.start s.undo.active s.undo.maxSize s.committed.reversible).Fine)
    {u : Unit} {s' : Node Op R} (hs' : startUndoSession s = .ok u s') :
    ∃ kept', kept' <+: kept ∧ Layered m base (s.undo.current :: inner) kept' s' := by
  obtain rfl := update_eq_ok.mp hs'
  have hroom := h.room
  rw [UndoEvent.Fine, h.committed, h.active, h.maxSize] at hfine
  have hle : inner.length + base.reversible ≤ m := by omega
  refine ⟨kept.take (m - inner.length), List.take_prefix _ _, ?_, ?_, ?_, h.maxSize, hroom, ?_⟩
  · change s.undo.current :: s.undo.saved.take s.undo.maxSize = _
    rw [h.saved, h.maxSize, List.take_append, List.take_of_length_le (by omega)]
    rfl
  · change s.undo.active + 1 = _
    rw [h.active, List.length_cons]
  · rw [List.getLast?_cons_cons]
    exact h.outermost
  · rw [List.length_take]
    have := h.enough
    omega

theorem Layered.merge {m : ℕ} {base o : Objects R} {inner kept : List (Objects R)} {s : Node Op R}
    (hne : inner ≠ []) (h : Layered m base (o :: inner) kept s) :
    ∃ s', onDb (Database.undoOp SnapshotStack.merge) s = .ok () s' ∧
      s'.db.objects = s.db.objects ∧ s'.events = s.events ∧ Layered m base inner kept s' := by
  obtain ⟨i, is, rfl⟩ := List.exists_cons_of_ne_nil hne
  have hmerge : s.undo.merge =
      some { s.undo with saved := i :: is ++ kept, active := (i :: is).length } := by
    have hsaved := h.saved
    simp only [List.cons_append] at hsaved
    simp only [SnapshotStack.merge, hsaved, h.active, List.length_cons]
    rfl
  rw [onDb_undoOp, hmerge]
  refine ⟨_, rfl, rfl, rfl, rfl, rfl, ?_, h.maxSize, h.room, h.enough⟩
  have hbase := h.outermost
  rw [List.getLast?_cons_cons, List.getLast?_cons_cons] at hbase
  rw [List.getLast?_cons_cons]
  exact hbase

theorem Layered.undo {m : ℕ} {base o : Objects R} {inner kept : List (Objects R)} {s : Node Op R}
    (h : Layered m base (o :: inner) kept s) :
    ∃ s', onDb (Database.undoOp SnapshotStack.undo) s = .ok () s' ∧
      s'.db.objects = o ∧ s'.events = s.events ∧ Layered m base inner kept s' := by
  have hundo : s.undo.undo =
      some { s.undo with current := o, saved := inner ++ kept, active := inner.length } :=
    SnapshotStack.undo_of_saved h.saved (by rw [h.active, List.length_cons])
  rw [onDb_undoOp, hundo]
  refine ⟨_, rfl, rfl, rfl, rfl, rfl, ?_, h.maxSize, h.room, h.enough⟩
  have hbase := h.outermost
  rw [List.getLast?_cons_cons] at hbase
  exact hbase

theorem keeps_grown_undoOp
    (op : SnapshotStack (Objects R) → Option (SnapshotStack (Objects R))) :
    Keeps (@Grown Op R) (onDb (Database.undoOp op)) := by
  intro s
  unfold final
  rw [onDb_undoOp]
  cases op s.undo with
  | none => exact Grown.frame.refl s
  | some u => exact ⟨List.suffix_refl _, rfl, rfl⟩

theorem keeps_grown_startUndoSession : Keeps (@Grown Op R) startUndoSession :=
  keeps_update fun _ => ⟨List.suffix_cons _ _, rfl, rfl⟩

theorem keeps_grown_merging {x : NodeM Op R Unit} (hx : Keeps Grown x) :
    Keeps Grown (merging x) :=
  Grown.frame.keeps_bind keeps_grown_startUndoSession fun _ =>
    Grown.frame.keeps_tryCatch (Grown.frame.keeps_bind hx fun _ => keeps_grown_undoOp _) fun e =>
      Grown.frame.keeps_bind (keeps_grown_undoOp _) fun _ => Grown.frame.keeps_throw e

theorem fine_startUndoSession {s : Node Op R} (h : (final startUndoSession s).Fine) :
    (UndoEvent.start s.undo.active s.undo.maxSize s.committed.reversible).Fine :=
  h _ List.mem_cons_self

/-- **A session that is merged or undone at its end** is a step inside the session around it. -/
theorem keeps_body_merging {H : Objects R → Objects R → Prop} (hH : Order H) {x : NodeM Op R Unit}
    (hx : Keeps (Body H) x) : Keeps (Body H) (merging x) := by
  intro s
  have hgrown := keeps_grown_merging (fun s => (hx s).grown) s
  refine ⟨hgrown, fun hf m base inner kept hne hl => ?_⟩
  obtain ⟨s₁, hstart⟩ : ∃ s₁, startUndoSession s = .ok () s₁ := ⟨_, rfl⟩
  have hbody := hx s₁
  -- the session, and what `x` does in it
  have hlayered : (final x s₁).Fine → H s.db.objects (final x s₁).db.objects ∧
      ∃ kept', kept' <+: kept ∧ Layered m base (s.undo.current :: inner) kept' (final x s₁) := by
    intro hf₂
    have hfine₁ := hf₂.of_suffix hbody.grown.events
    rw [← final_of_ok hstart] at hfine₁
    obtain ⟨kept₁, hk₁, hl₁⟩ := hl.start (fine_startUndoSession hfine₁) hstart
    obtain ⟨hr, kept₂, hk₂, hl₂⟩ := hbody.layered hf₂ m base _ kept₁ (List.cons_ne_nil _ _) hl₁
    obtain rfl := update_eq_ok.mp hstart
    exact ⟨hr, kept₂, hk₂.trans hk₁, hl₂⟩
  have hrun : merging x s = (tryCatch (x >>= fun _ => onDb (Database.undoOp SnapshotStack.merge))
      fun e => onDb (Database.undoOp SnapshotStack.undo) >>= fun _ => throw e : NodeM Op R Unit)
        s₁ := by
    rw [merging, bind_apply, hstart]
  rw [tryCatch_apply, bind_apply] at hrun
  have hundo : ∀ (e : ChainError) (t : Node Op R), Grown t
      (final (onDb (Database.undoOp SnapshotStack.undo) >>= fun _ => throw e : NodeM Op R Unit) t) :=
    fun e => Grown.frame.keeps_bind (keeps_grown_undoOp _) fun _ => Grown.frame.keeps_throw e
  cases hxs : x s₁ with
  | ok u s₂ =>
    rw [hxs] at hrun
    dsimp only at hrun
    rw [final_of_ok hxs] at hlayered
    have hmerge := keeps_grown_undoOp SnapshotStack.merge s₂
    have hafter : s₂.events <:+ (final (merging x) s).events := by
      cases hm : onDb (Database.undoOp SnapshotStack.merge) s₂ with
      | ok u s₃ =>
        rw [hm] at hrun
        rw [final_of_ok hm] at hmerge
        rw [final_of_ok hrun]
        exact hmerge.events
      | error e s₃ =>
        rw [hm] at hrun
        rw [final_of_error hm] at hmerge
        rw [final, hrun]
        exact hmerge.events.trans (hundo e s₃).events
    obtain ⟨hr, kept', hk, hl₂⟩ := hlayered (hf.of_suffix hafter)
    obtain ⟨s₃, hm, hobj, -, hl₃⟩ := hl₂.merge hne
    rw [hm] at hrun
    rw [final_of_ok hrun, hobj]
    exact ⟨hr, kept', hk, hl₃⟩
  | error e s₂ =>
    rw [hxs] at hrun
    rw [final_of_error hxs] at hlayered
    have hafter : s₂.events <:+ (final (merging x) s).events := by
      rw [final, hrun]
      exact (hundo e s₂).events
    obtain ⟨-, kept', hk, hl₂⟩ := hlayered (hf.of_suffix hafter)
    obtain ⟨s₃, hu, hobj, -, hl₃⟩ := hl₂.undo
    have hend : merging x s = .error e s₃ := by
      rw [hrun]
      dsimp only
      rw [bind_apply, hu]
      rfl
    rw [final_of_error hend, hobj]
    exact ⟨hH.refl _, kept', hk, hl₃⟩

/-! ### Transactions -/

/-- The head block and the irreversible block are the same. -/
structure SameHead (o o' : Objects R) : Prop where
  headBlockNumber : o'.headBlockNumber = o.headBlockNumber
  headBlockId : o'.headBlockId = o.headBlockId
  lastIrreversibleBlockNum : o'.lastIrreversibleBlockNum = o.lastIrreversibleBlockNum

theorem SameHead.order : Order (@SameHead R) where
  refl _ := ⟨rfl, rfl, rfl⟩
  trans h₁ h₂ :=
    ⟨h₂.headBlockNumber.trans h₁.headBlockNumber, h₂.headBlockId.trans h₁.headBlockId,
      h₂.lastIrreversibleBlockNum.trans h₁.lastIrreversibleBlockNum⟩

theorem keeps_sameHead_modifyRest (f : Objects R → Option R) :
    Keeps (@OnObjects Op R SameHead) (Database.modifyRest f) := by
  have hF := @OnObjects.frame Op R _ SameHead.order
  refine hF.keeps_bind hF.keeps_get fun s => ?_
  split
  · exact hF.keeps_throw _
  · exact keeps_update fun s => ⟨rfl, rfl, rfl, rfl, rfl, rfl, rfl⟩

/-- The actions of a transaction, proposals included, are steps inside its session. -/
theorem keeps_body_runActions : ∀ a : Actions R, Keeps (@Body Op R SameHead) (runActions a)
  | .done => (Body.frame SameHead.order).keeps_pure ()
  | .evaluate f rest =>
    (Body.frame SameHead.order).keeps_bind (keeps_body_onDb (keeps_sameHead_modifyRest f)) fun _ =>
      keeps_body_runActions rest
  | .executeProposal body rest =>
    (Body.frame SameHead.order).keeps_bind ((Body.frame SameHead.order).keeps_tryCatch
      (keeps_body_merging SameHead.order (keeps_body_runActions body)) fun _ =>
        (Body.frame SameHead.order).keeps_pure ()) fun _ => keeps_body_runActions rest

theorem keeps_body_applyTransaction (trx : Transaction Op) :
    Keeps (Body SameHead) (applyTransaction P Q trx) := by
  have hF := @Body.frame Op R _ SameHead.order
  refine hF.keeps_bind hF.keeps_get fun s => hF.keeps_bind (hF.keeps_assert _ _) fun _ => ?_
  refine hF.keeps_bind (hF.keeps_assert _ _) fun _ => hF.keeps_bind (hF.keeps_assert _ _) fun _ => ?_
  exact hF.keeps_bind (keeps_body_onDb (keeps_update fun s => ⟨rfl, rfl, rfl, rfl, rfl, rfl, rfl⟩))
    fun _ => hF.keeps_bind hF.keeps_get fun _ => keeps_body_runActions _

/-! ### Blocks -/

theorem keeps_body_clearExpiredProposals :
    Keeps (Body SameHead) (clearExpiredProposals Q : NodeM Op R Unit) := by
  have hF := @Body.frame Op R _ SameHead.order
  refine hF.keeps_bind hF.keeps_get fun s => hF.keeps_forM (fun p => ?_) _
  refine hF.keeps_bind ?_ fun removed => ?_
  · unfold executeExpired
    split
    · exact hF.keeps_tryCatch (hF.keeps_bind (keeps_body_merging SameHead.order
        (keeps_body_runActions _)) fun _ => hF.keeps_pure _) fun _ => hF.keeps_pure _
    · exact hF.keeps_pure _
  · split
    · exact hF.keeps_pure ()
    · exact keeps_body_onDb (keeps_update fun s => ⟨rfl, rfl, rfl, rfl, rfl, rfl, rfl⟩)

/-- The head block is the same, and the irreversible block has not gone down. -/
structure Grows (o o' : Objects R) : Prop where
  headBlockNumber : o'.headBlockNumber = o.headBlockNumber
  headBlockId : o'.headBlockId = o.headBlockId
  lastIrreversibleBlockNum : o.lastIrreversibleBlockNum ≤ o'.lastIrreversibleBlockNum

theorem Grows.order : Order (@Grows R) where
  refl _ := ⟨rfl, rfl, Nat.le_refl _⟩
  trans h₁ h₂ :=
    ⟨h₂.headBlockNumber.trans h₁.headBlockNumber, h₂.headBlockId.trans h₁.headBlockId,
      h₁.lastIrreversibleBlockNum.trans h₂.lastIrreversibleBlockNum⟩

/-- A block from the counting of its confirmations on. -/
def finishBlock (P : Protocol Op R) (Q : Proposals Op R) (b : SignedBlock Op)
    (maintNeeded : Bool) : NodeM Op R Unit := do
  onDb (Database.updateSigningWitness P b)
  onDb Database.updateLastIrreversibleBlock
  onDb (Database.maintainIf maintNeeded P b)
  onDb Database.clearExpiredTransactions
  clearExpiredProposals Q
  onDb (Database.modifyRest fun o => P.endOfBlock o b)

theorem keeps_body_finishBlock (b : SignedBlock Op) (maintNeeded : Bool) :
    Keeps (Body Grows) (finishBlock P Q b maintNeeded) := by
  have hF := @Body.frame Op R _ Grows.order
  have hO := @OnObjects.frame Op R _ Grows.order
  have hobj : ∀ (s : Database Op R) o, SameChain s.objects o → OnObjects Grows s (s.withObjects o) :=
    fun s o h => ⟨rfl, rfl, rfl, rfl, h.headBlockNumber, h.headBlockId, h.lastIrreversibleBlockNum⟩
  have hbuf : ∀ (s : Database Op R) v, OnObjects Grows s { s with buffers := v } :=
    fun s v => ⟨rfl, rfl, rfl, rfl, Grows.order.refl _⟩
  have hmaint : Keeps (OnObjects Grows) (Database.maintainIf maintNeeded P b) := by
    unfold Database.maintainIf
    split
    · exact Database.keeps_maintenance hO hobj hbuf P b
    · exact hO.keeps_pure ()
  refine hF.keeps_bind (keeps_body_onDb (Database.keeps_updateSigningWitness hO hobj P b)) fun _ =>
    hF.keeps_bind (keeps_body_onDb (Database.keeps_updateLastIrreversibleBlock hobj)) fun _ =>
      hF.keeps_bind (keeps_body_onDb hmaint) fun _ => hF.keeps_bind (keeps_body_onDb
        (keeps_update fun s => ⟨rfl, rfl, rfl, rfl, rfl, rfl, Nat.le_refl _⟩)) fun _ => ?_
  refine hF.keeps_bind (fun s => ?_) fun _ =>
    keeps_body_onDb (Database.keeps_modifyRest hO hobj _)
  exact (keeps_body_clearExpiredProposals s).mono fun _ _ h =>
    ⟨h.headBlockNumber, h.headBlockId, h.lastIrreversibleBlockNum.ge⟩

/-! ### States of a run -/

/-- A state inside the sessions `inner`, with the chain `c`: some of the copies of its blocks are
kept, at least those that are needed. -/
structure Within (c : List (SignedBlock Op × Objects R)) (p : Bool) (m : ℕ) (base : Objects R)
    (inner : List (Objects R)) (s : Node Op R) : Prop where
  chain : s.db.chain = c
  pendingSession : s.pendingSession = p
  layered : ∃ kept, kept <+: c.map Prod.snd ∧ Layered m base inner kept s

/-- The objects before and after each block of a chain have consecutive head blocks. -/
def Numbered : Objects R → List (SignedBlock Op × Objects R) → Prop
  | o, [] => o.headBlockId.num = o.headBlockNumber
  | o, (_, o') :: c => o.headBlockId.num = o.headBlockNumber ∧
      o.headBlockNumber = o'.headBlockNumber + 1 ∧ Numbered o' c

theorem Numbered.headBlockId {o : Objects R} {c : List (SignedBlock Op × Objects R)}
    (h : Numbered o c) : o.headBlockId.num = o.headBlockNumber := by
  cases c with
  | nil => exact h
  | cons e c => exact h.1

/-- No session is open. -/
def Idle (s : Node Op R) : Prop :=
  ∃ c m base, Numbered base c ∧ Within c false m base [] s

/-- The session of the pending transactions is open. -/
def Pending (s : Node Op R) : Prop :=
  ∃ c m base, Numbered base c ∧ Within c true m base [base] s

/-- Between two calls at most the session of the pending transactions is open. -/
def Ready (s : Node Op R) : Prop := Idle s ∨ Pending s

theorem Layered.current {m : ℕ} {base : Objects R} {kept : List (Objects R)} {s : Node Op R}
    (h : Layered m base [] kept s) : s.db.objects = base :=
  Option.some.inj h.outermost

theorem keeps_good {x : NodeM Op R Unit} (h : ∀ s, s.events <:+ (final x s).events) :
    Keeps (GoodBefore Fine) x :=
  fun s hf => hf.of_suffix (h s)

theorem leads_of_body {H : Objects R → Objects R → Prop} (hH : Order H)
    {c : List (SignedBlock Op × Objects R)} {p : Bool} {m : ℕ} {base o : Objects R}
    {inner : List (Objects R)} (hne : inner ≠ []) {x : NodeM Op R Unit} (hx : Keeps (Body H) x) :
    Leads Fine (fun s => Within c p m base inner s ∧ H o s.db.objects)
      (fun _ s => Within c p m base inner s ∧ H o s.db.objects)
      (fun s => Within c p m base inner s ∧ H o s.db.objects) x := by
  have hstep : ∀ s, Within c p m base inner s ∧ H o s.db.objects → ∀ s', Body H s s' → s'.Fine →
      Within c p m base inner s' ∧ H o s'.db.objects := by
    rintro s ⟨hw, ho⟩ s' hbody hf
    obtain ⟨kept, hk, hl⟩ := hw.layered
    obtain ⟨hr, kept', hk', hl'⟩ := hbody.layered hf m base inner kept hne hl
    exact ⟨⟨hbody.grown.chain.trans hw.chain, hbody.grown.pendingSession.trans hw.pendingSession,
      kept', hk'.trans hk, hl'⟩, hH.trans ho hr⟩
  exact ⟨keeps_good fun s => (hx s).grown.events,
    fun hs hok hf => hstep _ hs _ (hx.of_ok hok) hf,
    fun hs herr hf => hstep _ hs _ (hx.of_error herr) hf⟩

theorem leads_startUndoSession {c : List (SignedBlock Op × Objects R)} {p : Bool} {m : ℕ}
    {base o : Objects R} {inner : List (Objects R)} {E : Node Op R → Prop} :
    Leads Fine (fun s => Within c p m base inner s ∧ s.db.objects = o)
      (fun _ s => Within c p m base (o :: inner) s ∧ s.db.objects = o) E startUndoSession where
  keeps := keeps_good fun s => (keeps_grown_startUndoSession s).events
  ok := by
    rintro s u s' ⟨hw, rfl⟩ hok hf
    obtain ⟨kept, hk, hl⟩ := hw.layered
    have hgrown := keeps_grown_startUndoSession.of_ok hok
    rw [← final_of_ok hok] at hf
    obtain ⟨kept', hk', hl'⟩ := hl.start (fine_startUndoSession hf) hok
    refine ⟨⟨hgrown.chain.trans hw.chain, hgrown.pendingSession.trans hw.pendingSession, kept',
      hk'.trans hk, hl'⟩, ?_⟩
    obtain rfl := update_eq_ok.mp hok
    rfl
  error _ herr _ := by
    cases herr

theorem leads_undo {c : List (SignedBlock Op × Objects R)} {p : Bool} {m : ℕ} {base o : Objects R}
    {inner : List (Objects R)} {E : Node Op R → Prop} :
    Leads Fine (Within c p m base (o :: inner)) (fun _ s => Within c p m base inner s) E
      (onDb (Database.undoOp SnapshotStack.undo)) where
  keeps := keeps_good fun s => (keeps_grown_undoOp SnapshotStack.undo s).events
  ok := by
    intro s u s' hw hok _
    obtain ⟨kept, hk, hl⟩ := hw.layered
    have hgrown := (keeps_grown_undoOp _).of_ok hok
    obtain ⟨s₁, hundo, -, -, hl'⟩ := hl.undo
    rw [hundo] at hok
    cases hok
    exact ⟨hgrown.chain.trans hw.chain, hgrown.pendingSession.trans hw.pendingSession, kept, hk,
      hl'⟩
  error := by
    intro s e s' hw herr _
    obtain ⟨kept, hk, hl⟩ := hw.layered
    obtain ⟨s₁, hundo, -⟩ := hl.undo
    rw [hundo] at herr
    cases herr

/-! ### A block in its session -/

theorem validateBlockHeader_run (b : SignedBlock Op) (s : Node Op R) :
    (∃ e, onDb (Database.validateBlockHeader P b) s = .error e s) ∨
      onDb (Database.validateBlockHeader P b) s = .ok () s ∧
        s.db.objects.headBlockId = b.previous := by
  unfold onDb
  cases h : Database.validateBlockHeader P b s.db with
  | ok u d =>
    rw [Database.validateBlockHeader, get_bind, assert_bind_eq_ok, assert_bind_eq_ok,
      assert_eq_ok] at h
    obtain ⟨hprev, -, -, rfl⟩ := h
    exact .inr ⟨rfl, hprev⟩
  | error e d =>
    have hsame : d = s.db := by
      have hF := Frame.eq (fun d : Database Op R => d)
      have hkeeps : Keeps (fun d d' : Database Op R => d' = d)
          (Database.validateBlockHeader P b) :=
        hF.keeps_bind hF.keeps_get fun _ => hF.keeps_bind (hF.keeps_assert _ _) fun _ =>
          hF.keeps_bind (hF.keeps_assert _ _) fun _ => hF.keeps_assert _ _
      exact hkeeps.of_error h
    subst hsame
    exact .inl ⟨e, rfl⟩

/-- The objects with a block as their head block. -/
def withHead (P : Protocol Op R) (b : SignedBlock Op) (o : Objects R) : Objects R :=
  { o with
    headBlockNumber := b.blockNum
    headBlockId := P.blockId b
    time := b.timestamp
    rest := P.countSlots o b }

/-- The state after `update_global_dynamic_data`, which sets the bound. -/
theorem updateGlobalDynamicData_run (b : SignedBlock Op) (s : Node Op R) :
    ∃ o, o.headBlockNumber = b.blockNum ∧ o.headBlockId = P.blockId b ∧
      o.lastIrreversibleBlockNum = s.db.objects.lastIrreversibleBlockNum ∧
      ((∃ e, onDb (Database.updateGlobalDynamicData P b) s =
          .error e { s with db := s.db.withObjects o }) ∨
        ∃ s', onDb (Database.updateGlobalDynamicData P b) s = .ok () s' ∧
          s'.undo = { s.undo with current := o, maxSize := o.reversible + 1 } ∧
          s'.db.chain = s.db.chain ∧ s'.pendingSession = s.pendingSession ∧
          s'.events = s.events) := by
  have hrun : onDb (Database.updateGlobalDynamicData P b) s =
      onDb (do
        assert .undoHistory (b.blockNum - s.db.objects.lastIrreversibleBlockNum < Database.maxUndo)
        Database.setMaxSize (b.blockNum - s.db.objects.lastIrreversibleBlockNum + 1))
      { s with db := s.db.withObjects (withHead P b s.db.objects) } := rfl
  refine ⟨withHead P b s.db.objects, rfl, rfl, rfl, ?_⟩
  rw [hrun]
  unfold assert
  split
  · exact .inr ⟨_, rfl, rfl, rfl, rfl, rfl⟩
  · exact .inl ⟨_, rfl⟩

/-- What a block that was applied has made of the objects of the last block. -/
structure Advanced (base o : Objects R) (m : ℕ) : Prop where
  headBlockNumber : o.headBlockNumber = base.headBlockNumber + 1
  headBlockId : o.headBlockId.num = o.headBlockNumber
  lastIrreversibleBlockNum : base.lastIrreversibleBlockNum ≤ o.lastIrreversibleBlockNum
  room : o.reversible + 1 ≤ m

section Block

variable {c : List (SignedBlock Op × Objects R)} {m : ℕ} {base : Objects R}

theorem Within.withObjects {p : Bool} {i : Objects R} {inner : List (Objects R)} {s : Node Op R}
    (h : Within c p m base (i :: inner) s) (o : Objects R) :
    Within c p m base (i :: inner) { s with db := s.db.withObjects o } := by
  obtain ⟨kept, hk, hl⟩ := h.layered
  refine ⟨h.chain, h.pendingSession, kept, hk, hl.saved, hl.active, ?_, hl.maxSize, hl.room,
    hl.enough⟩
  have hbase := hl.outermost
  rw [List.getLast?_cons_cons] at hbase ⊢
  exact hbase

/-- Setting the bound in the middle of a block. -/
theorem leads_updateGlobalDynamicData {b : SignedBlock Op} :
    Leads Fine (fun s => (Within c false m base [base] s ∧ SameHead base s.db.objects) ∧
        b.blockNum = base.headBlockNumber + 1)
      (fun _ s => ∃ o, Advanced base o (o.reversible + 1) ∧
        Within c false (o.reversible + 1) base [base] s ∧ Grows o s.db.objects)
      (fun s => ∃ m, Within c false m base [base] s)
      (onDb (Database.updateGlobalDynamicData P b)) where
  keeps := by
    intro s hf
    obtain ⟨o, -, -, -, ⟨e, hrun⟩ | ⟨s', hrun, -, -, -, hev⟩⟩ :=
      updateGlobalDynamicData_run (P := P) b s
    · rw [final_of_error hrun] at hf
      exact hf
    · rw [final_of_ok hrun] at hf
      exact hf.of_suffix (hev ▸ List.suffix_refl _)
  ok := by
    rintro s u s' ⟨⟨hw, hsame⟩, hb⟩ hok -
    obtain ⟨o, hnum, hid, hlib, ⟨e, hrun⟩ | ⟨s₁, hrun, hundo, hchain, hpend, -⟩⟩ :=
      updateGlobalDynamicData_run (P := P) b s
    · rw [hrun] at hok
      cases hok
    · rw [hrun] at hok
      cases hok
      have hrev : base.reversible ≤ o.reversible := by
        unfold Objects.reversible
        rw [hnum, hb, hlib, hsame.lastIrreversibleBlockNum]
        omega
      have hobj : s'.db.objects = o := by
        change s'.undo.current = o
        rw [hundo]
      refine ⟨o, ⟨hnum.trans hb, ?_, ?_, Nat.le_refl _⟩, ⟨hchain.trans hw.chain,
        hpend.trans hw.pendingSession, ?_⟩, ?_⟩
      · rw [hid, hnum]
        rfl
      · rw [hlib, hsame.lastIrreversibleBlockNum]
      · obtain ⟨kept, hk, hl⟩ := hw.layered
        refine ⟨kept, hk, ?_, ?_, ?_, ?_, by omega, hl.enough⟩
        · rw [hundo]
          exact hl.saved
        · rw [hundo]
          exact hl.active
        · rfl
        · rw [hundo]
      · rw [hobj]
        exact Grows.order.refl o
  error := by
    rintro s e s' ⟨⟨hw, -⟩, -⟩ herr -
    obtain ⟨o, -, -, -, ⟨e', hrun⟩ | ⟨s₁, hrun, -⟩⟩ := updateGlobalDynamicData_run (P := P) b s
    · rw [hrun] at herr
      cases herr
      exact ⟨m, hw.withObjects o⟩
    · rw [hrun] at herr
      cases herr

theorem applyBlock_eq (b : SignedBlock Op) : applyBlock P Q b = (do
    assert .assertion (b.transactionMerkleRoot = P.merkleRoot b.transactions)
    onDb (Database.validateBlockHeader P b)
    let s ← get
    b.transactions.forM (applyTransaction P Q)
    onDb (Database.updateGlobalDynamicData P b)
    finishBlock P Q b (s.db.objects.nextMaintenanceTime ≤ b.timestamp)) := rfl

theorem leads_applyBlock (b : SignedBlock Op) :
    Leads Fine (fun s => (Within c false m base [base] s ∧ s.db.objects = base) ∧
        base.headBlockId.num = base.headBlockNumber)
      (fun _ s => ∃ m', Within c false m' base [base] s ∧ Advanced base s.db.objects m')
      (fun s => ∃ m', Within c false m' base [base] s) (applyBlock P Q b) := by
  rw [applyBlock_eq]
  refine leads_bind (leads_assert (J := fun _ s => (Within c false m base [base] s ∧
    s.db.objects = base) ∧ base.headBlockId.num = base.headBlockNumber) (fun _ h => h)
      fun s h => ⟨m, h.1.1⟩) fun _ => ?_
  -- the header tells that the block follows the head block
  have hheader : Leads Fine (fun s => (Within c false m base [base] s ∧ s.db.objects = base) ∧
        base.headBlockId.num = base.headBlockNumber)
      (fun _ s => (Within c false m base [base] s ∧ s.db.objects = base) ∧
        b.blockNum = base.headBlockNumber + 1)
      (fun s => ∃ m', Within c false m' base [base] s)
      (onDb (Database.validateBlockHeader P b)) := by
    refine ⟨fun s hf => ?_, ?_, ?_⟩
    · rcases validateBlockHeader_run (P := P) b s with ⟨e, hrun⟩ | ⟨hrun, -⟩
      · rwa [final_of_error hrun] at hf
      · rwa [final_of_ok hrun] at hf
    · rintro s u s' ⟨hs, hnum⟩ hok -
      rcases validateBlockHeader_run (P := P) b s with ⟨e, hrun⟩ | ⟨hrun, hprev⟩
      · rw [hrun] at hok
        cases hok
      · rw [hrun] at hok
        cases hok
        refine ⟨hs, ?_⟩
        rw [hs.2] at hprev
        rw [SignedBlock.blockNum, ← hprev, hnum]
    · intro s e s' hs herr _
      rcases validateBlockHeader_run (P := P) b s with ⟨e, hrun⟩ | ⟨hrun, -⟩
      · rw [hrun] at herr
        cases herr
        exact ⟨m, hs.1.1⟩
      · rw [hrun] at herr
        cases herr
  refine leads_bind hheader fun _ => leads_get_bind fun s₀ => ?_
  have htrxs : Leads Fine (fun s => Within c false m base [base] s ∧ SameHead base s.db.objects)
      (fun _ s => Within c false m base [base] s ∧ SameHead base s.db.objects)
      (fun s => Within c false m base [base] s ∧ SameHead base s.db.objects)
      (b.transactions.forM (applyTransaction P Q)) :=
    leads_of_body SameHead.order (List.cons_ne_nil base [])
      ((Body.frame SameHead.order).keeps_forM keeps_body_applyTransaction _)
  refine leads_bind ((htrxs.and_const (b.blockNum = base.headBlockNumber + 1)).weaken ?_
    (fun _ _ h => h) fun s h => ⟨m, h.1.1⟩) fun _ => ?_
  · rintro s ⟨-, ⟨hw, hobj⟩, hb⟩
    exact ⟨⟨hw, hobj ▸ SameHead.order.refl base⟩, hb⟩
  refine leads_bind leads_updateGlobalDynamicData fun _ => ?_
  -- the rest of the block does not lower the irreversible block
  have hkeeps := keeps_body_finishBlock (P := P) (Q := Q) b
    (decide (s₀.db.objects.nextMaintenanceTime ≤ b.timestamp))
  refine ⟨keeps_good fun s => (hkeeps s).grown.events, ?_, ?_⟩
  · rintro s u s' ⟨o, hadv, hw, hgrows⟩ hok hf
    obtain ⟨hw', hgrows'⟩ := (leads_of_body Grows.order (List.cons_ne_nil base []) hkeeps).ok
      ⟨hw, hgrows⟩ hok hf
    refine ⟨_, hw', ?_, ?_, ?_, ?_⟩
    · rw [hgrows'.headBlockNumber, hadv.headBlockNumber]
    · rw [hgrows'.headBlockId, hadv.headBlockId, hgrows'.headBlockNumber]
    · exact hadv.lastIrreversibleBlockNum.trans hgrows'.lastIrreversibleBlockNum
    · have := hgrows'.lastIrreversibleBlockNum
      unfold Objects.reversible
      rw [hgrows'.headBlockNumber]
      omega
  · rintro s e s' ⟨o, hadv, hw, hgrows⟩ herr hf
    exact ⟨_, ((leads_of_body Grows.order (List.cons_ne_nil base []) hkeeps).error
      ⟨hw, hgrows⟩ herr hf).1⟩

theorem Layered.commit {kept : List (Objects R)} {s : Node Op R} (h : Layered m base [base] kept s) :
    onDb (Database.undoOp SnapshotStack.commit) s =
      .ok () { s with db := { s.db with undo := { s.undo with active := 0 } } } := by
  have hcommit : s.undo.commit = some { s.undo with active := 0 } := by
    rw [SnapshotStack.commit, h.active]
    rfl
  rw [onDb_undoOp, hcommit]

/-- The state after a block that was applied: its copy is on top of those of the blocks before. -/
theorem Within.committed {s : Node Op R} (h : Within c false m base [base] s)
    (hadv : Advanced base s.db.objects m) (hnum : Numbered base c) (b : SignedBlock Op) :
    Idle { s with
      db := { s.db with undo := { s.undo with active := 0 }, chain := (b, base) :: s.db.chain } } := by
  obtain ⟨kept, hk, hl⟩ := h.layered
  refine ⟨(b, base) :: c, m, s.db.objects, ⟨hadv.headBlockId, hadv.headBlockNumber, hnum⟩,
    congrArg _ h.chain, h.pendingSession, base :: kept, (List.prefix_cons_inj base).mpr hk,
    hl.saved, rfl, rfl, hl.maxSize, hadv.room, ?_⟩
  have hhead := hadv.headBlockNumber
  have hlib := hadv.lastIrreversibleBlockNum
  have henough := hl.enough
  unfold Objects.reversible at henough ⊢
  rw [List.length_cons]
  omega

/-- A program that is started without sessions, for each chain and each state of the objects. -/
theorem leads_idle {α : Type} {J : α → Node Op R → Prop} {E : Node Op R → Prop}
    {φ : Objects R → Prop} {x : NodeM Op R α}
    (h : ∀ c m base, Leads Fine (fun s => (Within c false m base [] s ∧ s.db.objects = base) ∧
      (Numbered base c ∧ φ base)) J E x) :
    Leads Fine (fun s => Idle s ∧ φ s.db.objects) J E x := by
  refine (leads_exists (A := fun (i : List (SignedBlock Op × Objects R) × ℕ × Objects R) s =>
    (Within i.1 false i.2.1 i.2.2 [] s ∧ s.db.objects = i.2.2) ∧ (Numbered i.2.2 i.1 ∧ φ i.2.2))
      (fun s => ([], 0, s.db.objects)) fun i => h i.1 i.2.1 i.2.2).weaken ?_ (fun _ _ h => h)
        fun _ h => h
  rintro s ⟨⟨c, m, base, hnum, hw⟩, hφ⟩
  obtain ⟨kept, hk, hl⟩ := hw.layered
  exact ⟨(c, m, base), ⟨hw, hl.current⟩, hnum, hl.current ▸ hφ⟩

theorem leads_applyInSession_at (before : Node Op R) (b : SignedBlock Op) :
    Leads Fine (fun s => (Within c false m base [] s ∧ s.db.objects = base) ∧
        (Numbered base c ∧ before.db.objects = base)) (fun _ => Idle) Idle (do
      startUndoSession
      tryCatch (applyBlock P Q b) fun e => do
        onDb (Database.undoOp SnapshotStack.undo)
        throw e
      onDb (Database.undoOp SnapshotStack.commit)
      onDb (update fun d => { d with chain := (b, before.db.objects) :: d.chain })) := by
  set φ := Numbered base c ∧ before.db.objects = base
  refine leads_bind ((leads_startUndoSession (E := Idle)).and_const φ |>.weaken (fun _ h => h)
    (fun _ _ h => h) fun _ h => h.1) fun _ => ?_
  have hblock : Leads Fine (fun s => (Within c false m base [base] s ∧ s.db.objects = base) ∧ φ)
      (fun _ s => (∃ m', Within c false m' base [base] s ∧ Advanced base s.db.objects m') ∧ φ)
      (fun s => (∃ m', Within c false m' base [base] s) ∧ φ) (applyBlock P Q b) :=
    ((leads_applyBlock b).and_const φ).weaken (fun _ h => ⟨⟨h.1, h.2.1.headBlockId⟩, h.2⟩)
      (fun _ _ h => h) fun _ h => h
  refine leads_bind (leads_tryCatch hblock fun e => ?_) fun _ => ?_
  · -- the block has failed, and its session is undone
    refine leads_bind (J := fun _ => Idle) ?_ fun _ => leads_throw fun _ h => h
    refine (leads_exists (A := fun m' s => Within c false m' base [base] s ∧ φ) (fun _ => m)
      fun m' => ?_).weaken (fun _ ⟨⟨m', hw⟩, h⟩ => ⟨m', hw, h⟩) (fun _ _ h => h) fun _ h => h
    exact ((leads_undo (E := Idle)).and_const φ).weaken (fun _ h => h)
      (fun _ _ h => ⟨c, m', base, h.2.1, h.1⟩) fun _ h => h.1
  · refine ⟨(GoodBefore.frame Fine).keeps_bind (keeps_good fun s =>
      (keeps_grown_undoOp SnapshotStack.commit s).events) fun _ => keeps_update fun _ => id, ?_, ?_⟩
    · rintro s u s' ⟨⟨m', hw, hadv⟩, hnum, hbefore⟩ hok -
      obtain ⟨kept, hk, hl⟩ := hw.layered
      rw [bind_apply, hl.commit, hbefore] at hok
      cases hok
      exact hw.committed hadv hnum b
    · rintro s e s' ⟨⟨m', hw, hadv⟩, hnum, hbefore⟩ herr -
      obtain ⟨kept, hk, hl⟩ := hw.layered
      rw [bind_apply, hl.commit] at herr
      cases herr

/-- **A block that is applied in a session of its own** leaves enough copies behind, and so does
one that fails. -/
theorem leads_applyInSession (b : SignedBlock Op) :
    Leads Fine Idle (fun _ => Idle) Idle (applyInSession P Q b) := by
  refine leads_get_bind fun before => ?_
  refine (leads_idle (E := Idle) (J := fun _ => Idle) (φ := fun o => before.db.objects = o)
    fun c m base => leads_applyInSession_at before b).weaken ?_ (fun _ _ h => h) fun _ h => h
  rintro s ⟨rfl, h⟩
  exact ⟨h, rfl⟩

end Block

end Node

end FinChain.Chain
