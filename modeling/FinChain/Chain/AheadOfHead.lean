import FinChain.Chain.BlocksInside

/-!
# The head and what is ahead of it

Between two calls a node is in one of two states. Either no session is open and the objects are those of
the head block (`AtHead`), or the session of the pending transactions is open, and what it would bring
back are the objects of the head block (`Ahead`). Both say that the chain of the node is a chain of
applied blocks, of the protocol without sessions.

Every call leads from one of these states to one of them, whether it returns or throws
(`between_runCalls`). No assumption is made about the number of copies: when there are too few to pop a
block, the call throws, and what was popped before stays popped.
-/

namespace FinChain.Chain

open Exec

variable {Op R : Type} {P : Protocol Op R} {Q : Proposals Op R} {g : Objects R}

/-- All checks of a transaction as one, which no flag skips. -/
def Checks.whole (P : Protocol Op R) : Checks P where
  knownWitness _ _ := true
  validSignee _ _ := true
  scheduledWitness := P.scheduled
  valid _ := true
  authorized := P.acceptable
  tapos _ _ := true
  evaluate _ := P.evaluate
  countSlotsCaughtUp := P.countSlots
  endOfBlock _ := P.endOfBlock
  scheduled_eq _ _ := rfl
  acceptable_eq o trx := by simp
  evaluate_eq := rfl
  endOfBlock_eq := rfl

/-- Nothing is irreversible beyond the head of a chain. -/
theorem Applied.signed (hg : Unconfirmed g) {chain : List (SignedBlock Op × Objects R)}
    {o : Objects R} (h : Applied P g chain o) : Signed chain o :=
  (h.appliedWith (Checks.whole P)).signed hg

namespace Node

/-- The copies of the blocks of a node, if there were one for each. -/
def full (s : Node Op R) : List (Objects R) := s.db.chain.map Prod.snd

/-- No session is open, and the objects are those of the head block. -/
structure AtHead (P : Protocol Op R) (Q : Proposals Op R) (g : Objects R) (s : Node Op R) : Prop where
  applied : Applied (Q.protocol P) g s.db.chain s.db.objects
  pendingSession : s.pendingSession = false
  inside : Inside [] s.full 3 s

/-- The session of the pending transactions is open over the objects of the head block. -/
structure Ahead (P : Protocol Op R) (Q : Proposals Op R) (g base : Objects R) (s : Node Op R) :
    Prop where
  applied : Applied (Q.protocol P) g s.db.chain base
  pendingSession : s.pendingSession = true
  inside : Inside [base] s.full 2 s

/-- Between two calls. -/
def Between (P : Protocol Op R) (Q : Proposals Op R) (g : Objects R) (s : Node Op R) : Prop :=
  AtHead P Q g s ∨ ∃ base, Ahead P Q g base s

/-- The lists of transactions of a node. -/
def lists (s : Node Op R) : List (Transaction Op) × List (Transaction Op) := (s.pendingTx, s.poppedTx)

variable {base : Objects R} {s s' : Node Op R}

/-- Between two calls, with the objects of the head block. -/
def OnTop (P : Protocol Op R) (Q : Proposals Op R) (g base : Objects R) (s : Node Op R) : Prop :=
  AtHead P Q g s ∧ s.db.objects = base ∨ Ahead P Q g base s

theorem OnTop.between (h : OnTop P Q g base s) : Between P Q g s := by
  rcases h with ⟨h, -⟩ | h
  · exact .inl h
  · exact .inr ⟨base, h⟩

theorem Between.onTop (h : Between P Q g s) : ∃ base, OnTop P Q g base s := by
  rcases h with h | ⟨base, h⟩
  · exact ⟨s.db.objects, .inl ⟨h, rfl⟩⟩
  · exact ⟨base, .inr h⟩

/-- A node that has just been started. -/
def fresh (g : Objects R) : Node Op R := { db := Database.genesis g }

theorem atHead_fresh (P : Protocol Op R) (Q : Proposals Op R) (g : Objects R) :
    AtHead P Q g (fresh g) :=
  ⟨.genesis, rfl, ⟨[], List.nil_prefix, rfl⟩, rfl, (by decide : 0 + 3 ≤ 256 + 1)⟩

/-! ### The session of the pending transactions -/

theorem AtHead.startPending (h : AtHead P Q g s) :
    Ahead P Q g s.db.objects (final startPending s) :=
  ⟨h.applied, rfl, (h.inside.start (d := 2)).congr rfl rfl rfl⟩

/-- The session is undone, if it is open. -/
theorem OnTop.resetPending (h : OnTop P Q g base s) :
    ∃ s', resetPending s = .ok () s' ∧ AtHead P Q g s' ∧ s'.db.objects = base ∧ s'.lists = s.lists ∧
      s'.db.chain = s.db.chain ∧ s'.db.forkDb = s.db.forkDb := by
  unfold Node.resetPending
  rw [get_bind]
  rcases h with ⟨h, hbase⟩ | h
  · rw [h.pendingSession]
    exact ⟨s, rfl, h, hbase, rfl, rfl, rfl⟩
  · obtain ⟨u, hundo, hu, hinside⟩ := h.inside.undo
    rw [h.pendingSession, if_pos rfl, bind_apply, onDb_undoOp_of_some hundo]
    refine ⟨_, rfl, ⟨?_, rfl, hinside.congr rfl rfl rfl⟩, hu, rfl, rfl, rfl⟩
    change Applied (Q.protocol P) g s.db.chain u.current
    rw [hu]
    exact h.applied

theorem Between.resetPending (h : Between P Q g s) :
    ∃ s', resetPending s = .ok () s' ∧ AtHead P Q g s' ∧ s'.lists = s.lists ∧
      s'.db.chain = s.db.chain := by
  obtain ⟨base, honTop⟩ := h.onTop
  obtain ⟨s', hrun, h', -, hlists, hchain, -⟩ := honTop.resetPending
  exact ⟨s', hrun, h', hlists, hchain⟩

/-! ### Blocks -/

/-- **A block** is applied and put on the chain, or it is not applied and everything is as before. -/
theorem AtHead.applyInSession_cases (hg : Unconfirmed g) (hQ : Q.Shallow) (b : SignedBlock Op)
    (h : AtHead P Q g s) :
    (∃ u s₂ s', applyBlock P Q b (final startUndoSession s) = .ok u s₂ ∧
      applyInSession P Q b s = .ok () s' ∧ AtHead P Q g s' ∧ s'.lists = s.lists ∧
      s'.db.chain = (b, s.db.objects) :: s.db.chain) ∨
    ∃ e s₂ s', applyBlock P Q b (final startUndoSession s) = .error e s₂ ∧
      applyInSession P Q b s = .error e s' ∧ AtHead P Q g s' ∧ s'.lists = s.lists ∧
      s'.db.chain = s.db.chain := by
  obtain ⟨s₁, hs₁⟩ : ∃ s₁, s₁ = final startUndoSession s := ⟨_, rfl⟩
  have hstart : Inside [s.db.objects] s.full 2 s₁ := by
    rw [hs₁]
    exact h.inside.start
  have hrun : Node.applyInSession P Q b s = (do
      tryCatch (applyBlock P Q b) fun e => do
        onDb (Database.undoOp SnapshotStack.undo)
        throw e
      onDb (Database.undoOp SnapshotStack.commit)
      onDb (update fun d => { d with chain := (b, s.db.objects) :: d.chain }) : NodeM Op R Unit) s₁ := by
    rw [hs₁]
    rfl
  rw [bind_apply, tryCatch_apply] at hrun
  -- the irreversible block is not above the head
  have hsigned := h.applied.signed hg
  have hbelow : s₁.db.objects.headBlockId = b.previous → Below b s₁ := by
    rw [hs₁]
    intro hprevious
    have hprevious' : s.db.objects.headBlockId = b.previous := hprevious
    change s.db.objects.lastIrreversibleBlockNum ≤ b.previous.num
    rw [← hprevious', hsigned.headNum]
    exact hsigned.irreversible_le
  have hsheltered := keeps_sheltered_applyBlock (P := P) (Q := Q) b
  have hsame₁ : s₁.sheltered = s.sheltered := by
    rw [hs₁]
    rfl
  rw [← hs₁]
  rcases simulates_applyBlock (P := P) (b := b) hQ s₁ s₁.db ⟨⟨⟨rfl, rfl⟩, hstart⟩, hbelow⟩ with
    ⟨u, s₂, t₂, hblock, hblock', ⟨hobjects, -⟩, h₂⟩ | ⟨e, s₂, e', t₂, hblock, -, h₂⟩
  · -- the session is committed, and its copy is that of the block
    have hsame : s₂.sheltered = s.sheltered := (hsheltered.of_ok hblock).trans hsame₁
    have hchain : s₂.db.chain = s.db.chain := congrArg Prod.fst hsame
    have hcommit : s₂.undo.commit = some { s₂.undo with active := 0 } := by
      rw [SnapshotStack.commit, h₂.active]
      rfl
    rw [hblock] at hrun
    dsimp only at hrun
    rw [bind_apply, onDb_undoOp, hcommit] at hrun
    have hyields : Yields (Q.protocol P) b s.db.objects s₂.db.objects :=
      ⟨s₁.db, t₂, u, by rw [hs₁]; rfl, hblock', hobjects.symm⟩
    obtain ⟨kept, hkept, hsaved⟩ := h₂.saved
    refine .inl ⟨u, s₂, _, hblock, hrun, ⟨?_, (congrArg (fun l => l.2.1) hsame).trans h.pendingSession,
      ⟨s.db.objects :: kept, ?_, hsaved⟩, rfl, ?_⟩, congrArg (fun l => l.2.2) hsame, ?_⟩
    · change Applied (Q.protocol P) g ((b, s.db.objects) :: s₂.db.chain) s₂.db.objects
      rw [hchain]
      exact h.applied.block hyields
    · change s.db.objects :: kept <+: s.db.objects :: s₂.full
      rw [List.prefix_cons_inj, full, hchain]
      exact hkept
    · have hroom := h₂.room
      change 0 + 3 ≤ s₂.undo.maxSize + 1
      rw [List.length_singleton] at hroom
      omega
    · change (b, s.db.objects) :: s₂.db.chain = _
      rw [hchain]
  · -- the session is undone
    have hsame : s₂.sheltered = s.sheltered := (hsheltered.of_error hblock).trans hsame₁
    have hchain : s₂.db.chain = s.db.chain := congrArg Prod.fst hsame
    obtain ⟨u, hundo, hu, h'⟩ := h₂.undo
    rw [hblock] at hrun
    dsimp only at hrun
    rw [bind_apply, onDb_undoOp_of_some hundo] at hrun
    refine .inr ⟨e, s₂, _, hblock, hrun, ⟨?_, (congrArg (fun l => l.2.1) hsame).trans h.pendingSession,
      ?_⟩, congrArg (fun l => l.2.2) hsame, hchain⟩
    · change Applied (Q.protocol P) g s₂.db.chain u.current
      rw [hchain, hu]
      exact h.applied
    · change Inside [] (s₂.db.chain.map Prod.snd) 3 _
      rw [hchain]
      exact h'

theorem AtHead.applyInSession (hg : Unconfirmed g) (hQ : Q.Shallow) (b : SignedBlock Op)
    (h : AtHead P Q g s) : AtHead P Q g (final (applyInSession P Q b) s) ∧
      (final (Node.applyInSession P Q b) s).lists = s.lists := by
  rcases h.applyInSession_cases hg hQ b with
    ⟨u, s₂, s', -, hrun, h', hlists, -⟩ | ⟨e, s₂, s', -, hrun, h', hlists, -⟩
  · rw [final_of_ok hrun]
    exact ⟨h', hlists⟩
  · rw [final_of_error hrun]
    exact ⟨h', hlists⟩

/-- The block that is popped was the head, and its transactions are put in front of those popped
before. -/
structure Popped (P : Protocol Op R) (Q : Proposals Op R) (g : Objects R) (b : SignedBlock Op)
    (s s' : Node Op R) : Prop where
  atHead : AtHead P Q g s'
  chain : ∃ o, s.db.chain = (b, o) :: s'.db.chain
  pendingTx : s'.pendingTx = s.pendingTx
  poppedTx : s'.poppedTx = b.transactions ++ s.poppedTx

theorem Between.popBlock (h : Between P Q g s) :
    (∃ b s', popBlock Q s = .ok () s' ∧ Popped P Q g b s s') ∨
      ∃ e s', popBlock Q s = .error e s' ∧ AtHead P Q g s' ∧ s'.lists = s.lists := by
  obtain ⟨s₁, hreset, h₁, hlists, hchain₁⟩ := h.resetPending
  have hpending : s₁.pendingTx = s.pendingTx := congrArg Prod.fst hlists
  have hpopped : s₁.poppedTx = s.poppedTx := congrArg Prod.snd hlists
  unfold Node.popBlock
  rw [bind_apply, hreset]
  dsimp only
  rw [get_bind]
  have happlied := h₁.applied
  cases hchain : s₁.db.chain with
  | nil => exact .inr ⟨.popEmptyChain, s₁, rfl, h₁, hlists⟩
  | cons e c =>
    obtain ⟨b, o⟩ := e
    dsimp only
    unfold assert
    split
    · rw [pure_bind_apply, bind_apply, onDb_undoOp]
      cases hpop : s₁.undo.popCommit with
      | none => exact .inr ⟨.undo, s₁, rfl, h₁, hlists⟩
      | some u =>
        -- the copy is the one with which the block was put on the chain
        obtain ⟨hsaved, -, hactive, hsize⟩ := SnapshotStack.popCommit_eq_some hpop
        obtain ⟨kept, hkept, hsaved'⟩ := h₁.inside.saved
        rw [hsaved, List.nil_append] at hsaved'
        rw [← hsaved', full, hchain, List.map_cons, List.cons_prefix_cons] at hkept
        obtain ⟨hcurrent, hkept⟩ := hkept
        refine .inl ⟨b, _, rfl, ⟨?_, h₁.pendingSession, ⟨u.saved, hkept, rfl⟩, hactive, ?_⟩,
          ⟨o, ?_⟩, hpending, ?_⟩
        · rw [hchain] at happlied
          cases happlied with
          | block happlied _ =>
            change Applied (Q.protocol P) g c u.current
            rw [hcurrent]
            exact happlied
        · have hroom := h₁.inside.room
          change 0 + 3 ≤ u.maxSize + 1
          rw [hsize]
          exact hroom
        · rw [← hchain₁, hchain]
        · rw [← hpopped]
    · exact .inr ⟨.noForkItem, s₁, rfl, h₁, hlists⟩

/-! ### Transactions -/

theorem OnTop.ensurePending (h : OnTop P Q g base s) :
    ∃ s', ensurePending s = .ok () s' ∧ Ahead P Q g base s' ∧ s'.db.objects = s.db.objects ∧
      s'.lists = s.lists ∧ s'.db.chain = s.db.chain := by
  unfold Node.ensurePending
  rw [get_bind]
  rcases h with ⟨h, rfl⟩ | h
  · rw [h.pendingSession]
    exact ⟨final startPending s, rfl, h.startPending, rfl, rfl, rfl⟩
  · rw [h.pendingSession]
    exact ⟨s, rfl, h, rfl, rfl, rfl⟩

/-- What is done inside the session of the pending transactions stays ahead of the head. -/
theorem Ahead.of_inside (h : Ahead P Q g base s) (hinside : Inside [base] s.full 2 s')
    (hchain : s'.db.chain = s.db.chain) (hpending : s'.pendingSession = s.pendingSession) :
    Ahead P Q g base s' := by
  refine ⟨?_, hpending.trans h.pendingSession, ?_⟩
  · rw [hchain]
    exact h.applied
  · rw [full, hchain]
    exact hinside

/-- **Pushing a transaction** appends it to the pending ones if it applies, and does nothing else. -/
theorem OnTop.pushTransaction (hQ : Q.Shallow) (trx : Transaction Op) (h : OnTop P Q g base s) :
    (∃ o s', (Q.protocol P).result s.db.objects trx = some o ∧
      pushTransaction P Q trx s = .ok () s' ∧ s'.db.objects = o ∧ Ahead P Q g base s' ∧
      s'.lists = (s.pendingTx ++ [trx], s.poppedTx) ∧ s'.db.chain = s.db.chain) ∨
    ∃ e s', (Q.protocol P).result s.db.objects trx = none ∧
      pushTransaction P Q trx s = .error e s' ∧ s'.db.objects = s.db.objects ∧
      Ahead P Q g base s' ∧ s'.lists = s.lists ∧ s'.db.chain = s.db.chain := by
  obtain ⟨s₁, hensure, h₁, hobjects, hlists, hchain⟩ := h.ensurePending
  have hrun : Node.pushTransaction P Q trx s = (tryCatch
      ((applyTransaction P Q trx >>= fun _ =>
        update fun s => { s with pendingTx := s.pendingTx ++ [trx] }) >>= fun _ =>
          onDb (Database.undoOp SnapshotStack.merge))
      fun e => onDb (Database.undoOp SnapshotStack.undo) >>= fun _ => throw e : NodeM Op R Unit)
        (final startUndoSession s₁) := by
    unfold Node.pushTransaction
    rw [bind_apply, hensure]
    rfl
  rw [tryCatch_apply, bind_apply, bind_apply] at hrun
  have hperforms : Turns [s₁.db.objects, base] s₁.full 1
      ((Q.protocol P).result s₁.db.objects trx) (applyTransaction P Q trx) (final startUndoSession s₁) :=
    performs_applyTransaction hQ le_rfl trx _ h₁.inside.start
  rw [hobjects] at hperforms
  rcases hperforms with ⟨o, s₂, ho, happly, hs₂, h₂, hothers⟩ | ⟨e, s₂, ho, happly, h₂, hothers⟩
  · -- the transaction is noted before its session is merged
    have hchain₂ : s₂.db.chain = s₁.db.chain := congrArg (fun l => l.2.1) hothers
    have hpending₂ : s₂.pendingSession = s₁.pendingSession := congrArg (fun l => l.2.2.1) hothers
    have hlists₂ : s₂.lists = s₁.lists := congrArg (fun l => l.2.2.2) hothers
    have hnoted : Inside [s.db.objects, base] s₁.full 1
        { s₂ with pendingTx := s₂.pendingTx ++ [trx] } := h₂.congr rfl rfl rfl
    obtain ⟨u, hmerge, hu, h'⟩ := hnoted.merge
    rw [happly] at hrun
    dsimp only [update] at hrun
    rw [onDb_undoOp_of_some hmerge] at hrun
    refine .inl ⟨o, _, ho, hrun, hu.trans hs₂, h₁.of_inside h' hchain₂ hpending₂, ?_,
      hchain₂.trans hchain⟩
    have hboth := hlists₂.trans hlists
    simp only [lists, Prod.mk.injEq] at hboth
    change (s₂.pendingTx ++ [trx], s₂.poppedTx) = _
    rw [hboth.1, hboth.2]
  · have hchain₂ : s₂.db.chain = s₁.db.chain := congrArg (fun l => l.2.1) hothers
    have hpending₂ : s₂.pendingSession = s₁.pendingSession := congrArg (fun l => l.2.2.1) hothers
    have hlists₂ : s₂.lists = s₁.lists := congrArg (fun l => l.2.2.2) hothers
    obtain ⟨u, hundo, hu, h'⟩ := h₂.undo
    rw [happly] at hrun
    dsimp only at hrun
    rw [bind_apply, onDb_undoOp_of_some hundo] at hrun
    exact .inr ⟨e, _, ho, hrun, hu, h₁.of_inside h' hchain₂ hpending₂,
      hlists₂.trans hlists, hchain₂.trans hchain⟩

/-- A transaction that is only tried leaves nothing behind. -/
theorem Inside.validateTransaction (hQ : Q.Shallow) {inner full : List (Objects R)} {d : ℕ} (hd : 1 ≤ d)
    (h : Inside inner full (d + 1) s) (trx : Transaction Op) :
    Inside inner full (d + 1) (final (validateTransaction P Q trx) s) ∧
      (final (Node.validateTransaction P Q trx) s).db.objects = s.db.objects ∧
      (final (Node.validateTransaction P Q trx) s).others = s.others := by
  have hrun : Node.validateTransaction P Q trx s = (do
      tryCatch (applyTransaction P Q trx) fun e => do
        onDb (Database.undoOp SnapshotStack.undo)
        throw e
      onDb (Database.undoOp SnapshotStack.undo) : NodeM Op R Unit) (final startUndoSession s) := rfl
  rw [bind_apply, tryCatch_apply] at hrun
  rcases performs_applyTransaction (P := P) hQ hd trx _ h.start with
    ⟨o, s₂, -, happly, -, h₂, hothers⟩ | ⟨e, s₂, -, happly, h₂, hothers⟩
  · obtain ⟨u, hundo, hu, h'⟩ := h₂.undo
    rw [happly] at hrun
    dsimp only at hrun
    rw [onDb_undoOp_of_some hundo] at hrun
    rw [final_of_ok hrun]
    exact ⟨h', hu, hothers⟩
  · obtain ⟨u, hundo, hu, h'⟩ := h₂.undo
    rw [happly] at hrun
    dsimp only at hrun
    rw [bind_apply, onDb_undoOp_of_some hundo] at hrun
    rw [final_of_error hrun]
    exact ⟨h', hu, hothers⟩

theorem Between.validateTransaction (hQ : Q.Shallow) (trx : Transaction Op) (h : Between P Q g s) :
    Between P Q g (final (validateTransaction P Q trx) s) := by
  rcases h with h | ⟨base, h⟩
  · obtain ⟨hinside, hobjects, hothers⟩ :=
      Inside.validateTransaction (P := P) hQ (by decide) h.inside trx
    have hchain : (final (Node.validateTransaction P Q trx) s).db.chain = s.db.chain :=
      congrArg (fun l => l.2.1) hothers
    refine .inl ⟨?_, (congrArg (fun l => l.2.2.1) hothers).trans h.pendingSession, ?_⟩
    · rw [hchain, hobjects]
      exact h.applied
    · rw [full, hchain]
      exact hinside
  · obtain ⟨hinside, -, hothers⟩ := Inside.validateTransaction (P := P) hQ le_rfl h.inside trx
    exact .inr ⟨base, h.of_inside hinside (congrArg (fun l => l.2.1) hothers)
      (congrArg (fun l => l.2.2.1) hothers)⟩

/-- The loop that puts transactions into a block. -/
theorem Ahead.includeTransactions (hQ : Q.Shallow)
    (fits : List (Transaction Op) → Transaction Op → Bool) :
    ∀ (trxs included : List (Transaction Op)) {s : Node Op R}, Ahead P Q g base s →
      ∃ included' s', includeTransactions P Q fits trxs included s = .ok included' s' ∧
        Ahead P Q g base s'
  | [], included, s, h => ⟨included, s, rfl, h⟩
  | trx :: trxs, included, s, h => by
    have hone : ∃ included' s', includeTransaction P Q fits trx included s = .ok included' s' ∧
        Ahead P Q g base s' := by
      unfold includeTransaction
      split
      · rw [tryCatch_apply, bind_apply]
        have hperforms : ∀ o, Performs [o, base] s.full 1 (fun o => (Q.protocol P).result o trx)
            (applyTransaction P Q trx) := fun o => performs_applyTransaction hQ le_rfl trx
        rcases merging_cases hperforms h.inside with
          ⟨o, s', -, hrun, -, h', hothers⟩ | ⟨e, s', -, hrun, -, h', hothers⟩
        · rw [hrun]
          exact ⟨_, s', rfl, h.of_inside h' (congrArg (fun l => l.2.1) hothers)
            (congrArg (fun l => l.2.2.1) hothers)⟩
        · rw [hrun]
          exact ⟨_, s', rfl, h.of_inside h' (congrArg (fun l => l.2.1) hothers)
            (congrArg (fun l => l.2.2.1) hothers)⟩
      · exact ⟨included, s, rfl, h⟩
    obtain ⟨included₁, s₁, hrun, h₁⟩ := hone
    obtain ⟨included', s', hrun', h'⟩ := h₁.includeTransactions hQ fits trxs included₁
    refine ⟨included', s', ?_, h'⟩
    rw [Node.includeTransactions, bind_apply, hrun]
    exact hrun'

end Node

end FinChain.Chain
