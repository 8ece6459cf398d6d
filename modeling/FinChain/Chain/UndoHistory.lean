import FinChain.Chain.UndoLayers

/-!
# Enough undo history

Whole runs of calls: between two calls at most the session of the pending transactions is open
(`Ready`), and if all was fine there is a copy for every block above the irreversible one. When no
session is open, these blocks can be popped, and each pop brings back the objects before the block
(`enoughHistory_of_fine`). Without the condition there may be too few copies (`not_enoughHistory`).
-/

namespace FinChain.Chain

open Exec

variable {Op R : Type} {P : Protocol Op R} {Q : Proposals Op R}

namespace Node

/-! ### Pending transactions -/

theorem Within.setPending {c : List (SignedBlock Op × Objects R)} {p : Bool} {m : ℕ}
    {base : Objects R} {inner : List (Objects R)} {s : Node Op R} (h : Within c p m base inner s)
    (q : Bool) : Within c q m base inner { s with pendingSession := q } := by
  obtain ⟨kept, hk, hl⟩ := h.layered
  exact ⟨h.chain, rfl, kept, hk, hl.saved, hl.active, hl.outermost, hl.maxSize, hl.room, hl.enough⟩

/-- A program that is started in the session of the pending transactions. -/
theorem leads_pending {α : Type} {J : α → Node Op R → Prop} {E : Node Op R → Prop}
    {x : NodeM Op R α}
    (h : ∀ c m base, Leads Fine (fun s => Within c true m base [base] s ∧ Numbered base c) J E x) :
    Leads Fine Pending J E x := by
  refine (leads_exists (A := fun (i : List (SignedBlock Op × Objects R) × ℕ × Objects R) s =>
    Within i.1 true i.2.1 i.2.2 [i.2.2] s ∧ Numbered i.2.2 i.1) (fun s => ([], 0, s.db.objects))
      fun i => h i.1 i.2.1 i.2.2).weaken ?_ (fun _ _ h => h) fun _ h => h
  rintro s ⟨c, m, base, hnum, hw⟩
  exact ⟨(c, m, base), hw, hnum⟩

theorem leads_resetPending {E : Node Op R → Prop} :
    Leads Fine Ready (fun _ => Idle) E resetPending := by
  refine leads_get_bind fun s₀ => ?_
  split
  · next hp =>
    -- the states without sessions do not get here
    have hpending : Leads Fine Pending (fun _ => Idle) E (do
        onDb (Database.undoOp SnapshotStack.undo)
        update fun s => { s with pendingSession := false } : NodeM Op R Unit) := by
      refine leads_pending fun c m base => leads_bind ((leads_undo (E := E)).and_const _ |>.weaken
        (fun _ h => h) (fun _ _ h => h) fun _ h => h.1) fun _ => leads_update (fun _ => id) ?_
      rintro s ⟨hw, hnum⟩ -
      exact ⟨c, m, base, hnum, hw.setPending false⟩
    refine hpending.weaken ?_ (fun _ _ h => h) fun _ h => h
    rintro s ⟨rfl, ⟨c, m, base, -, hw⟩ | h⟩
    · rw [hw.pendingSession] at hp
      cases hp
    · exact h
  · next hp =>
    refine leads_pure ?_
    rintro s ⟨rfl, h | ⟨c, m, base, -, hw⟩⟩
    · exact h
    · exact absurd hw.pendingSession hp

theorem leads_startPending {E : Node Op R → Prop} :
    Leads Fine Idle (fun _ => Pending) E startPending := by
  have hstart : Leads Fine (fun s => Idle s ∧ True) (fun _ => Pending) E
      (startPending : NodeM Op R Unit) := by
    refine leads_idle (φ := fun _ => True) fun c m base => ?_
    refine leads_bind ((leads_startUndoSession (E := E)).and_const _ |>.weaken (fun _ h => h)
      (fun _ _ h => h) fun _ h => h.1) fun _ => leads_update (fun _ => id) ?_
    rintro s ⟨⟨hw, -⟩, hnum, -⟩ -
    exact ⟨c, m, base, hnum, hw.setPending true⟩
  exact hstart.weaken (fun _ h => ⟨h, trivial⟩) (fun _ _ h => h) fun _ h => h

theorem leads_ensurePending {E : Node Op R → Prop} :
    Leads Fine Ready (fun _ => Pending) E ensurePending := by
  refine leads_get_bind fun s₀ => ?_
  split
  · next hp =>
    refine leads_pure ?_
    rintro s ⟨rfl, ⟨c, m, base, -, hw⟩ | h⟩
    · rw [hw.pendingSession] at hp
      cases hp
    · exact h
  · next hp =>
    refine leads_startPending.weaken ?_ (fun _ _ h => h) fun _ h => h
    rintro s ⟨rfl, h | ⟨c, m, base, -, hw⟩⟩
    · exact h
    · exact absurd hw.pendingSession hp

/-- Steps inside the session of the pending transactions. -/
theorem leads_pending_of_body {H : Objects R → Objects R → Prop} {x : NodeM Op R Unit}
    (hx : Keeps (Body H) x) : Leads Fine Pending (fun _ => Pending) Pending x := by
  have hstep : ∀ s s' : Node Op R, Pending s → Body H s s' → s'.Fine → Pending s' := by
    rintro s s' ⟨c, m, base, hnum, hw⟩ hbody hf
    obtain ⟨kept, hk, hl⟩ := hw.layered
    obtain ⟨-, kept', hk', hl'⟩ := hbody.layered hf m base [base] kept (List.cons_ne_nil _ _) hl
    exact ⟨c, m, base, hnum, hbody.grown.chain.trans hw.chain,
      hbody.grown.pendingSession.trans hw.pendingSession, kept', hk'.trans hk, hl'⟩
  exact ⟨keeps_good fun s => (hx s).grown.events,
    fun hs hok hf => hstep _ _ hs (hx.of_ok hok) hf,
    fun hs herr hf => hstep _ _ hs (hx.of_error herr) hf⟩

theorem leads_pushTransaction (trx : Transaction Op) :
    Leads Fine Ready (fun _ => Pending) Ready (pushTransaction P Q trx) := by
  refine leads_bind leads_ensurePending fun _ => ?_
  have hbody : Keeps (Body SameHead) (merging do
      applyTransaction P Q trx
      update fun s => { s with pendingTx := s.pendingTx ++ [trx] }) := by
    refine keeps_body_merging SameHead.order ((Body.frame SameHead.order).keeps_bind
      (keeps_body_applyTransaction trx) fun _ => keeps_update fun s => ?_)
    exact ⟨⟨List.suffix_refl _, rfl, rfl⟩, fun _ m base inner kept _ h =>
      ⟨SameHead.order.refl _, kept, List.prefix_refl _, h.saved, h.active, h.outermost, h.maxSize,
        h.room, h.enough⟩⟩
  exact (leads_pending_of_body hbody).weaken (fun _ h => h) (fun _ _ h => h) fun _ h => .inr h

/-- A transaction that is only tried, in whatever sessions. -/
theorem leads_validateTransaction_at {c : List (SignedBlock Op × Objects R)} {p : Bool} {m : ℕ}
    {base o : Objects R} {inner : List (Objects R)} (trx : Transaction Op) :
    Leads Fine (fun s => Within c p m base inner s ∧ s.db.objects = o)
      (fun _ s => Within c p m base inner s) (fun s => Within c p m base inner s)
      (validateTransaction P Q trx) := by
  refine leads_bind leads_startUndoSession fun _ => ?_
  have htrx : Leads Fine (fun s => Within c p m base (o :: inner) s ∧ SameHead o s.db.objects)
      (fun _ s => Within c p m base (o :: inner) s ∧ SameHead o s.db.objects)
      (fun s => Within c p m base (o :: inner) s ∧ SameHead o s.db.objects)
      (applyTransaction P Q trx) :=
    leads_of_body SameHead.order (List.cons_ne_nil o inner) (keeps_body_applyTransaction trx)
  refine leads_bind (J := fun _ s => Within c p m base (o :: inner) s)
    (leads_tryCatch (htrx.weaken ?_ (fun _ _ h => h.1) fun _ h => h.1) fun e =>
      leads_bind leads_undo fun _ => leads_throw fun _ h => h) fun _ => leads_undo
  rintro s ⟨hw, rfl⟩
  exact ⟨hw, SameHead.order.refl _⟩

theorem leads_validateTransaction (trx : Transaction Op) :
    Leads Fine Ready (fun _ => Ready) Ready (validateTransaction P Q trx) := by
  refine leads_or ?_ ?_
  · have hidle : Leads Fine (fun s => Idle s ∧ True) (fun _ => Ready) Ready
        (validateTransaction P Q trx) := by
      refine leads_idle (φ := fun _ => True) fun c m base => ?_
      exact ((leads_validateTransaction_at trx).and_const _).weaken (fun _ h => h)
        (fun _ _ h => .inl ⟨c, m, base, h.2.1, h.1⟩) fun _ h => .inl ⟨c, m, base, h.2.1, h.1⟩
    exact hidle.weaken (fun _ h => ⟨h, trivial⟩) (fun _ _ h => h) fun _ h => h
  · refine leads_pending fun c m base => ?_
    refine (leads_exists (A := fun o s => (Within c true m base [base] s ∧ s.db.objects = o) ∧
      Numbered base c) (fun s => s.db.objects) fun o => ?_).weaken
        (fun s h => ⟨s.db.objects, ⟨h.1, rfl⟩, h.2⟩) (fun _ _ h => h) fun _ h => h
    exact ((leads_validateTransaction_at trx).and_const _).weaken (fun _ h => h)
      (fun _ _ h => .inr ⟨c, m, base, h.2, h.1⟩) fun _ h => .inr ⟨c, m, base, h.2, h.1⟩

/-! ### Popping blocks -/

/-- The state after a block was popped that had not moved the irreversible block. -/
theorem Within.popped {c : List (SignedBlock Op × Objects R)} {b : SignedBlock Op} {m : ℕ}
    {base o k : Objects R} {kept : List (Objects R)} {s s' : Node Op R}
    (hnum : Numbered base ((b, o) :: c)) (hkept : k :: kept <+: o :: c.map Prod.snd)
    (hl : Layered m base [] (k :: kept) s) (hp : s'.pendingSession = false)
    (hundo : s'.undo = { s.undo with current := k, saved := kept }) (hchain : s'.db.chain = c)
    (hlib : k.lastIrreversibleBlockNum = base.lastIrreversibleBlockNum) : Idle s' := by
  obtain ⟨rfl, hk⟩ := List.cons_prefix_cons.mp hkept
  obtain ⟨-, hhead, hnum'⟩ := hnum
  have hroom := hl.room
  have henough := hl.enough
  unfold Objects.reversible at hroom henough
  rw [List.length_cons] at henough
  refine ⟨c, m, k, hnum', hchain, hp, kept, hk, ?_, ?_, ?_, ?_, ?_, ?_⟩
  · rw [hundo]
    rfl
  · rw [hundo]
    exact hl.active
  · rw [hundo]
    rfl
  · rw [hundo]
    exact hl.maxSize
  · unfold Objects.reversible
    omega
  · unfold Objects.reversible
    omega

/-- `pop_block` after its first line. -/
def popHead (Q : Proposals Op R) : NodeM Op R Unit := do
  let s ← get
  match s.db.chain with
  | [] => throw .popEmptyChain
  | (b, _) :: chain => do
    assert .noForkItem (Q.canPop s.db.objects = true)
    onDb (Database.undoOp SnapshotStack.popCommit)
    update fun s' =>
      { s' with
        db := { s'.db with chain := chain }
        poppedTx := b.transactions ++ s'.poppedTx
        events := .pop s.db.objects.lastIrreversibleBlockNum
          s'.db.objects.lastIrreversibleBlockNum :: s'.events }

theorem keeps_popHead : Keeps (GoodBefore Fine) (popHead Q : NodeM Op R Unit) := by
  have hF := GoodBefore.frame (@Fine Op R)
  refine hF.keeps_bind hF.keeps_get fun s => ?_
  split
  · exact hF.keeps_throw _
  · refine hF.keeps_bind (hF.keeps_assert _ _) fun _ => hF.keeps_bind (keeps_good fun s =>
      (keeps_grown_undoOp SnapshotStack.popCommit s).events) fun _ => keeps_update fun s hf => ?_
    exact hf.of_suffix (List.suffix_cons _ _)

theorem popHead_run (s : Node Op R) :
    (∃ e, popHead Q s = .error e s) ∨ ∃ s' b o c k kept, popHead Q s = .ok () s' ∧
      s.db.chain = (b, o) :: c ∧ s.undo.saved = k :: kept ∧
      s'.undo = { s.undo with current := k, saved := kept } ∧ s'.db.chain = c ∧
      s'.pendingSession = s.pendingSession ∧
      .pop s.db.objects.lastIrreversibleBlockNum k.lastIrreversibleBlockNum ∈ s'.events := by
  rw [popHead, get_bind]
  rcases hchain : s.db.chain with _ | ⟨⟨b, o⟩, c⟩
  · exact .inl ⟨_, rfl⟩
  · dsimp only
    unfold assert
    split
    · rw [pure_bind_apply, bind_apply, onDb_undoOp]
      rcases hpop : s.undo.popCommit with _ | a
      · exact .inl ⟨_, rfl⟩
      · obtain ⟨hsaved, hactive, hactive', hsize⟩ := SnapshotStack.popCommit_eq_some hpop
        have ha : a = { s.undo with current := a.current, saved := a.saved } := by
          dsimp only
          rw [← hsize, hactive, ← hactive']
        exact .inr ⟨_, b, o, c, a.current, a.saved, rfl, rfl, hsaved, ha, rfl, rfl,
          List.mem_cons_self⟩
    · exact .inl ⟨_, rfl⟩

theorem leads_popHead : Leads Fine Idle (fun _ => Idle) Idle (popHead Q : NodeM Op R Unit) := by
  refine ⟨keeps_popHead, ?_, ?_⟩
  · rintro s u s' ⟨c, m, base, hnum, hw⟩ hok hf
    obtain ⟨kept, hk, hl⟩ := hw.layered
    rcases popHead_run (Q := Q) s with
      ⟨e, hrun⟩ | ⟨s₁, b, o, c', k, kept', hrun, hchain, hsaved, hundo, hchain', hp, hev⟩
    · rw [hrun] at hok
      cases hok
    · rw [hrun] at hok
      cases hok
      obtain rfl : c = (b, o) :: c' := hw.chain.symm.trans hchain
      obtain rfl : kept = k :: kept' := hl.saved.symm.trans hsaved
      have hlib := hf _ hev
      rw [UndoEvent.Fine, hl.current] at hlib
      exact Within.popped hnum hk hl (hp.trans hw.pendingSession) hundo hchain' hlib
  · intro s e s' hs herr _
    rcases popHead_run (Q := Q) s with ⟨e, hrun⟩ | ⟨s₁, b, o, c', k, kept', hrun, -⟩
    · rw [hrun] at herr
      cases herr
      exact hs
    · rw [hrun] at herr
      cases herr

theorem leads_popBlock : Leads Fine Ready (fun _ => Idle) Idle (popBlock Q : NodeM Op R Unit) :=
  leads_bind leads_resetPending fun _ => leads_popHead

theorem leads_popUntil (id : BlockId) : ∀ fuel : ℕ,
    Leads Fine Idle (fun _ => Idle) Idle (popUntil Q id fuel : NodeM Op R Unit)
  | 0 => leads_get_bind fun s => leads_assert (fun _ h => h.2) fun _ h => h.2
  | fuel + 1 => by
    refine leads_get_bind fun s => ?_
    split
    · exact leads_pure fun _ h => h.2
    · exact leads_bind (leads_popBlock.weaken (fun _ h => .inl h.2) (fun _ _ h => h) fun _ h => h)
        fun _ => leads_popUntil id fuel

theorem leads_popBlocksTo (id : BlockId) :
    Leads Fine Idle (fun _ => Idle) Idle (popBlocksTo Q id : NodeM Op R Unit) :=
  leads_get_bind fun _ => (leads_popUntil id _).weaken (fun _ h => h.2) (fun _ _ h => h) fun _ h => h

/-! ### The calls -/

theorem leads_recover (oldBranch : List (SignedBlock Op)) (except : ChainError) :
    Leads Fine Idle (fun _ => Idle) Idle (recover P Q oldBranch except) :=
  leads_bind (leads_popBlocksTo _) fun _ =>
    leads_bind (leads_forM leads_applyInSession _) fun _ => leads_throw fun _ h => h

theorem leads_pushBlockOnly (b : SignedBlock Op) (choice : ForkChoice Op) :
    Leads Fine Idle (fun _ => Idle) Idle (pushBlockOnly P Q b choice) := by
  cases choice with
  | refused e => exact leads_throw fun _ h => h
  | ignored => exact leads_pure fun _ h => h
  | extended => exact leads_applyInSession b
  | switched newBranch oldBranch =>
    exact leads_bind (leads_popBlocksTo _) fun _ => leads_forM (fun b =>
      leads_tryCatch (leads_applyInSession b) fun e => leads_recover oldBranch e) _

/-- The lists of transactions do not matter. -/
theorem Ready.congr {s s' : Node Op R} (h : Ready s) (hdb : s.db = s'.db)
    (hp : s.pendingSession = s'.pendingSession) : Ready s' := by
  obtain ⟨db, p, tx, popped, ev⟩ := s
  obtain ⟨db', p', tx', popped', ev'⟩ := s'
  obtain rfl : db = db' := hdb
  obtain rfl : p = p' := hp
  rcases h with ⟨c, m, base, hnum, hw⟩ | ⟨c, m, base, hnum, hw⟩
  · obtain ⟨kept, hk, hl⟩ := hw.layered
    exact .inl ⟨c, m, base, hnum, hw.chain, hw.pendingSession, kept, hk, hl.saved, hl.active,
      hl.outermost, hl.maxSize, hl.room, hl.enough⟩
  · obtain ⟨kept, hk, hl⟩ := hw.layered
    exact .inr ⟨c, m, base, hnum, hw.chain, hw.pendingSession, kept, hk, hl.saved, hl.active,
      hl.outermost, hl.maxSize, hl.room, hl.enough⟩

theorem leads_clearPending {E : Node Op R → Prop} :
    Leads Fine Ready (fun _ => Idle) E clearPending :=
  leads_bind (leads_update (J := fun _ => Ready) (fun _ => id) fun _ h _ => Ready.congr h rfl rfl)
    fun _ => leads_resetPending

theorem leads_repush (trx : Transaction Op) :
    Leads Fine Ready (fun _ => Ready) Ready (repush P Q trx) := by
  refine leads_get_bind fun s => ?_
  split
  · exact leads_pure fun _ h => h.2
  · exact leads_tryCatch ((leads_pushTransaction trx).weaken (fun _ h => h.2)
      (fun _ _ h => .inr h) fun _ h => h) fun _ => leads_pure fun _ h => h

theorem leads_restorePending (pending : List (Transaction Op)) :
    Leads Fine Ready (fun _ => Ready) Ready (restorePending P Q pending) := by
  refine leads_get_bind fun s => leads_bind (J := fun _ => Ready) ((leads_forM leads_repush _).weaken
    (fun _ h => h.2) (fun _ _ h => h) fun _ h => h) fun _ => ?_
  exact leads_bind (leads_update (J := fun _ => Ready) (fun _ => id) fun s h _ => Ready.congr h rfl rfl)
    fun _ => leads_forM leads_repush _

theorem leads_pushBlock (b : SignedBlock Op) (choice : ForkChoice Op) :
    Leads Fine Ready (fun _ => Ready) Ready (pushBlock P Q b choice) := by
  refine leads_get_bind fun s => leads_bind (leads_clearPending.weaken (fun _ h => h.2)
    (fun _ _ h => h) fun _ h => h) fun _ => ?_
  refine leads_bind (J := fun _ => Idle) (leads_tryCatch (leads_pushBlockOnly b choice) fun e => ?_)
    fun _ => ?_
  · exact leads_bind ((leads_restorePending _).weaken (fun _ h => .inl h) (fun _ _ h => h)
      fun _ h => h) fun _ => leads_throw fun _ h => h
  · exact (leads_restorePending _).weaken (fun _ h => .inl h) (fun _ _ h => h) fun _ h => h

theorem leads_includeTransactions {fits : List (Transaction Op) → Transaction Op → Bool} :
    ∀ trxs included : List (Transaction Op),
      Leads Fine Pending (fun _ => Pending) Pending (includeTransactions P Q fits trxs included)
  | [], included => leads_pure fun _ h => h
  | trx :: trxs, included => by
    refine leads_bind (J := fun _ => Pending) ?_ fun included => leads_includeTransactions trxs included
    unfold includeTransaction
    split
    · exact leads_tryCatch (leads_bind (leads_pending_of_body (keeps_body_merging SameHead.order
        (keeps_body_applyTransaction trx))) fun _ => leads_pure fun _ h => h) fun _ =>
          leads_pure fun _ h => h
    · exact leads_pure fun _ h => h

theorem leads_generateBlock (q : BlockRequest Op R) :
    Leads Fine Ready (fun _ => Ready) Ready (generateBlock P Q q) := by
  refine leads_get_bind fun s => leads_bind (J := fun _ => Ready)
    (leads_assert (fun _ h => h.2) fun _ h => h.2) fun _ => ?_
  refine leads_bind leads_resetPending fun _ => leads_bind leads_startPending fun _ => ?_
  refine leads_bind ((leads_includeTransactions _ _).weaken (fun _ h => h) (fun _ _ h => h)
    fun _ h => .inr h) fun trxs => ?_
  refine leads_bind (leads_resetPending.weaken (fun _ h => .inr h) (fun _ _ h => h) fun _ h => h)
    fun _ => leads_get_bind fun s' => leads_bind (J := fun _ => Ready)
      (leads_assert (fun _ h => .inl h.2) fun _ h => .inl h.2) fun _ => leads_pushBlock _ _

theorem leads_run (call : Call Op R) :
    Leads Fine Ready (fun _ => Ready) Ready (call.run P Q) := by
  have hidle : ∀ {x : NodeM Op R Unit}, Leads Fine Idle (fun _ => Idle) Idle x →
      Leads Fine Idle (fun _ => Ready) Ready x := fun h =>
    h.weaken (fun _ h => h) (fun _ _ h => .inl h) fun _ h => .inl h
  cases call with
  | pushBlock b choice => exact leads_pushBlock b choice
  | pushTransaction trx =>
    exact (leads_pushTransaction trx).weaken (fun _ h => h) (fun _ _ h => .inr h) fun _ h => h
  | validateTransaction trx => exact leads_validateTransaction trx
  | generateBlock q => exact leads_generateBlock q
  | clearPending =>
    exact leads_clearPending.weaken (fun _ h => h) (fun _ _ h => .inl h) fun _ h => h
  | popBlock => exact leads_popBlock.weaken (fun _ h => h) (fun _ _ h => .inl h) fun _ h => .inl h
  | applyInSession b => exact leads_bind leads_clearPending fun _ => hidle (leads_applyInSession b)

/-- **Whole runs.** -/
theorem ready_runCalls (calls : List (Call Op R)) : ∀ {s : Node Op R}, Ready s →
    (runCalls P Q s calls).Fine → Ready (runCalls P Q s calls) := by
  induction calls with
  | nil =>
    intro s hs _
    exact hs
  | cons call calls ih =>
    intro s hs hf
    have hkeeps : ∀ (calls : List (Call Op R)) (s : Node Op R), (runCalls P Q s calls).Fine →
        s.Fine := by
      intro calls
      induction calls with
      | nil => exact fun _ h => h
      | cons call calls ih => exact fun s h => (leads_run call).keeps s (ih _ h)
    exact ih ((leads_run call).final hs (fun _ _ h => h) (hkeeps calls _ hf)) hf

/-! ### Enough history -/

/-- Pop so many blocks. -/
def popBlocks (Q : Proposals Op R) : ℕ → NodeM Op R Unit
  | 0 => pure ()
  | n + 1 => do
    popBlock Q
    popBlocks Q n

/-- There is a copy for each block above the irreversible one. If the fork database agrees, these
blocks can be popped one after the other, and that brings back the objects before each of them. -/
structure EnoughHistory (Q : Proposals Op R) (s : Node Op R) : Prop where
  saved : s.db.objects.reversible ≤ s.undo.saved.length
  popped : (∀ o, Q.canPop o = true) → ∀ k < s.db.objects.reversible, ∃ b o s',
    s.db.chain[k]? = some (b, o) ∧ popBlocks Q (k + 1) s = .ok () s' ∧ s'.db.objects = o

theorem popBlock_of_saved (hQ : ∀ o, Q.canPop o = true) {s : Node Op R} {o : Objects R}
    {kept : List (Objects R)} (hp : s.pendingSession = false) (hactive : s.undo.active = 0)
    (hsaved : s.undo.saved = o :: kept) (hpre : o :: kept <+: s.db.chain.map Prod.snd) :
    ∃ s' b, popBlock Q s = .ok () s' ∧ s.db.chain = (b, o) :: s'.db.chain ∧ s'.db.objects = o ∧
      s'.undo.saved = kept ∧ s'.undo.active = 0 ∧ s'.pendingSession = false := by
  have hreset : resetPending s = .ok () s := by
    rw [resetPending, get_bind, hp]
    rfl
  obtain ⟨b, c, hchain⟩ : ∃ b c, s.db.chain = (b, o) :: c := by
    cases hchain : s.db.chain with
    | nil =>
      rw [hchain] at hpre
      cases List.prefix_nil.mp hpre
    | cons e c =>
      rw [hchain, List.map_cons, List.cons_prefix_cons] at hpre
      exact ⟨e.1, c, by rw [hpre.1]⟩
  have hpop : s.undo.popCommit = some { s.undo with current := o, saved := kept } := by
    simp [SnapshotStack.popCommit, hsaved, hactive]
  have hhead : popBlock Q s = popHead Q s := by
    change (resetPending >>= fun _ => popHead Q) s = _
    rw [bind_apply, hreset]
  rw [hhead, popHead, get_bind, hchain]
  dsimp only
  unfold assert
  rw [if_pos (hQ _), pure_bind_apply, bind_apply, onDb_undoOp, hpop]
  exact ⟨_, b, rfl, rfl, rfl, rfl, hactive, hp⟩

/-- All blocks with a copy can be popped. -/
theorem popBlocks_of_saved (hQ : ∀ o, Q.canPop o = true) : ∀ (k : ℕ) {s : Node Op R},
    s.pendingSession = false → s.undo.active = 0 → s.undo.saved <+: s.db.chain.map Prod.snd →
    k < s.undo.saved.length → ∃ b o s', s.db.chain[k]? = some (b, o) ∧
      popBlocks Q (k + 1) s = .ok () s' ∧ s'.db.objects = o := by
  intro k
  induction k with
  | zero =>
    intro s hp hactive hpre hlt
    obtain ⟨o, kept, hsaved⟩ := List.exists_cons_of_length_pos hlt
    rw [hsaved] at hpre
    obtain ⟨s', b, hpop, hchain, hobj, -⟩ := popBlock_of_saved hQ hp hactive hsaved hpre
    refine ⟨b, o, s', ?_, ?_, hobj⟩
    · rw [hchain]
      rfl
    · change (popBlock Q >>= fun _ => pure ()) s = _
      rw [bind_apply, hpop]
      rfl
  | succ k ih =>
    intro s hp hactive hpre hlt
    obtain ⟨o, kept, hsaved⟩ := List.exists_cons_of_length_pos (by omega : 0 < s.undo.saved.length)
    rw [hsaved] at hpre
    rw [hsaved, List.length_cons] at hlt
    obtain ⟨s₁, b, hpop, hchain, -, hsaved₁, hactive₁, hp₁⟩ :=
      popBlock_of_saved hQ hp hactive hsaved hpre
    rw [hchain, List.map_cons, List.cons_prefix_cons, ← hsaved₁] at hpre
    obtain ⟨b', o', s', hget, hpops, hobj⟩ := ih hp₁ hactive₁ hpre.2 (by rw [hsaved₁]; omega)
    refine ⟨b', o', s', ?_, ?_, hobj⟩
    · rw [hchain, List.getElem?_cons_succ]
      exact hget
    · change (popBlock Q >>= fun _ => popBlocks Q (k + 1)) s = _
      rw [bind_apply, hpop]
      exact hpops

theorem Idle.enoughHistory {s : Node Op R} (h : Idle s) : EnoughHistory Q s := by
  obtain ⟨c, m, base, -, hw⟩ := h
  obtain ⟨kept, hk, hl⟩ := hw.layered
  have hsaved : s.undo.saved = kept := hl.saved
  have henough : s.db.objects.reversible ≤ s.undo.saved.length := by
    rw [hl.current, hsaved]
    exact hl.enough
  refine ⟨henough, fun hQ k hlt => popBlocks_of_saved hQ k hw.pendingSession hl.active ?_ (by omega)⟩
  rw [hsaved, hw.chain]
  exact hk

/-- A state a run may start in: the head block is irreversible, and no session is open. -/
structure Starts (s : Node Op R) : Prop where
  pendingSession : s.pendingSession = false
  active : s.undo.active = 0
  maxSize : 0 < s.undo.maxSize
  head : s.db.objects.headBlockNumber = s.db.objects.lastIrreversibleBlockNum
  numbered : Numbered s.db.objects s.db.chain
  saved : s.undo.saved <+: s.db.chain.map Prod.snd

theorem Starts.idle {s : Node Op R} (h : Starts s) : Idle s := by
  have hrev : s.db.objects.reversible = 0 := by
    rw [Objects.reversible, h.head, Nat.sub_self]
  refine ⟨s.db.chain, s.undo.maxSize, s.db.objects, h.numbered, rfl, h.pendingSession,
    s.undo.saved, h.saved, rfl, h.active, rfl, rfl, ?_, ?_⟩
  · rw [hrev]
    exact h.maxSize
  · rw [hrev]
    exact Nat.zero_le _

theorem Pending.active {s : Node Op R} (h : Pending s) : s.undo.active = 1 := by
  obtain ⟨c, m, base, -, hw⟩ := h
  obtain ⟨kept, -, hl⟩ := hw.layered
  exact hl.active

/-- **Enough undo history**, in every run in which all was fine. -/
theorem enoughHistory_of_fine {s : Node Op R} (hs : Starts s) (calls : List (Call Op R))
    (hf : (runCalls P Q s calls).Fine) (hactive : (runCalls P Q s calls).undo.active = 0) :
    EnoughHistory Q (runCalls P Q s calls) := by
  rcases ready_runCalls calls (.inl hs.idle) hf with hidle | hpending
  · exact hidle.enoughHistory
  · rw [hpending.active] at hactive
    cases hactive

section Example

/-- The transactions with an operation execute an empty proposal. -/
private def proposing : Proposals ℕ Unit where
  actions _ trx := if trx.operations = [] then .done else .executeProposal .done .done
  expired _ := []
  canPop _ := true

/-- With four witnesses nothing is confirmed by the blocks of one. -/
private def fourWitnesses : Node ℕ Unit where
  db := Database.genesis (Protocol.permissiveGenesis [0, 1, 2, 3])

private def update₁ : Transaction ℕ where
  refBlockNum := 0
  refBlockPrefix := 0
  expiration := 100
  operations := [0]
  signatures := []

private def first₁ : SignedBlock ℕ := .empty .zero 1 1

private def second₂ : SignedBlock ℕ :=
  { SignedBlock.empty (Protocol.permissive.blockId first₁) 2 1 with
    transactionMerkleRoot := 1
    transactions := [update₁] }

private theorem starts_fourWitnesses : Starts fourWitnesses :=
  ⟨rfl, rfl, by decide, rfl, rfl, List.prefix_refl _⟩

theorem enoughHistory_of_fine_two_blocks :
    EnoughHistory proposing (runCalls .permissive proposing fourWitnesses
      [.pushBlock first₁ .extended, .pushBlock second₂ .extended]) :=
  enoughHistory_of_fine starts_fourWitnesses _ (by unfold Fine; decide +kernel) (by decide +kernel)

/-- A transaction with a proposal, pushed while one block is reversible, opens a third session. The
copy of that block is dropped, and when the next block has arrived, one copy is left for two
reversible blocks. -/
theorem not_enoughHistory :
    ¬ ∀ (s : Node ℕ Unit) (calls : List (Call ℕ Unit)), Starts s →
      (runCalls .permissive proposing s calls).undo.active = 0 →
      EnoughHistory proposing (runCalls .permissive proposing s calls) := by
  intro hall
  have henough := (hall fourWitnesses
    [.pushBlock first₁ .extended, .pushTransaction update₁, .pushBlock second₂ .extended]
    starts_fourWitnesses (by decide +kernel)).saved
  exact absurd henough (by decide +kernel)

end Example

end Node

end FinChain.Chain
