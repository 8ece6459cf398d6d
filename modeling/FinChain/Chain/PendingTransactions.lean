import FinChain.Chain.AheadOfHead
import FinChain.Chain.Replay

/-!
# Pending transactions survive a block

`push_block` takes the pending transactions off before it touches the chain. When it returns or throws,
the destructor of `pending_transactions_restorer` pushes transactions again: those of the blocks that
were popped, which `_popped_tx` has in the order of the chain, and then those that were pending before.
A transaction that is known by now is passed over, and so is one that does not apply any more.

`Protocol.kept` is this choice as a function of the objects of the head block. The run of the destructor
computes it (`OnTop.repushAll`), through all the sessions it opens and merges. Then the pending
transactions are distinct, since each is known to those after it, and none of them is in the chain, since
what is in the chain is known or has expired (`pendingTx_of_pushBlock`).
-/

namespace FinChain.Chain

open Exec

variable {Op R : Type}

/-! ### What is kept -/

/-- The transactions of a list that are kept when they are pushed one after the other, and the objects
in the end. -/
def Protocol.kept (P : Protocol Op R) :
    Objects R → List (Transaction Op) → List (Transaction Op) × Objects R
  | o, [] => ([], o)
  | o, trx :: trxs =>
    if P.trxId trx ∈ o.transactions.map Prod.fst then P.kept o trxs
    else
      match P.result o trx with
      | none => P.kept o trxs
      | some o' => (trx :: (P.kept o' trxs).1, (P.kept o' trxs).2)

section Kept

variable {P : Protocol Op R} {g o : Objects R} {trx : Transaction Op} {l : List (Transaction Op)}

theorem Protocol.kept_of_known (h : P.trxId trx ∈ o.transactions.map Prod.fst) :
    P.kept o (trx :: l) = P.kept o l := by
  rw [kept, if_pos h]

theorem Protocol.kept_of_none (h : P.result o trx = none) :
    P.kept o (trx :: l) = P.kept o l := by
  rw [kept, h]
  split
  · rfl
  · rfl

theorem Protocol.kept_of_some {o' : Objects R} (h : P.result o trx = some o') :
    P.kept o (trx :: l) = (trx :: (P.kept o' l).1, (P.kept o' l).2) := by
  obtain ⟨hunknown, -⟩ := result_eq_some h
  rw [kept, if_neg hunknown, h]

theorem Protocol.kept_append (P : Protocol Op R) (l₂ : List (Transaction Op)) :
    ∀ (o : Objects R) (l₁ : List (Transaction Op)), P.kept o (l₁ ++ l₂) =
      ((P.kept o l₁).1 ++ (P.kept (P.kept o l₁).2 l₂).1, (P.kept (P.kept o l₁).2 l₂).2)
  | o, [] => rfl
  | o, trx :: l₁ => by
    rw [List.cons_append]
    by_cases hknown : P.trxId trx ∈ o.transactions.map Prod.fst
    · rw [kept_of_known hknown, kept_of_known hknown]
      exact kept_append P l₂ o l₁
    · cases hresult : P.result o trx with
      | none =>
        rw [kept_of_none hresult, kept_of_none hresult]
        exact kept_append P l₂ o l₁
      | some o' =>
        rw [kept_of_some hresult, kept_of_some hresult, kept_append P l₂ o' l₁]
        rfl

/-- What is kept is distinct, was unknown, and has not expired. -/
theorem Protocol.kept_distinct (P : Protocol Op R) :
    ∀ (o : Objects R) (l : List (Transaction Op)), ((P.kept o l).1.map P.trxId).Nodup ∧
      ∀ trx ∈ (P.kept o l).1, P.trxId trx ∉ o.transactions.map Prod.fst ∧ Database.notExpired o trx
  | _, [] => ⟨List.nodup_nil, fun _ h => by cases h⟩
  | o, trx :: l => by
    cases hresult : P.result o trx with
    | none =>
      rw [kept_of_none hresult]
      exact kept_distinct P o l
    | some o' =>
      rw [kept_of_some hresult]
      obtain ⟨hunknown, hlive, r, rfl⟩ := result_eq_some hresult
      obtain ⟨hnodup, hall⟩ := kept_distinct P _ l
      refine ⟨?_, ?_⟩
      · rw [List.map_cons, List.nodup_cons]
        refine ⟨fun hmem => ?_, hnodup⟩
        obtain ⟨trx', hkept, heq⟩ := List.mem_map.mp hmem
        exact (hall trx' hkept).1 (by rw [heq]; exact List.mem_cons_self)
      · intro trx' hmem
        rcases List.mem_cons.mp hmem with rfl | hkept
        · exact ⟨hunknown, hlive⟩
        · exact ⟨fun hknown => (hall trx' hkept).1 (List.mem_cons_of_mem _ hknown), (hall trx' hkept).2⟩

/-- A transaction that is unknown at the head and has not expired is not in the chain. -/
theorem Applied.notMem_trxs (hg : Genesis g) (hid : HashesExpiration P)
    {chain : List (SignedBlock Op × Objects R)} (h : Applied P g chain o)
    (hunknown : P.trxId trx ∉ o.transactions.map Prod.fst) (hlive : Database.notExpired o trx) :
    P.trxId trx ∉ (trxs chain).map P.trxId := by
  intro hmem
  obtain ⟨trx', hmem', heq⟩ := List.mem_map.mp hmem
  have hlength := (h.headBlockNumber hg).1
  -- there is a block, so that the expiration was checked
  have hexpiration : o.time ≤ trx'.expiration := by
    rw [hid trx' trx heq]
    rcases Nat.eq_zero_or_pos o.headBlockNumber with hzero | hpos
    · rw [hzero] at hlength
      rw [List.length_eq_zero_iff.mp hlength.symm] at hmem'
      exact absurd hmem' List.not_mem_nil
    · exact (hlive hpos).2
  have hknown := (h.remembered hg hid).mem_index hmem' hexpiration
  rw [heq] at hknown
  exact hunknown hknown

end Kept

namespace Node

variable {P : Protocol Op R} {Q : Proposals Op R} {g base : Objects R} {s s' : Node Op R}

/-! ### Pushing transactions again -/

/-- What pushing transactions again does: the kept ones are pending, after those that were. -/
structure Repushed (P : Protocol Op R) (Q : Proposals Op R) (g base : Objects R)
    (trxs : List (Transaction Op)) (s s' : Node Op R) : Prop where
  onTop : OnTop P Q g base s'
  objects : s'.db.objects = ((Q.protocol P).kept s.db.objects trxs).2
  pendingTx : s'.pendingTx = s.pendingTx ++ ((Q.protocol P).kept s.db.objects trxs).1
  poppedTx : s'.poppedTx = s.poppedTx
  chain : s'.db.chain = s.db.chain

theorem Repushed.nil (h : OnTop P Q g base s) : Repushed P Q g base [] s s :=
  ⟨h, rfl, (List.append_nil _).symm, rfl, rfl⟩

theorem Repushed.append {l₁ l₂ : List (Transaction Op)} {s₁ : Node Op R}
    (h₁ : Repushed P Q g base l₁ s s₁) (h₂ : Repushed P Q g base l₂ s₁ s') :
    Repushed P Q g base (l₁ ++ l₂) s s' := by
  have hobjects := h₂.objects
  have hpending := h₂.pendingTx
  rw [h₁.objects] at hobjects hpending
  rw [h₁.pendingTx] at hpending
  refine ⟨h₂.onTop, ?_, ?_, h₂.poppedTx.trans h₁.poppedTx, h₂.chain.trans h₁.chain⟩
  · rw [Protocol.kept_append]
    exact hobjects
  · rw [Protocol.kept_append, ← List.append_assoc]
    exact hpending

theorem OnTop.repush (hQ : Q.Shallow) (trx : Transaction Op) (h : OnTop P Q g base s) :
    ∃ s', repush P Q trx s = .ok () s' ∧ Repushed P Q g base [trx] s s' := by
  unfold Node.repush
  rw [get_bind]
  by_cases hknown : s.isKnownTransaction P trx
  · rw [if_pos hknown]
    have hkept : (Q.protocol P).kept s.db.objects [trx] = _ := Protocol.kept_of_known hknown
    refine ⟨s, rfl, h, ?_, ?_, rfl, rfl⟩
    · rw [hkept]
      rfl
    · rw [hkept]
      exact (List.append_nil _).symm
  · rw [if_neg hknown, tryCatch_apply]
    rcases h.pushTransaction hQ trx with
      ⟨o, s', ho, hpush, rfl, h', hlists, hchain⟩ | ⟨e, s', ho, hpush, hobjects, h', hlists, hchain⟩
    · rw [hpush]
      have hkept : (Q.protocol P).kept s.db.objects [trx] = _ := Protocol.kept_of_some ho
      refine ⟨s', rfl, .inr h', ?_, ?_, congrArg Prod.snd hlists, hchain⟩
      · rw [hkept]
        rfl
      · rw [hkept]
        exact congrArg Prod.fst hlists
    · rw [hpush]
      have hkept : (Q.protocol P).kept s.db.objects [trx] = _ := Protocol.kept_of_none ho
      refine ⟨s', rfl, .inr h', ?_, ?_, congrArg Prod.snd hlists, hchain⟩
      · rw [hkept]
        exact hobjects
      · rw [hkept]
        exact (congrArg Prod.fst hlists).trans (List.append_nil _).symm

/-- **The transactions of a list** are pushed again. -/
theorem OnTop.repushAll (hQ : Q.Shallow) : ∀ (trxs : List (Transaction Op)) {s : Node Op R},
    OnTop P Q g base s → ∃ s', trxs.forM (Node.repush P Q) s = .ok () s' ∧
      Repushed P Q g base trxs s s'
  | [], s, h => ⟨s, rfl, .nil h⟩
  | trx :: trxs, s, h => by
    obtain ⟨s₁, hrun₁, h₁⟩ := h.repush hQ trx
    obtain ⟨s', hrun', h'⟩ := h₁.onTop.repushAll hQ trxs
    have hrun : (trx :: trxs).forM (Node.repush P Q) s =
        (Node.repush P Q trx >>= fun _ => trxs.forM (Node.repush P Q)) s := rfl
    refine ⟨s', ?_, h₁.append h'⟩
    rw [hrun, bind_apply, hrun₁]
    exact hrun'

/-- **The destructor of the restorer**: the popped transactions come first. -/
theorem AtHead.restorePending (hQ : Q.Shallow) (pending : List (Transaction Op)) (h : AtHead P Q g s)
    (hnone : s.pendingTx = []) : ∃ s', restorePending P Q pending s = .ok () s' ∧
      OnTop P Q g s.db.objects s' ∧
      (s'.pendingTx, s'.db.objects) = (Q.protocol P).kept s.db.objects (s.poppedTx ++ pending) ∧
      s'.poppedTx = [] ∧ s'.db.chain = s.db.chain := by
  have hstart : OnTop P Q g s.db.objects s := .inl ⟨h, rfl⟩
  obtain ⟨s₁, hrun₁, h₁⟩ := hstart.repushAll hQ s.poppedTx
  -- the list of popped transactions is cleared in between
  have h₂ : OnTop P Q g s.db.objects { s₁ with poppedTx := [] } := by
    rcases h₁.onTop with ⟨hhead, hobjects⟩ | hahead
    · exact .inl ⟨⟨hhead.applied, hhead.pendingSession, hhead.inside.congr rfl rfl rfl⟩, hobjects⟩
    · exact .inr ⟨hahead.applied, hahead.pendingSession, hahead.inside.congr rfl rfl rfl⟩
  obtain ⟨s', hrun', h'⟩ := h₂.repushAll hQ pending
  have hboth := (Repushed.append ⟨h₂, h₁.objects, h₁.pendingTx, rfl, h₁.chain⟩ h' :
    Repushed P Q g s.db.objects (s.poppedTx ++ pending) { s with poppedTx := [] } s')
  refine ⟨s', ?_, hboth.onTop, ?_, hboth.poppedTx, hboth.chain⟩
  · unfold Node.restorePending
    rw [get_bind, bind_apply, hrun₁]
    exact hrun'
  · have hpending : s'.pendingTx =
        s.pendingTx ++ ((Q.protocol P).kept s.db.objects (s.poppedTx ++ pending)).1 := hboth.pendingTx
    rw [hnone, List.nil_append] at hpending
    exact Prod.ext hpending hboth.objects

/-! ### Blocks that are popped -/

/-- What `_push_block` is made of: it pops blocks, and applies blocks in sessions. The list has the
blocks that were popped, the last one first, which is the order of the chain. -/
inductive PushRun (P : Protocol Op R) (Q : Proposals Op R) (s : Node Op R) :
    List (SignedBlock Op) → Node Op R → Prop
  | refl : PushRun P Q s [] s
  | popped {blocks : List (SignedBlock Op)} {s₁ s₂ : Node Op R} {b : SignedBlock Op} {o : Objects R}
      (h : PushRun P Q s blocks s₁) (hrun : popBlock Q s₁ = .ok () s₂)
      (hchain : s₁.db.chain = (b, o) :: s₂.db.chain) : PushRun P Q s (b :: blocks) s₂
  /-- There are no copies left, or the fork database does not have the block. -/
  | notPopped {blocks : List (SignedBlock Op)} {s₁ s₂ : Node Op R} {e : ChainError}
      (h : PushRun P Q s blocks s₁) (hrun : popBlock Q s₁ = .error e s₂) : PushRun P Q s blocks s₂
  | applied {blocks : List (SignedBlock Op)} {s₁ : Node Op R} (h : PushRun P Q s blocks s₁)
      (b : SignedBlock Op) : PushRun P Q s blocks (final (applyInSession P Q b) s₁)

theorem PushRun.trans {blocks blocks' : List (SignedBlock Op)} {s₁ s₂ : Node Op R}
    (h : PushRun P Q s blocks s₁) (h' : PushRun P Q s₁ blocks' s₂) :
    PushRun P Q s (blocks' ++ blocks) s₂ := by
  induction h' with
  | refl => exact h
  | popped _ hrun hchain ih => exact ih.popped hrun hchain
  | notPopped _ hrun ih => exact ih.notPopped hrun
  | applied _ b ih => exact ih.applied b

/-- The node is at its head again, and `_popped_tx` has the transactions of the popped blocks. -/
def Pushes (P : Protocol Op R) (Q : Proposals Op R) (g : Objects R) (s s' : Node Op R) : Prop :=
  AtHead P Q g s → AtHead P Q g s' ∧ s'.pendingTx = s.pendingTx ∧ ∃ blocks, PushRun P Q s blocks s' ∧
    s'.poppedTx = blocks.flatMap SignedBlock.transactions ++ s.poppedTx

theorem Pushes.frame : Frame (Pushes P Q g) where
  refl _ h := ⟨h, rfl, [], .refl, rfl⟩
  trans {s₁ s₂ s₃} h₁ h₂ h := by
    obtain ⟨hs₂, hpending₂, blocks, hrun, hpopped⟩ := h₁ h
    obtain ⟨hs₃, hpending₃, blocks', hrun', hpopped'⟩ := h₂ hs₂
    refine ⟨hs₃, hpending₃.trans hpending₂, blocks' ++ blocks, hrun.trans hrun', ?_⟩
    rw [hpopped', hpopped, List.flatMap_append, List.append_assoc]

theorem keeps_pushes_applyInSession (hg : Unconfirmed g) (hQ : Q.Shallow) (b : SignedBlock Op) :
    Keeps (Pushes P Q g) (applyInSession P Q b) := by
  intro s h
  obtain ⟨h', hlists⟩ := h.applyInSession hg hQ b
  exact ⟨h', congrArg Prod.fst hlists, [], PushRun.refl.applied b, congrArg Prod.snd hlists⟩

theorem keeps_pushes_popBlock : Keeps (Pushes P Q g) (popBlock Q) := by
  intro s h
  rcases Between.popBlock (.inl h) with ⟨b, s', hrun, hpopped⟩ | ⟨e, s', hrun, h', hlists⟩
  · obtain ⟨o, hchain⟩ := hpopped.chain
    rw [final_of_ok hrun]
    refine ⟨hpopped.atHead, hpopped.pendingTx, [b], PushRun.refl.popped hrun hchain, ?_⟩
    rw [hpopped.poppedTx, List.flatMap_singleton]
  · rw [final_of_error hrun]
    exact ⟨h', congrArg Prod.fst hlists, [], PushRun.refl.notPopped hrun, congrArg Prod.snd hlists⟩

theorem keeps_pushes_popUntil (id : BlockId) :
    ∀ fuel : ℕ, Keeps (Pushes P Q g) (popUntil Q id fuel)
  | 0 => Pushes.frame.keeps_bind Pushes.frame.keeps_get fun _ => Pushes.frame.keeps_assert _ _
  | fuel + 1 => by
    refine Pushes.frame.keeps_bind Pushes.frame.keeps_get fun s => ?_
    split
    · exact Pushes.frame.keeps_pure ()
    · exact Pushes.frame.keeps_bind keeps_pushes_popBlock fun _ => keeps_pushes_popUntil id fuel

theorem keeps_pushes_popBlocksTo (id : BlockId) : Keeps (Pushes P Q g) (popBlocksTo Q id) :=
  Pushes.frame.keeps_bind Pushes.frame.keeps_get fun _ => keeps_pushes_popUntil id _

/-- **`_push_block`**, whether it returns or throws, with or without a fork switch. -/
theorem keeps_pushes_pushBlockOnly (hg : Unconfirmed g) (hQ : Q.Shallow) (b : SignedBlock Op)
    (choice : ForkChoice Op) : Keeps (Pushes P Q g) (pushBlockOnly P Q b choice) := by
  have hF := @Pushes.frame Op R P Q g
  cases choice with
  | refused e => exact hF.keeps_throw e
  | ignored => exact hF.keeps_pure ()
  | extended => exact keeps_pushes_applyInSession hg hQ b
  | switched newBranch oldBranch =>
    refine hF.keeps_bind (keeps_pushes_popBlocksTo _) fun _ => hF.keeps_forM (fun b =>
      hF.keeps_tryCatch (keeps_pushes_applyInSession hg hQ b) fun e => ?_) _
    exact hF.keeps_bind (keeps_pushes_popBlocksTo _) fun _ => hF.keeps_bind
      (hF.keeps_forM (keeps_pushes_applyInSession hg hQ) _) fun _ => hF.keeps_throw _

/-! ### Calls -/

/-- The constructor of the restorer. -/
theorem Between.clearPending (h : Between P Q g s) : ∃ s', clearPending s = .ok () s' ∧
    AtHead P Q g s' ∧ s'.pendingTx = [] ∧ s'.poppedTx = s.poppedTx := by
  have hcleared : Between P Q g { s with pendingTx := [] } := by
    rcases h with h | ⟨base, h⟩
    · exact .inl ⟨h.applied, h.pendingSession, h.inside.congr rfl rfl rfl⟩
    · exact .inr ⟨base, h.applied, h.pendingSession, h.inside.congr rfl rfl rfl⟩
  obtain ⟨s', hrun, h', hlists, -⟩ := hcleared.resetPending
  exact ⟨s', hrun, h', congrArg Prod.fst hlists, congrArg Prod.snd hlists⟩

/-- What `push_block` leaves behind, over the objects `head` of the head block after it. -/
structure Restored (P : Protocol Op R) (Q : Proposals Op R) (g head : Objects R)
    (queue : List (Transaction Op)) (s' : Node Op R) : Prop where
  onTop : OnTop P Q g head s'
  kept : (s'.pendingTx, s'.db.objects) = (Q.protocol P).kept head queue
  poppedTx : s'.poppedTx = []

/-- **`push_block`** pushes the popped and the pending transactions again, in any case, and then returns or
throws as `_push_block` does. -/
theorem Between.pushBlock_cases (hg : Unconfirmed g) (hQ : Q.Shallow) (b : SignedBlock Op)
    (choice : ForkChoice Op) (h : Between P Q g s) :
    ∃ s₁ s', s₁ = final (pushBlockOnly P Q b choice) (final Node.clearPending s) ∧
      (∃ blocks, PushRun P Q (final Node.clearPending s) blocks s₁ ∧
        s₁.poppedTx = blocks.flatMap SignedBlock.transactions ++ s.poppedTx) ∧
      Restored P Q g s₁.db.objects (s₁.poppedTx ++ s.pendingTx) s' ∧ s'.db.chain = s₁.db.chain ∧
      ((∃ u, pushBlockOnly P Q b choice (final Node.clearPending s) = .ok u s₁ ∧
          pushBlock P Q b choice s = .ok () s') ∨
        ∃ e, pushBlockOnly P Q b choice (final Node.clearPending s) = .error e s₁ ∧
          pushBlock P Q b choice s = .error e s') := by
  obtain ⟨s₀, hclear, h₀, hpending₀, hpopped₀⟩ := h.clearPending
  rw [final_of_ok hclear]
  have hpushes := keeps_pushes_pushBlockOnly hg hQ b choice s₀ h₀
  obtain ⟨h₁, hpending₁, blocks, hblocks, hpopped₁⟩ := hpushes
  rw [hpending₀] at hpending₁
  rw [hpopped₀] at hpopped₁
  obtain ⟨s', hrestore, honTop, hkept, hpopped', hchain'⟩ :=
    h₁.restorePending hQ s.pendingTx hpending₁
  refine ⟨_, s', rfl, ⟨blocks, hblocks, hpopped₁⟩, ⟨honTop, hkept, hpopped'⟩, hchain', ?_⟩
  have hrun : Node.pushBlock P Q b choice s = (do
      tryCatch (pushBlockOnly P Q b choice) fun e => do
        Node.restorePending P Q s.pendingTx
        throw e
      Node.restorePending P Q s.pendingTx : NodeM Op R Unit) s₀ := by
    unfold Node.pushBlock
    rw [get_bind, bind_apply, hclear]
  rw [bind_apply, tryCatch_apply] at hrun
  cases honly : pushBlockOnly P Q b choice s₀ with
  | ok u s₁ =>
    rw [final_of_ok honly] at hrestore ⊢
    rw [honly] at hrun
    dsimp only at hrun
    rw [hrestore] at hrun
    exact .inl ⟨u, rfl, hrun⟩
  | error e s₁ =>
    rw [final_of_error honly] at hrestore ⊢
    rw [honly] at hrun
    dsimp only at hrun
    rw [bind_apply, hrestore] at hrun
    exact .inr ⟨e, rfl, hrun⟩

theorem Between.pushBlock (hg : Unconfirmed g) (hQ : Q.Shallow) (b : SignedBlock Op)
    (choice : ForkChoice Op) (h : Between P Q g s) :
    ∃ s₁, s₁ = final (pushBlockOnly P Q b choice) (final Node.clearPending s) ∧
      (∃ blocks, PushRun P Q (final Node.clearPending s) blocks s₁ ∧
        s₁.poppedTx = blocks.flatMap SignedBlock.transactions ++ s.poppedTx) ∧
      Restored P Q g s₁.db.objects (s₁.poppedTx ++ s.pendingTx) (final (Node.pushBlock P Q b choice) s) ∧
      (final (Node.pushBlock P Q b choice) s).db.chain = s₁.db.chain := by
  obtain ⟨s₁, s', hs₁, hblocks, hrestored, hchain, ⟨u, -, hrun⟩ | ⟨e, -, hrun⟩⟩ :=
    h.pushBlock_cases hg hQ b choice
  · rw [final_of_ok hrun]
    exact ⟨s₁, hs₁, hblocks, hrestored, hchain⟩
  · rw [final_of_error hrun]
    exact ⟨s₁, hs₁, hblocks, hrestored, hchain⟩

/-! ### Runs -/

/-- The pending transactions do not matter for where the node is. -/
theorem Between.withPending (h : Between P Q g s) (pending : List (Transaction Op)) :
    Between P Q g { s with pendingTx := pending } := by
  rcases h with h | ⟨base, h⟩
  · exact .inl ⟨h.applied, h.pendingSession, h.inside.congr rfl rfl rfl⟩
  · exact .inr ⟨base, h.applied, h.pendingSession, h.inside.congr rfl rfl rfl⟩

/-- **`generate_block`** throws, or pushes its block with the pending transactions still in the list. -/
theorem Between.generateBlock (hg : Unconfirmed g) (hQ : Q.Shallow) (q : BlockRequest Op R)
    (h : Between P Q g s) : Between P Q g (final (generateBlock P Q q) s) := by
  unfold Node.generateBlock final
  rw [get_bind]
  unfold assert
  by_cases hallowed : q.allowed s.db.objects = true
  · obtain ⟨s₁, hreset₁, h₁, -, -⟩ := h.resetPending
    obtain ⟨trxs, s₃, hinclude, h₃⟩ := h₁.startPending.includeTransactions hQ q.fits s.pendingTx []
    obtain ⟨s₄, hreset₄, h₄, -, -⟩ := Between.resetPending (.inr ⟨_, h₃⟩)
    have hstart : startPending s₁ = .ok () (final startPending s₁) := rfl
    rw [if_pos hallowed, pure_bind_apply, bind_apply, hreset₁]
    dsimp only
    rw [bind_apply, hstart]
    dsimp only
    rw [bind_apply, hinclude]
    dsimp only
    rw [bind_apply, hreset₄]
    dsimp only
    rw [get_bind]
    by_cases hfits : q.blockFits trxs = true
    · rw [if_pos hfits, pure_bind_apply]
      obtain ⟨_, -, -, hrestored, -⟩ := Between.pushBlock hg hQ _ q.choice (.inl h₄)
      exact hrestored.onTop.between
    · rw [if_neg hfits]
      exact .inl h₄
  · rw [if_neg hallowed]
    exact h

/-- **Every call** leaves the node at its head or with its pending transactions ahead of it. -/
theorem Between.call (hg : Unconfirmed g) (hQ : Q.Shallow) (h : Between P Q g s) :
    ∀ c : Call Op R, Between P Q g (final (c.run P Q) s)
  | .pushBlock b choice => by
    obtain ⟨_, -, -, hrestored, -⟩ := h.pushBlock hg hQ b choice
    exact hrestored.onTop.between
  | .pushTransaction trx => by
    obtain ⟨base, honTop⟩ := h.onTop
    rcases honTop.pushTransaction hQ trx with ⟨-, s', -, hrun, -, h', -⟩ | ⟨e, s', -, hrun, -, h', -⟩
    · exact .inr ⟨base, (final_of_ok hrun).symm ▸ h'⟩
    · exact .inr ⟨base, (final_of_error hrun).symm ▸ h'⟩
  | .validateTransaction trx => h.validateTransaction hQ trx
  | .generateBlock q => h.generateBlock hg hQ q
  | .clearPending => by
    obtain ⟨s', hrun, h', -⟩ := h.clearPending
    exact .inl ((final_of_ok hrun).symm ▸ h')
  | .popBlock => by
    rcases h.popBlock with ⟨b, s', hrun, hpopped⟩ | ⟨e, s', hrun, h', -⟩
    · exact .inl ((final_of_ok hrun).symm ▸ hpopped.atHead)
    · exact .inl ((final_of_error hrun).symm ▸ h')
  | .applyInSession b => by
    obtain ⟨s₁, hrun, h₁, -⟩ := h.clearPending
    have hfinal : final ((Call.applyInSession b).run P Q) s = final (Node.applyInSession P Q b) s₁ := by
      change final (Node.clearPending >>= fun _ => Node.applyInSession P Q b) s = _
      unfold final
      rw [bind_apply, hrun]
    rw [hfinal]
    exact .inl (h₁.applyInSession hg hQ b).1

/-- **Between the calls of a run.** -/
theorem between_runCalls (hg : Unconfirmed g) (hQ : Q.Shallow) (calls : List (Call Op R))
    (h : Between P Q g s) : Between P Q g (runCalls P Q s calls) := by
  induction calls generalizing s with
  | nil => exact h
  | cons c calls ih => exact ih (h.call hg hQ c)

/-! ### What is pending after a block -/

/-- The objects of the head block are kept by the outermost session. -/
theorem OnTop.committed (h : OnTop P Q g base s) : s.committed = base := by
  unfold Node.committed
  rcases h with ⟨h, rfl⟩ | h
  · rw [h.inside.active]
    rfl
  · obtain ⟨kept, -, hsaved⟩ := h.inside.saved
    rw [h.inside.active, hsaved]
    rfl

theorem OnTop.applied (h : OnTop P Q g base s) : Applied (Q.protocol P) g s.db.chain base := by
  rcases h with ⟨h, rfl⟩ | h
  · exact h.applied
  · exact h.applied

/-- **Pending transactions survive a block.** Whatever `_push_block` does, what is pending after
`push_block` is what is kept of the transactions of the popped blocks and of the pending ones. They are
applied to the objects of the head block, are distinct, and none is in the chain. -/
theorem pendingTx_of_pushBlock (hg : Unconfirmed g) (hid : HashesExpiration P) (hQ : Q.Shallow)
    (calls : List (Call Op R)) (pending : List (Transaction Op)) (b : SignedBlock Op)
    (choice : ForkChoice Op) {s₁ : Node Op R}
    (hs : s = { runCalls P Q (fresh g) calls with pendingTx := pending })
    (hs₁ : s₁ = final (pushBlockOnly P Q b choice) (final clearPending s))
    (hs' : s' = final (pushBlock P Q b choice) s) :
    (∃ blocks, PushRun P Q (final clearPending s) blocks s₁ ∧
      s₁.poppedTx = blocks.flatMap SignedBlock.transactions ++ s.poppedTx) ∧
    (s'.pendingTx, s'.db.objects) =
      (Q.protocol P).kept s₁.db.objects (s₁.poppedTx ++ pending) ∧
    s'.committed = s₁.db.objects ∧ s'.db.chain = s₁.db.chain ∧ s'.poppedTx = [] ∧
    Applied (Q.protocol P) g s'.db.chain s'.committed ∧
    (s'.pendingTx.map P.trxId).Nodup ∧
    ∀ trx ∈ s'.pendingTx, P.trxId trx ∉ (trxs s'.db.chain).map P.trxId := by
  have hstart : Between P Q g (fresh g) := .inl (atHead_fresh P Q g)
  have hbetween : Between P Q g s := by
    rw [hs]
    exact (between_runCalls hg hQ calls hstart).withPending pending
  have hpending : s.pendingTx = pending := by
    rw [hs]
  obtain ⟨_, rfl, hblocks, hrestored, hchain⟩ := hbetween.pushBlock hg hQ b choice
  rw [← hs₁, ← hs', hpending] at hrestored
  rw [← hs₁] at hblocks hchain
  rw [← hs'] at hchain
  have happlied := hrestored.onTop.applied
  have hcommitted := hrestored.onTop.committed
  have hkept : s'.pendingTx = _ := congrArg Prod.fst hrestored.kept
  obtain ⟨hnodup, hall⟩ := (Q.protocol P).kept_distinct s₁.db.objects (s₁.poppedTx ++ pending)
  refine ⟨hblocks, hrestored.kept, hcommitted, hchain, hrestored.poppedTx, ?_, ?_, fun trx hmem => ?_⟩
  · rw [hcommitted]
    exact happlied
  · rw [hkept]
    exact hnodup
  · rw [hkept] at hmem
    obtain ⟨hunknown, hlive⟩ := hall trx hmem
    exact Applied.notMem_trxs (P := Q.protocol P) hg.toGenesis hid happlied hunknown hlive

section Example

private def effortless : Proposals ℕ Unit where
  actions _ _ := .evaluate (fun _ => some ()) .done
  expired _ := []
  canPop _ := true

private def payment (expiration : ℕ) : Transaction ℕ where
  refBlockNum := 0
  refBlockPrefix := 0
  expiration := expiration
  operations := [1]
  signatures := []

private def common : SignedBlock ℕ := .empty .zero 1 1

private def withPayment (expiration timestamp : ℕ) : SignedBlock ℕ :=
  { SignedBlock.empty (Protocol.permissive.blockId common) timestamp 1 with
    transactionMerkleRoot := 1
    transactions := [payment expiration] }

private def longer : SignedBlock ℕ :=
  .empty (Protocol.permissive.blockId (withPayment 60 3)) 4 1

private def head₄ : Objects Unit := Protocol.permissiveGenesis [0, 1, 2, 3]

private def earlier : List (Call ℕ Unit) :=
  [.pushBlock common .extended, .pushBlock (withPayment 50 2) .extended,
    .pushTransaction (payment 60), .pushTransaction (payment 70)]

private def twoPending : Node ℕ Unit :=
  { runCalls .permissive effortless (fresh head₄) earlier with pendingTx := [payment 60, payment 70] }

private def toLonger : ForkChoice ℕ :=
  .switched [longer, withPayment 60 3] [withPayment 50 2]


/-- In a fork switch one transaction is popped, and of the two that are pending the first is in a block
of the new branch. -/
theorem pendingTx_of_pushBlock_switched :
    (final (pushBlock .permissive effortless longer toLonger) twoPending).pendingTx =
      [payment 50, payment 70] := by
  have hg : Unconfirmed head₄ := ⟨⟨rfl, rfl, rfl⟩, rfl, fun _ => rfl⟩
  have hid : HashesExpiration Protocol.permissive := fun trx trx' h => (Nat.pair_eq_pair.mp h).1
  have hQ : effortless.Shallow := ⟨fun _ _ => Nat.zero_le 1, fun _ _ h => by cases h⟩
  obtain ⟨s₁, hs₁⟩ : ∃ s₁, s₁ = final (pushBlockOnly .permissive effortless longer toLonger)
    (final clearPending twoPending) := ⟨_, rfl⟩
  obtain ⟨s', hs'⟩ : ∃ s', s' = final (pushBlock .permissive effortless longer toLonger) twoPending :=
    ⟨_, rfl⟩
  obtain ⟨-, hkept, -⟩ := pendingTx_of_pushBlock (s := twoPending) hg hid hQ earlier
    [payment 60, payment 70] longer toLonger rfl hs₁ hs'
  have hpending : s'.pendingTx = ((effortless.protocol .permissive).kept s₁.db.objects
    (s₁.poppedTx ++ [payment 60, payment 70])).1 := congrArg Prod.fst hkept
  rw [← hs', hpending, hs₁]
  decide +kernel

end Example

end Node

end FinChain.Chain
