import FinChain.Chain.UndoLayers
import FinChain.Chain.BlockView

/-!
# Sessions that leave no trace

What a transaction or a block does to the objects, it does in sessions: proposals are executed in
sessions of their own, which are merged or undone. All of them are closed again, so that in the end
the objects are as if there had been none. This module says what that is: the effect of actions on
the objects alone (`Actions.result`), and with it a protocol whose transactions and blocks open no
sessions (`Proposals.protocol`), so that what is known of chains of blocks applies here too.

For a session to be undone its copy has to be there. A session that is started may drop the oldest
copies, those of the blocks first; the copies of the sessions that are open stay as long as there is
room for them (`Inside`). Proposals do not execute other proposals (`Proposals.Shallow`), so at most
three sessions are ever open, and the bound on the number of copies is never less than two.
-/

namespace FinChain.Chain

open Exec

variable {Op R : Type}

/-! ### Without sessions -/

/-- What actions make of the rest of the objects, if they do not throw. -/
def Actions.result : Actions R → Objects R → Option R
  | .done, o => some o.rest
  | .evaluate f rest, o => (f o).bind fun r => rest.result { o with rest := r }
  -- a proposal that throws has changed nothing
  | .executeProposal body rest, o => rest.result { o with rest := (body.result o).getD o.rest }

/-- The objects after some actions. -/
def Actions.apply (a : Actions R) (o : Objects R) : Option (Objects R) :=
  (a.result o).map fun r => { o with rest := r }

/-- How many sessions actions open inside one another. -/
def Actions.depth : Actions R → ℕ
  | .done => 0
  | .evaluate _ rest => rest.depth
  | .executeProposal body rest => max (body.depth + 1) rest.depth

/-- What is left when a proposal has expired. -/
def ExpiredProposal.finish (p : ExpiredProposal R) (o : Objects R) : R :=
  (p.authorized.bind fun body => body.result o).getD (p.remove o)

/-- `clear_expired_proposals`, without sessions. -/
def Proposals.clearExpired (Q : Proposals Op R) (o : Objects R) : Objects R :=
  (Q.expired o).foldl (fun o p => { o with rest := p.finish o }) o

/-- The protocol in which the proposals are part of the transactions and blocks. -/
def Proposals.protocol (Q : Proposals Op R) (P : Protocol Op R) : Protocol Op R :=
  { P with
    evaluate := fun o trx => (Q.actions o trx).result o
    endOfBlock := fun o b => P.endOfBlock (Q.clearExpired o) b }

/-- The operations of a proposal execute no other proposal. -/
structure Proposals.Shallow (Q : Proposals Op R) : Prop where
  actions : ∀ o trx, (Q.actions o trx).depth ≤ 1
  expired : ∀ o, ∀ p ∈ Q.expired o, ∀ body ∈ p.authorized, body.depth = 0

/-- `_apply_transaction`, as a function of the objects. -/
def Protocol.result (P : Protocol Op R) (o : Objects R) (trx : Transaction Op) :
    Option (Objects R) :=
  if P.trxId trx ∉ o.transactions.map Prod.fst ∧ P.acceptable o trx = true ∧
      Database.notExpired o trx then
    let o' := { o with transactions := (P.trxId trx, trx.expiration) :: o.transactions }
    (P.evaluate o' trx).map fun r => { o' with rest := r }
  else none

/-- A transaction that is applied has passed the checks, and is in the index afterwards. -/
theorem Protocol.result_eq_some {P : Protocol Op R} {o o' : Objects R} {trx : Transaction Op}
    (h : P.result o trx = some o') :
    P.trxId trx ∉ o.transactions.map Prod.fst ∧ Database.notExpired o trx ∧ ∃ r, o' =
      { o with transactions := (P.trxId trx, trx.expiration) :: o.transactions, rest := r } := by
  unfold result at h
  split at h
  · next hallowed =>
    obtain ⟨r, -, rfl⟩ := Option.map_eq_some_iff.mp h
    exact ⟨hallowed.1, hallowed.2.2, r, rfl⟩
  · cases h

namespace Node

/-! ### Open sessions -/

/-- The sessions with the copies `inner` are open, over copies of the blocks with the copies `full`.
There is room for `d` more sessions inside. -/
structure Inside (inner full : List (Objects R)) (d : ℕ) (s : Node Op R) : Prop where
  saved : ∃ kept, kept <+: full ∧ s.undo.saved = inner ++ kept
  active : s.undo.active = inner.length
  room : inner.length + d ≤ s.undo.maxSize + 1

variable {inner full : List (Objects R)} {d : ℕ} {o : Objects R} {s : Node Op R}

/-- The state with other sessions. -/
def withUndo (s : Node Op R) (u : SnapshotStack (Objects R)) : Node Op R :=
  { s with db := { s.db with undo := u } }

/-- A session is started; the copies of the others stay. -/
theorem Inside.start (h : Inside inner full (d + 1) s) :
    Inside (s.db.objects :: inner) full d (final startUndoSession s) := by
  obtain ⟨kept, hkept, hsaved⟩ := h.saved
  have hroom := h.room
  refine ⟨⟨kept.take (s.undo.maxSize - inner.length), (List.take_prefix _ _).trans hkept, ?_⟩, ?_, ?_⟩
  · change s.undo.current :: s.undo.saved.take s.undo.maxSize = _
    rw [hsaved, List.take_append, List.take_of_length_le (by omega)]
    rfl
  · change s.undo.active + 1 = _
    rw [h.active, List.length_cons]
  · change (inner.length + 1) + d ≤ s.undo.maxSize + 1
    omega

theorem onDb_undoOp_of_some {op : SnapshotStack (Objects R) → Option (SnapshotStack (Objects R))}
    {u : SnapshotStack (Objects R)} (h : op s.undo = some u) :
    onDb (Database.undoOp op) s = .ok () (s.withUndo u) := by
  rw [onDb_undoOp, h]
  rfl

theorem Inside.merge (h : Inside (o :: inner) full d s) :
    ∃ u, s.undo.merge = some u ∧ u.current = s.db.objects ∧
      Inside inner full (d + 1) (s.withUndo u) := by
  obtain ⟨kept, hkept, hsaved⟩ := h.saved
  have hactive := h.active
  have hroom := h.room
  rw [List.length_cons] at hactive hroom
  have hmerge : s.undo.merge =
      some { s.undo with saved := inner ++ kept, active := inner.length } := by
    unfold SnapshotStack.merge
    rw [hsaved, List.cons_append]
    cases hrest : inner ++ kept with
    | nil =>
      obtain ⟨rfl, rfl⟩ := List.append_eq_nil_iff.mp hrest
      rw [hactive]
      rfl
    | cons i is =>
      rw [hactive]
      rfl
  refine ⟨_, hmerge, rfl, ⟨kept, hkept, rfl⟩, rfl, ?_⟩
  change inner.length + (d + 1) ≤ s.undo.maxSize + 1
  omega

theorem Inside.undo (h : Inside (o :: inner) full d s) :
    ∃ u, s.undo.undo = some u ∧ u.current = o ∧ Inside inner full (d + 1) (s.withUndo u) := by
  obtain ⟨kept, hkept, hsaved⟩ := h.saved
  have hactive := h.active
  have hroom := h.room
  rw [List.length_cons] at hactive hroom
  refine ⟨_, SnapshotStack.undo_of_saved hsaved hactive, rfl, ⟨kept, hkept, rfl⟩, rfl, ?_⟩
  change inner.length + (d + 1) ≤ s.undo.maxSize + 1
  omega

/-- What goes on inside sessions looks at nothing but the objects. -/
theorem Inside.congr {s' : Node Op R} (h : Inside inner full d s)
    (hsaved : s'.undo.saved = s.undo.saved) (hactive : s'.undo.active = s.undo.active)
    (hsize : s'.undo.maxSize = s.undo.maxSize) : Inside inner full d s' := by
  refine ⟨?_, hactive.trans h.active, ?_⟩
  · rw [hsaved]
    exact h.saved
  · rw [hsize]
    exact h.room

/-! ### Programs inside sessions -/

/-- What a program leaves alone that changes objects only. -/
def others (s : Node Op R) :
    VoteBuffers × List (SignedBlock Op × Objects R) × Bool × List (Transaction Op) ×
      List (Transaction Op) :=
  (s.db.buffers, s.db.chain, s.pendingSession, s.pendingTx, s.poppedTx)

/-- Run in this state the program leaves the objects `r` behind, or throws if there are none. -/
def Turns (inner full : List (Objects R)) (d : ℕ) (r : Option (Objects R)) (x : NodeM Op R Unit)
    (s : Node Op R) : Prop :=
  (∃ o s', r = some o ∧ x s = .ok () s' ∧ s'.db.objects = o ∧ Inside inner full d s' ∧
    s'.others = s.others) ∨
  ∃ e s', r = none ∧ x s = .error e s' ∧ Inside inner full d s' ∧ s'.others = s.others

/-- Inside sessions the program does to the objects what `f` does. -/
def Performs (inner full : List (Objects R)) (d : ℕ) (f : Objects R → Option (Objects R))
    (x : NodeM Op R Unit) : Prop :=
  ∀ s, Inside inner full d s → Turns inner full d (f s.db.objects) x s

theorem Turns.congr {r : Option (Objects R)} {x y : NodeM Op R Unit} {s₁ : Node Op R}
    (h : Turns inner full d r y s₁) (hrun : x s = y s₁) (hothers : s₁.others = s.others) :
    Turns inner full d r x s := by
  rcases h with ⟨o, s', hr, hy, ho, h', hothers'⟩ | ⟨e, s', hr, hy, h', hothers'⟩
  · exact .inl ⟨o, s', hr, hrun.trans hy, ho, h', hothers'.trans hothers⟩
  · exact .inr ⟨e, s', hr, hrun.trans hy, h', hothers'.trans hothers⟩

theorem performs_bind {f g : Objects R → Option (Objects R)} {x y : NodeM Op R Unit}
    (hx : Performs inner full d f x) (hy : Performs inner full d g y) :
    Performs inner full d (fun o => (f o).bind g) (x >>= fun _ => y) := by
  intro s hs
  change Turns inner full d ((f s.db.objects).bind g) _ s
  rcases hx s hs with ⟨o, s₁, hf, hrun, rfl, h₁, hothers⟩ | ⟨e, s₁, hf, hrun, h₁, hothers⟩
  · rw [hf, Option.bind_some]
    exact (hy s₁ h₁).congr (by rw [bind_apply, hrun]) hothers
  · rw [hf, Option.bind_none]
    exact .inr ⟨e, s₁, rfl, by rw [bind_apply, hrun], h₁, hothers⟩

/-- A session of its own: the program throws as if it had not been started. -/
theorem merging_cases {f : Objects R → Option (Objects R)} {x : NodeM Op R Unit}
    (hx : ∀ o, Performs (o :: inner) full d f x) (hs : Inside inner full (d + 1) s) :
    (∃ o s', f s.db.objects = some o ∧ merging x s = .ok () s' ∧ s'.db.objects = o ∧
      Inside inner full (d + 1) s' ∧ s'.others = s.others) ∨
    ∃ e s', f s.db.objects = none ∧ merging x s = .error e s' ∧ s'.db.objects = s.db.objects ∧
      Inside inner full (d + 1) s' ∧ s'.others = s.others := by
  have hrun : merging x s = (tryCatch (x >>= fun _ => onDb (Database.undoOp SnapshotStack.merge))
      fun e => onDb (Database.undoOp SnapshotStack.undo) >>= fun _ => throw e : NodeM Op R Unit)
        (final startUndoSession s) := rfl
  rw [hrun, tryCatch_apply, bind_apply]
  rcases hx _ _ hs.start with ⟨o, s₁, hf, hrun₁, ho, h₁, hothers⟩ | ⟨e, s₁, hf, hrun₁, h₁, hothers⟩
  · obtain ⟨u, hmerge, hu, h'⟩ := h₁.merge
    simp only [hrun₁, onDb_undoOp_of_some hmerge]
    exact .inl ⟨o, _, hf, rfl, hu.trans ho, h', hothers⟩
  · obtain ⟨u, hundo, hu, h'⟩ := h₁.undo
    simp only [hrun₁, bind_apply, onDb_undoOp_of_some hundo]
    exact .inr ⟨e, _, hf, rfl, hu, h', hothers⟩

/-- What may fail in a session of its own. -/
theorem performs_attempt {f : Objects R → Option (Objects R)} {x : NodeM Op R Unit}
    (hx : ∀ o, Performs (o :: inner) full d f x) :
    Performs inner full (d + 1) (fun o => some ((f o).getD o))
      (tryCatch (merging x) fun _ => pure ()) := by
  intro s hs
  left
  rw [tryCatch_apply]
  rcases merging_cases hx hs with ⟨o, s', hf, hrun, ho, h'⟩ | ⟨e, s', hf, hrun, ho, h'⟩
  · simp only [hf, hrun]
    exact ⟨o, s', rfl, rfl, ho, h'⟩
  · simp only [hf, hrun]
    exact ⟨_, s', rfl, rfl, ho, h'⟩

theorem performs_modifyRest (f : Objects R → Option R) :
    Performs inner full d (fun o => (f o).map fun r => { o with rest := r })
      (onDb (Database.modifyRest f : DatabaseM Op R Unit)) := by
  intro s hs
  change Turns inner full d ((f s.db.objects).map _) _ s
  cases hf : f s.db.objects with
  | none =>
    have hrun : onDb (Database.modifyRest f) s = .error .assertion s := by
      unfold onDb Database.modifyRest
      rw [get_bind, hf]
      rfl
    exact .inr ⟨.assertion, s, rfl, hrun, hs, rfl⟩
  | some r =>
    have hrun : onDb (Database.modifyRest f) s =
        onDb (Database.modifyObjects fun o => { o with rest := r }) s := by
      unfold onDb Database.modifyRest
      rw [get_bind, hf]
    exact .inl ⟨_, _, rfl, hrun, rfl, hs.congr rfl rfl rfl, rfl⟩

/-! ### Transactions -/

/-- **Actions** do what they do without sessions. -/
theorem performs_runActions : ∀ (a : Actions R) {inner : List (Objects R)} {d : ℕ}, a.depth ≤ d →
    Performs inner full d a.apply (runActions a : NodeM Op R Unit)
  | .done, _, _, _ => fun s hs => .inl ⟨s.db.objects, s, rfl, rfl, rfl, hs, rfl⟩
  | .evaluate f rest, inner, d, hd => by
    have heq : (Actions.evaluate f rest).apply =
        fun o => ((f o).map fun r => { o with rest := r }).bind rest.apply := by
      funext o
      unfold Actions.apply
      rw [Actions.result]
      cases f o with
      | none => rfl
      | some r => rfl
    rw [heq]
    exact performs_bind (performs_modifyRest f) (performs_runActions rest hd)
  | .executeProposal body rest, inner, d, hd => by
    have heq : (Actions.executeProposal body rest).apply =
        fun o => (some ((body.apply o).getD o)).bind rest.apply := by
      funext o
      unfold Actions.apply
      rw [Actions.result]
      cases body.result o with
      | none => rfl
      | some r => rfl
    obtain ⟨hbody, hrest⟩ := Nat.max_le.mp hd
    obtain ⟨d, rfl⟩ := Nat.exists_eq_add_of_le' (Nat.le_of_add_left_le hbody)
    rw [heq]
    exact performs_bind (performs_attempt fun o => performs_runActions body (Nat.le_of_succ_le_succ hbody))
      (performs_runActions rest hrest)

variable {P : Protocol Op R} {Q : Proposals Op R}

theorem performs_applyTransaction (hQ : Q.Shallow) (hd : 1 ≤ d) (trx : Transaction Op) :
    Performs inner full d (fun o => (Q.protocol P).result o trx) (applyTransaction P Q trx) := by
  intro s hs
  have hrun : applyTransaction P Q trx s = (do
      assert .assertion (P.trxId trx ∉ s.db.objects.transactions.map Prod.fst ∧
        P.acceptable s.db.objects trx = true ∧ Database.notExpired s.db.objects trx)
      onDb (Database.modifyObjects fun o =>
        { o with transactions := (P.trxId trx, trx.expiration) :: o.transactions })
      let s ← get
      runActions (Q.actions s.db.objects trx) : NodeM Op R Unit) s := by
    rw [← assert_bind_assert, ← assert_bind_assert]
    rfl
  change Turns inner full d ((Q.protocol P).result s.db.objects trx) _ s
  unfold assert at hrun
  by_cases hallowed : P.trxId trx ∉ s.db.objects.transactions.map Prod.fst ∧
      P.acceptable s.db.objects trx = true ∧ Database.notExpired s.db.objects trx
  · -- the transaction is in the index when its operations are applied
    rw [if_pos hallowed] at hrun
    have hresult : (Q.protocol P).result s.db.objects trx = _ := if_pos hallowed
    rw [hresult]
    let o := { s.db.objects with
      transactions := (P.trxId trx, trx.expiration) :: s.db.objects.transactions }
    have hperforms : Performs inner full d (Q.actions o trx).apply
        (runActions (Q.actions o trx) : NodeM Op R Unit) :=
      performs_runActions (Q.actions o trx) ((hQ.actions o trx).trans hd)
    have hactions := hperforms { s with db := s.db.withObjects o } (hs.congr rfl rfl rfl)
    exact hactions.congr hrun rfl
  · rw [if_neg hallowed] at hrun
    exact .inr ⟨.assertion, s, if_neg hallowed, hrun, hs, rfl⟩

/-! ### Expired proposals -/

/-- The proposal is removed when it was not executed. -/
theorem clearExpiredProposal_of_not_executed {p : ExpiredProposal R} {s₁ : Node Op R}
    (hs : Inside inner full d s₁) (hrun : executeExpired p s = .ok false s₁)
    (hobjects : s₁.db.objects = s.db.objects) (hothers : s₁.others = s.others) :
    Turns inner full d (some { s.db.objects with rest := p.remove s.db.objects })
      (clearExpiredProposal p) s := by
  let o := { s₁.db.objects with rest := p.remove s₁.db.objects }
  refine .inl ⟨_, { s₁ with db := s₁.db.withObjects o }, rfl, ?_, ?_, hs.congr rfl rfl rfl, hothers⟩
  · unfold clearExpiredProposal
    rw [bind_apply, hrun]
    rfl
  · change o = _
    rw [← hobjects]

theorem performs_clearExpiredProposal {p : ExpiredProposal R} (hd : 1 ≤ d)
    (hp : ∀ body ∈ p.authorized, body.depth = 0) :
    Performs inner full d (fun o => some { o with rest := p.finish o })
      (clearExpiredProposal p : NodeM Op R Unit) := by
  intro s hs
  obtain ⟨d, rfl⟩ := Nat.exists_eq_add_of_le' hd
  change Turns inner full (d + 1) (some { s.db.objects with rest := p.finish s.db.objects }) _ s
  unfold ExpiredProposal.finish
  cases hbody : p.authorized with
  | none =>
    refine clearExpiredProposal_of_not_executed hs ?_ rfl rfl
    unfold executeExpired
    rw [hbody]
    rfl
  | some body =>
    have hexecute : executeExpired p s = (tryCatch (merging (runActions body) >>= fun _ => pure true)
        fun _ => pure false : NodeM Op R Bool) s := by
      unfold executeExpired
      rw [hbody]
    rw [tryCatch_apply, bind_apply] at hexecute
    have hperforms : ∀ o, Performs (o :: inner) full d body.apply (runActions body : NodeM Op R Unit) :=
      fun o => performs_runActions body ((hp body hbody).trans_le (Nat.zero_le d))
    have hmerging := merging_cases hperforms hs
    rw [Option.bind_some]
    rcases hmerging with ⟨o, s', hf, hrun, ho, h', hothers⟩ | ⟨e, s', hf, hrun, ho, h', hothers⟩
    · obtain ⟨r, hr, rfl⟩ := Option.map_eq_some_iff.mp hf
      rw [hrun] at hexecute
      rw [hr]
      refine .inl ⟨_, s', rfl, ?_, ho, h', hothers⟩
      unfold clearExpiredProposal
      rw [bind_apply, hexecute]
      rfl
    · rw [hrun] at hexecute
      rw [Option.map_eq_none_iff.mp hf]
      exact clearExpiredProposal_of_not_executed h' hexecute ho hothers

/-- **The proposals that have expired.** -/
theorem performs_clearExpiredProposals (hQ : Q.Shallow) (hd : 1 ≤ d) :
    Performs inner full d (fun o => some (Q.clearExpired o)) (clearExpiredProposals Q : NodeM Op R Unit) := by
  have hall : ∀ (l : List (ExpiredProposal R)), (∀ p ∈ l, ∀ body ∈ p.authorized, body.depth = 0) →
      Performs inner full d (fun o => some (l.foldl (fun o p => { o with rest := p.finish o }) o))
        (l.forM clearExpiredProposal : NodeM Op R Unit) := by
    intro l
    induction l with
    | nil => exact fun _ s hs => .inl ⟨s.db.objects, s, rfl, rfl, rfl, hs, rfl⟩
    | cons p l ih =>
      intro hl
      change Performs inner full d _ (clearExpiredProposal p >>= fun _ => l.forM clearExpiredProposal)
      exact performs_bind (performs_clearExpiredProposal hd (hl p List.mem_cons_self))
        (ih fun p hp => hl p (List.mem_cons_of_mem _ hp))
  intro s hs
  exact (hall (Q.expired s.db.objects) (hQ.expired _) s hs).congr rfl rfl

end Node

end FinChain.Chain
