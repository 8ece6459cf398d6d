import FinChain.Chain.InsideSessions
import FinChain.Chain.LastIrreversible

/-!
# Blocks and their sessions

A block that is applied in a session, with proposals that are executed in further sessions inside, does
to the objects what a block of the protocol without sessions does (`simulates_applyBlock`). So the
chains of this model are chains of applied blocks (`Applied`) for the protocol `Proposals.protocol`, and
no transaction is on them twice, and nothing is irreversible beyond the head.

The bound on the number of copies is set in the middle of a block. Because the irreversible block is
below the new head it is two or more, whether the block is applied in the end or not.
-/

namespace FinChain.Chain

open Exec

variable {Op R : Type} {P : Protocol Op R} {Q : Proposals Op R}

/-- Expired proposals change nothing but the rest of the objects. -/
theorem Proposals.clearExpired_eq (Q : Proposals Op R) (o : Objects R) :
    ∃ r, Q.clearExpired o = { o with rest := r } := by
  have hfold : ∀ (l : List (ExpiredProposal R)) (o : Objects R), ∃ r,
      l.foldl (fun o p => { o with rest := p.finish o }) o = { o with rest := r } := by
    intro l
    induction l with
    | nil => exact fun o => ⟨o.rest, rfl⟩
    | cons p l ih => exact fun o => ih { o with rest := p.finish o }
  exact hfold (Q.expired o) o

namespace Database

theorem modifyRest_cases (f : Objects R → Option R) (t : Database Op R) :
    (∃ r, f t.objects = some r ∧
      modifyRest f t = .ok () (t.withObjects { t.objects with rest := r })) ∨
    f t.objects = none ∧ modifyRest f t = .error .assertion t := by
  unfold modifyRest
  rw [get_bind]
  cases hf : f t.objects with
  | none => exact .inr ⟨rfl, rfl⟩
  | some r => exact .inl ⟨r, rfl, rfl⟩

/-- `_apply_transaction` changes the objects as its function says. -/
theorem applyTransaction_cases (trx : Transaction Op) (t : Database Op R) :
    (∃ o, P.result t.objects trx = some o ∧ applyTransaction P trx t = .ok () (t.withObjects o)) ∨
      ∃ e t', P.result t.objects trx = none ∧ applyTransaction P trx t = .error e t' := by
  have hrun : applyTransaction P trx t = (do
      assert .assertion (P.trxId trx ∉ t.objects.transactions.map Prod.fst ∧
        P.acceptable t.objects trx = true ∧ notExpired t.objects trx)
      modifyObjects fun o =>
        { o with transactions := (P.trxId trx, trx.expiration) :: o.transactions }
      modifyRest fun o => P.evaluate o trx : DatabaseM Op R Unit) t := by
    rw [← assert_bind_assert, ← assert_bind_assert]
    rfl
  unfold assert at hrun
  by_cases hallowed : P.trxId trx ∉ t.objects.transactions.map Prod.fst ∧
      P.acceptable t.objects trx = true ∧ notExpired t.objects trx
  · rw [if_pos hallowed] at hrun
    have hresult : P.result t.objects trx = _ := if_pos hallowed
    rw [hresult]
    let o := { t.objects with transactions := (P.trxId trx, trx.expiration) :: t.objects.transactions }
    rcases modifyRest_cases (fun o => P.evaluate o trx) (t.withObjects o) with
      ⟨r, hr, hrest⟩ | ⟨hr, hrest⟩
    · exact .inl ⟨_, Option.map_eq_some_iff.mpr ⟨r, hr, rfl⟩, hrun.trans hrest⟩
    · exact .inr ⟨_, _, Option.map_eq_none_iff.mpr hr, hrun.trans hrest⟩
  · rw [if_neg hallowed] at hrun
    exact .inr ⟨.assertion, t, if_neg hallowed, hrun⟩

/-- The copies, the number of open sessions and the bound. -/
def copies (t : Database Op R) : List (Objects R) × ℕ × ℕ :=
  (t.undo.saved, t.undo.active, t.undo.maxSize)

theorem related_maintainIf (n : Bool) (b : SignedBlock Op) :
    Related SameBuffers (maintainIf n P b) (maintainIf n P b) := by
  unfold maintainIf
  split
  · rw [performChainMaintenance_eq]
    exact related_bind related_beginTally fun _ => related_bind related_tallyAccounts fun _ =>
      related_endTally b
  · exact related_pure ()

end Database

namespace Node

open Database (SameBuffers view_sameBuffers)

variable {inner full : List (Objects R)} {d : ℕ} {base : Objects R}

/-! ### A block inside its session -/

/-- The same objects and buffers, inside sessions. -/
def Alike (inner full : List (Objects R)) (d : ℕ) (s : Node Op R) (t : Database Op R) : Prop :=
  SameBuffers s.db t ∧ Inside inner full d s

/-- A function that reads the objects and buffers only, on both databases. -/
theorem onDb_cases {α : Type} {x : DatabaseM Op R α} (hx : Related SameBuffers x x) {s : Node Op R}
    {t : Database Op R} (hst : SameBuffers s.db t) :
    (∃ a t₁ t', onDb x s = .ok a { s with db := t₁ } ∧ x s.db = .ok a t₁ ∧ x t = .ok a t' ∧
      SameBuffers t₁ t') ∨
    ∃ e t₁ t', onDb x s = .error e { s with db := t₁ } ∧ x s.db = .error e t₁ ∧ x t = .error e t' := by
  have hend := hx s.db t hst
  unfold onDb
  cases hrun : x s.db with
  | ok a t₁ =>
    obtain ⟨t', hrun', h'⟩ := (hrun ▸ hend).of_ok
    exact .inl ⟨a, t₁, t', rfl, rfl, hrun', h'⟩
  | error e t₁ =>
    obtain ⟨t', hrun', -⟩ := (hrun ▸ hend).of_error
    exact .inr ⟨e, t₁, t', rfl, rfl, hrun'⟩

/-- What leaves the copies alone, too. -/
theorem simulates_onDb {α : Type} {x : DatabaseM Op R α} (hx : Related SameBuffers x x)
    (hcopies : Keeps (fun t t' : Database Op R => t'.copies = t.copies) x) :
    Simulates (Alike inner full d) (Alike inner full d) (Inside inner full d) (onDb x) x := by
  rintro s t ⟨hst, hs⟩
  have hinside : ∀ t₁, t₁.copies = s.db.copies → Inside inner full d { s with db := t₁ } := by
    intro t₁ hsame
    have hsaved : t₁.undo.saved = s.db.undo.saved := congrArg Prod.fst hsame
    have hactive : t₁.undo.active = s.db.undo.active := congrArg (fun c => c.2.1) hsame
    have hsize : t₁.undo.maxSize = s.db.undo.maxSize := congrArg (fun c => c.2.2) hsame
    exact hs.congr hsaved hactive hsize
  rcases onDb_cases hx hst with ⟨a, t₁, t', hrun, hx', hrun', h'⟩ | ⟨e, t₁, t', hrun, hx', hrun'⟩
  · exact .inl ⟨a, _, t', hrun, hrun', h', hinside t₁ (hcopies.of_ok hx')⟩
  · exact .inr ⟨e, _, e, t', hrun, hrun', hinside t₁ (hcopies.of_error hx')⟩

/-- **A transaction** is a transaction of the protocol without sessions. -/
theorem simulates_applyTransaction (hQ : Q.Shallow) (hd : 1 ≤ d) (trx : Transaction Op) :
    Simulates (Alike inner full d) (Alike inner full d) (Inside inner full d)
      (applyTransaction P Q trx) (Database.applyTransaction (Q.protocol P) trx) := by
  rintro s t ⟨⟨hobjects, hbuffers⟩, hs⟩
  have hperforms : Turns inner full d ((Q.protocol P).result s.db.objects trx) _ s :=
    performs_applyTransaction hQ hd trx s hs
  rw [hobjects] at hperforms
  rcases hperforms with ⟨o, s', ho, hrun, hs', h', hothers⟩ | ⟨e, s', ho, hrun, h', -⟩
  · have hsame : s'.db.buffers = s.db.buffers := congrArg Prod.fst hothers
    rcases Database.applyTransaction_cases (P := Q.protocol P) trx t with
      ⟨o', ho', hrun'⟩ | ⟨e, t', ho', -⟩
    · rw [ho] at ho'
      cases ho'
      exact .inl ⟨(), s', _, hrun, hrun', ⟨hs', hsame.trans hbuffers⟩, h'⟩
    · rw [ho] at ho'
      cases ho'
  · rcases Database.applyTransaction_cases (P := Q.protocol P) trx t with
      ⟨o', ho', -⟩ | ⟨e', t', -, hrun'⟩
    · rw [ho] at ho'
      cases ho'
    · exact .inr ⟨e, s', e', t', hrun, hrun', h'⟩

/-- The end of a block, with the proposals that have expired. -/
theorem simulates_endOfBlock (hQ : Q.Shallow) (hd : 1 ≤ d) (b : SignedBlock Op) :
    Simulates (Alike inner full d) (Alike inner full d) (Inside inner full d)
      (do
        clearExpiredProposals Q
        onDb (Database.modifyRest fun o => P.endOfBlock o b))
      (Database.modifyRest fun o => (Q.protocol P).endOfBlock o b) := by
  rintro s t ⟨⟨hobjects, hbuffers⟩, hs⟩
  have hclears : Performs inner full d (fun o => some (Q.clearExpired o)) (clearExpiredProposals Q) :=
    performs_clearExpiredProposals hQ hd
  have hperforms := performs_bind hclears (performs_modifyRest fun o => P.endOfBlock o b) s hs
  rw [hobjects] at hperforms
  obtain ⟨r₀, hclear⟩ := Q.clearExpired_eq t.objects
  rcases hperforms with ⟨o, s', ho, hrun, hs', h', hothers⟩ | ⟨e, s', ho, hrun, h', -⟩
  · have hsame : s'.db.buffers = s.db.buffers := congrArg Prod.fst hothers
    obtain ⟨r, hr, rfl⟩ := Option.map_eq_some_iff.mp ho
    rcases Database.modifyRest_cases (fun o => (Q.protocol P).endOfBlock o b) t with
      ⟨r', hr', hrun'⟩ | ⟨hr', -⟩
    · cases hr.symm.trans hr'
      refine .inl ⟨(), s', _, hrun, hrun', ⟨hs'.trans ?_, hsame.trans hbuffers⟩, h'⟩
      rw [hclear]
      rfl
    · cases hr.symm.trans hr'
  · rcases Database.modifyRest_cases (fun o => (Q.protocol P).endOfBlock o b) t with
      ⟨r', hr', -⟩ | ⟨-, hrun'⟩
    · cases (Option.map_eq_none_iff.mp ho).symm.trans hr'
    · exact .inr ⟨e, s', .assertion, t, hrun, hrun', h'⟩

section Block

variable {b : SignedBlock Op}

/-- The irreversible block is below the new head. -/
def Below (b : SignedBlock Op) (s : Node Op R) : Prop :=
  s.db.objects.lastIrreversibleBlockNum ≤ b.previous.num

/-- The header tells that the block follows the head block. -/
theorem simulates_validateBlockHeader :
    Simulates
      (fun s t => Alike [base] full 2 s t ∧ (s.db.objects.headBlockId = b.previous → Below b s))
      (fun s t => Alike [base] full 2 s t ∧ Below b s) (Inside [base] full 2)
      (onDb (Database.validateBlockHeader P b)) (Database.validateBlockHeader P b) := by
  rintro s t ⟨⟨hst, hs⟩, hbelow⟩
  have hcases := onDb_cases (view_sameBuffers.related_validateBlockHeader (P := P) b) hst
  rcases validateBlockHeader_run (P := P) b s with ⟨e, hrun⟩ | ⟨hrun, hprevious⟩
  · rcases hcases with ⟨a, t₁, t', hrun', -⟩ | ⟨e', t₁, t', -, -, hrun'⟩
    · rw [hrun] at hrun'
      cases hrun'
    · exact .inr ⟨e, s, e', t', hrun, hrun', hs⟩
  · rcases hcases with ⟨a, t₁, t', hrun', -, hrun'', h'⟩ | ⟨e', t₁, t', hrun', -⟩
    · rw [hrun] at hrun'
      have hsame : s.db = t₁ := congrArg Node.db (EStateM.Result.ok.inj hrun').2
      rw [← hsame] at h'
      exact .inl ⟨(), s, t', hrun, hrun'', ⟨h', hs⟩, hbelow hprevious⟩
    · rw [hrun] at hrun'
      cases hrun'

/-- The bound on the number of copies leaves room for two sessions. -/
theorem simulates_updateGlobalDynamicData :
    Simulates (fun s t => Alike [base] full 2 s t ∧ Below b s) (Alike [base] full 2)
      (Inside [base] full 2) (onDb (Database.updateGlobalDynamicData P b))
      (Database.updateGlobalDynamicData P b) := by
  rintro s t ⟨⟨hst, hs⟩, hbelow⟩
  have hcases := onDb_cases (view_sameBuffers.related_updateGlobalDynamicData (P := P) b) hst
  obtain ⟨o, hnum, -, hlib, hrun⟩ := updateGlobalDynamicData_run (P := P) b s
  rcases hrun with ⟨e, hrun⟩ | ⟨s', hrun, hundo, -⟩
  · rcases hcases with ⟨a, t₁, t', hrun', -⟩ | ⟨e', t₁, t', -, -, hrun'⟩
    · rw [hrun] at hrun'
      cases hrun'
    · exact .inr ⟨e, _, e', t', hrun, hrun', hs.congr rfl rfl rfl⟩
  · rcases hcases with ⟨a, t₁, t', hrun', -, hrun'', h'⟩ | ⟨e', t₁, t', hrun', -⟩
    · rw [hrun] at hrun'
      cases hrun'
      refine .inl ⟨(), _, t', hrun, hrun'', h', ?_, ?_, ?_⟩
      · rw [hundo]
        exact hs.saved
      · rw [hundo]
        exact hs.active
      · rw [hundo]
        have hle : s.db.objects.lastIrreversibleBlockNum ≤ b.previous.num := hbelow
        change 1 + 2 ≤ o.headBlockNumber - o.lastIrreversibleBlockNum + 1 + 1
        rw [hnum, hlib, SignedBlock.blockNum]
        omega
    · rw [hrun] at hrun'
      cases hrun'

/-- The transactions do not move the irreversible block. -/
theorem simulates_transactions (hQ : Q.Shallow) (trxs : List (Transaction Op)) :
    Simulates (fun s t => Alike [base] full 2 s t ∧ Below b s)
      (fun s t => Alike [base] full 2 s t ∧ Below b s) (Inside [base] full 2)
      (trxs.forM (applyTransaction P Q))
      (trxs.forM (Database.applyTransaction (Q.protocol P))) := by
  refine simulates_forM (fun trx => ?_) trxs
  rintro s t ⟨hst, hbelow⟩
  rcases simulates_applyTransaction (P := P) hQ (by decide) trx s t hst with
    ⟨a, s', t', hrun, hrun', h'⟩ | herror
  · refine .inl ⟨a, s', t', hrun, hrun', h', ?_⟩
    rcases Database.applyTransaction_cases (P := Q.protocol P) trx t with
      ⟨o, ho, hrun''⟩ | ⟨e, t₁, -, hrun''⟩
    · obtain ⟨-, -, r, rfl⟩ := Protocol.result_eq_some ho
      cases hrun'.symm.trans hrun''
      have hsame : s'.db.objects.lastIrreversibleBlockNum =
          s.db.objects.lastIrreversibleBlockNum := by
        rw [h'.1.1, hst.1.1]
        rfl
      exact hsame.trans_le hbelow
    · cases hrun'.symm.trans hrun''
  · exact .inr herror

/-- **A block inside its session** is a block of the protocol without sessions. -/
theorem simulates_applyBlock (hQ : Q.Shallow) :
    Simulates
      (fun s t => Alike [base] full 2 s t ∧ (s.db.objects.headBlockId = b.previous → Below b s))
      (Alike [base] full 2) (Inside [base] full 2) (applyBlock P Q b)
      (Database.applyBlock (Q.protocol P) b) := by
  have hF : Frame fun t t' : Database Op R => t'.copies = t.copies := Frame.eq Database.copies
  refine simulates_bind (simulates_assert (fun s t h => h.1.2) _ _ _) fun _ => ?_
  refine simulates_bind simulates_validateBlockHeader fun _ => simulates_get_bind fun s t hst => ?_
  rw [← hst.1.1.1]
  refine simulates_bind (simulates_transactions hQ _) fun _ =>
    simulates_bind simulates_updateGlobalDynamicData fun _ => ?_
  have hsign : Related SameBuffers (Database.updateSigningWitness P b)
      (Database.updateSigningWitness P b) :=
    related_bind (view_sameBuffers.related_modifyRest _) fun _ => view_sameBuffers.related_modifyObjects _
  refine simulates_bind (simulates_onDb hsign
    (Database.keeps_updateSigningWitness hF (fun _ _ _ => rfl) P b)) fun _ => ?_
  refine simulates_bind (simulates_onDb (view_sameBuffers.related_modifyObjects _)
    (Database.keeps_updateLastIrreversibleBlock fun _ _ _ => rfl)) fun _ => ?_
  refine simulates_bind (simulates_onDb (Database.related_maintainIf _ b) ?_) fun _ => ?_
  · unfold Database.maintainIf
    split
    · exact Database.keeps_maintenance hF (fun _ _ _ => rfl) (fun _ _ => rfl) P b
    · exact hF.keeps_pure ()
  · exact simulates_bind (simulates_onDb (view_sameBuffers.related_modifyObjects _)
      (keeps_update fun _ => rfl)) fun _ => simulates_endOfBlock hQ (by decide) b

end Block

/-! ### What a block leaves alone -/

/-- The chain and what concerns pending transactions. -/
def sheltered (s : Node Op R) :
    List (SignedBlock Op × Objects R) × Bool × List (Transaction Op) × List (Transaction Op) :=
  (s.db.chain, s.pendingSession, s.pendingTx, s.poppedTx)

theorem sheltered_frame : Frame fun s s' : Node Op R => s'.sheltered = s.sheltered :=
  Frame.eq sheltered

theorem keeps_sheltered_onDb {α : Type} {x : DatabaseM Op R α}
    (hx : Keeps (fun t t' : Database Op R => t'.chain = t.chain) x) :
    Keeps (fun s s' : Node Op R => s'.sheltered = s.sheltered) (onDb x) := by
  intro s
  rw [final_onDb]
  unfold sheltered
  rw [hx s.db]

/-- A relation of what a program leaves alone, in which the objects and their copies do not matter. -/
structure OffUndo (r : Node Op R → Node Op R → Prop) : Prop where
  frame : Frame r
  undo : ∀ (s : Node Op R) (u : SnapshotStack (Objects R)) (es : List UndoEvent),
    r s { s with db := { s.db with undo := u }, events := es }

section OffUndo

variable {r : Node Op R → Node Op R → Prop}

theorem OffUndo.keeps_undoOp (hr : OffUndo r)
    (op : SnapshotStack (Objects R) → Option (SnapshotStack (Objects R))) :
    Keeps r (onDb (Database.undoOp op)) := by
  intro s
  unfold final
  rw [onDb_undoOp]
  cases op s.undo with
  | none => exact hr.frame.refl s
  | some u => exact hr.undo s u s.events

theorem OffUndo.keeps_modifyRest (hr : OffUndo r) (f : Objects R → Option R) :
    Keeps r (onDb (Database.modifyRest f)) := by
  intro s
  rw [final_onDb]
  rcases Database.modifyRest_cases f s.db with ⟨r, -, hrun⟩ | ⟨-, hrun⟩
  · rw [final_of_ok hrun]
    exact hr.undo s _ s.events
  · rw [final_of_error hrun]
    exact hr.frame.refl s

theorem OffUndo.keeps_merging (hr : OffUndo r) {x : NodeM Op R Unit} (hx : Keeps r x) :
    Keeps r (merging x) := by
  have hF := hr.frame
  refine hF.keeps_bind (keeps_update fun s => hr.undo s _ _) fun _ => hF.keeps_tryCatch
    (hF.keeps_bind hx fun _ => hr.keeps_undoOp _) fun e => ?_
  exact hF.keeps_bind (hr.keeps_undoOp _) fun _ => hF.keeps_throw e

theorem OffUndo.keeps_runActions (hr : OffUndo r) : ∀ a : Actions R, Keeps r (runActions a)
  | .done => hr.frame.keeps_pure ()
  | .evaluate f rest =>
    hr.frame.keeps_bind (hr.keeps_modifyRest f) fun _ => hr.keeps_runActions rest
  | .executeProposal body rest =>
    hr.frame.keeps_bind (hr.frame.keeps_tryCatch (hr.keeps_merging (hr.keeps_runActions body))
      fun _ => hr.frame.keeps_pure ()) fun _ => hr.keeps_runActions rest

theorem OffUndo.keeps_applyTransaction (hr : OffUndo r) (trx : Transaction Op) :
    Keeps r (applyTransaction P Q trx) := by
  have hF := hr.frame
  refine hF.keeps_bind hF.keeps_get fun s => hF.keeps_bind (hF.keeps_assert _ _) fun _ =>
    hF.keeps_bind (hF.keeps_assert _ _) fun _ => hF.keeps_bind (hF.keeps_assert _ _) fun _ => ?_
  have hindex : Keeps r (onDb (Database.modifyObjects fun o =>
      { o with transactions := (P.trxId trx, trx.expiration) :: o.transactions })) := by
    intro s
    rw [final_onDb]
    exact hr.undo s _ s.events
  exact hF.keeps_bind hindex fun _ => hF.keeps_bind hF.keeps_get fun _ => hr.keeps_runActions _

end OffUndo

theorem sheltered_offUndo : OffUndo fun s s' : Node Op R => s'.sheltered = s.sheltered where
  frame := sheltered_frame
  undo _ _ _ := rfl

theorem keeps_sheltered_clearExpiredProposals :
    Keeps (fun s s' : Node Op R => s'.sheltered = s.sheltered) (clearExpiredProposals Q) := by
  have hF := @sheltered_frame Op R
  refine hF.keeps_bind hF.keeps_get fun s => hF.keeps_forM (fun p => hF.keeps_bind ?_ fun removed => ?_) _
  · unfold executeExpired
    split
    · exact hF.keeps_tryCatch (hF.keeps_bind (sheltered_offUndo.keeps_merging (sheltered_offUndo.keeps_runActions _))
        fun _ => hF.keeps_pure _) fun _ => hF.keeps_pure _
    · exact hF.keeps_pure _
  · split
    · exact hF.keeps_pure ()
    · exact keeps_sheltered_onDb (keeps_update fun _ => rfl)

/-- A block, too, leaves them alone; it is put on the chain by its session. -/
theorem keeps_sheltered_applyBlock (b : SignedBlock Op) :
    Keeps (fun s s' : Node Op R => s'.sheltered = s.sheltered) (applyBlock P Q b) := by
  have hF := @sheltered_frame Op R
  have hD : Frame fun t t' : Database Op R => t'.chain = t.chain := Frame.eq Database.chain
  have hheader : Keeps (fun t t' : Database Op R => t'.chain = t.chain)
      (Database.validateBlockHeader P b) :=
    hD.keeps_bind hD.keeps_get fun _ => hD.keeps_bind (hD.keeps_assert _ _) fun _ =>
      hD.keeps_bind (hD.keeps_assert _ _) fun _ => hD.keeps_assert _ _
  have hglobal : Keeps (fun t t' : Database Op R => t'.chain = t.chain)
      (Database.updateGlobalDynamicData P b) :=
    hD.keeps_bind (keeps_update fun _ => rfl) fun _ => hD.keeps_bind hD.keeps_get fun _ =>
      hD.keeps_bind (hD.keeps_assert _ _) fun _ => keeps_update fun _ => rfl
  have hmaint : ∀ n, Keeps (fun t t' : Database Op R => t'.chain = t.chain)
      (Database.maintainIf n P b) := by
    intro n
    unfold Database.maintainIf
    split
    · exact Database.keeps_maintenance hD (fun _ _ _ => rfl) (fun _ _ => rfl) P b
    · exact hD.keeps_pure ()
  refine hF.keeps_bind (hF.keeps_assert _ _) fun _ => hF.keeps_bind (keeps_sheltered_onDb hheader)
    fun _ => hF.keeps_bind hF.keeps_get fun s => ?_
  refine hF.keeps_bind (hF.keeps_forM sheltered_offUndo.keeps_applyTransaction _) fun _ =>
    hF.keeps_bind (keeps_sheltered_onDb hglobal) fun _ => ?_
  refine hF.keeps_bind (keeps_sheltered_onDb
    (Database.keeps_updateSigningWitness hD (fun _ _ _ => rfl) P b)) fun _ => hF.keeps_bind
      (keeps_sheltered_onDb (Database.keeps_updateLastIrreversibleBlock fun _ _ _ => rfl)) fun _ => ?_
  refine hF.keeps_bind (keeps_sheltered_onDb (hmaint _)) fun _ => hF.keeps_bind
    (keeps_sheltered_onDb (keeps_update fun _ => rfl)) fun _ => ?_
  exact hF.keeps_bind keeps_sheltered_clearExpiredProposals fun _ => keeps_sheltered_onDb
    (Database.keeps_modifyRest hD (fun _ _ _ => rfl) _)

end Node

end FinChain.Chain
