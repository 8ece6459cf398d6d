import FinChain.Chain.GenerateBlock

/-!
# A generated block is accepted

A witness should not generate blocks that it rejects itself. The transactions are no problem: they do in the
block what they did when it was assembled, whatever was postponed or failed before them
(`AtHead.processBlock_sealed_iff`). But three things are not looked at when the block is assembled
(`generated_block_accepted_iff`).

* The slot and the key are compared with objects that have the pending transactions applied. The block is
  checked against those of the head block, and a pending transaction may have changed the key of the witness.
* A transaction is postponed by the size it has as a pending one. Its results may take more room when an
  earlier transaction is postponed. This is noticed when it is in the block (`total_block_size` has the new
  size), and the block is then too large (`Producer.HaveRoom`).
* The fork database may not link the block, or may answer with a higher branch (`ForkDatabase.TakesNext`).
-/

namespace FinChain.Chain

open Exec

variable {Op R ρ : Type}

/-! ### The fork database -/

/-- The next block on the head is linked by the fork database, and makes it answer with a block on the head:
its own head is not higher, or else a block on the head that was rejected. -/
def ForkDatabase.TakesNext (P : Protocol Op R) (f : ForkDatabase Op) (o : Objects R) : Prop :=
  ∀ head, f.head = some head →
    head.num ≤ o.headBlockNumber + f.maxSize ∧
    (o.headBlockId = .zero ∨ f.find P o.headBlockId ≠ none) ∧
    (head.num ≤ o.headBlockNumber ∨ head.data.previous = o.headBlockId)

section Choice

variable {P : Protocol Op R} {f : ForkDatabase Op} {o : Objects R} {b : SignedBlock Op}

theorem ForkDatabase.pushBlock_of_link {item : ForkItem Op} (h : f.link P b = .ok item) :
    f.pushBlock P b = .ok (f.add P item) := by
  unfold pushBlock
  rw [h]
  rfl

theorem ForkDatabase.choice_of_ok {f' : ForkDatabase Op} {newHead : ForkItem Op}
    (hpush : f.pushBlock P b = .ok f') (hhead : f'.head = some newHead) :
    f.choice P o b = if newHead.data.previous = o.headBlockId then .extended
      else if o.headBlockNumber < newHead.num then
        match f'.fetchBranchFrom P (newHead.id P) o.headBlockId with
        | .error e => .refused e
        | .ok (newBranch, oldBranch) =>
          .switched (newBranch.map ForkItem.data) (oldBranch.map ForkItem.data)
      else .ignored := by
  unfold choice
  split
  · next e hrefused =>
    rw [hpush] at hrefused
    cases hrefused
  · next f₁ htaken =>
    obtain rfl : f' = f₁ := Except.ok.inj (hpush.symm.trans htaken)
    split
    · next hnone =>
      rw [hhead] at hnone
      cases hnone
    · next head hsome =>
      obtain rfl : newHead = head := Option.some.inj (hhead.symm.trans hsome)
      rfl

/-- The next block is linked exactly if it is in the window and its predecessor is known. -/
theorem ForkDatabase.link_next_iff {head : ForkItem Op} (hhead : f.head = some head)
    (hb : b.previous = o.headBlockId) (hnum : o.headBlockId.num = o.headBlockNumber) :
    (∃ item, f.link P b = .ok item) ↔ head.num ≤ o.headBlockNumber + f.maxSize ∧
      (o.headBlockId = .zero ∨ f.find P o.headBlockId ≠ none) := by
  have hblockNum : b.blockNum = o.headBlockNumber + 1 := by
    unfold SignedBlock.blockNum
    rw [hb, hnum]
  unfold link
  rw [hhead, hblockNum, hb]
  dsimp only
  constructor
  · rintro ⟨item, hitem⟩
    split at hitem
    · next hwindow =>
      refine ⟨by omega, ?_⟩
      split at hitem
      · next hzero => exact .inl hzero
      · split at hitem
        · cases hitem
        · next p hfind => exact .inr (by rw [hfind]; exact Option.some_ne_none p)
    · cases hitem
  · rintro ⟨hwindow, hknown⟩
    rw [if_pos (by omega)]
    by_cases hzero : o.headBlockId = .zero
    · rw [if_pos hzero]
      exact ⟨_, rfl⟩
    · rw [if_neg hzero]
      obtain ⟨p, hfind⟩ := Option.ne_none_iff_exists'.mp (hknown.resolve_left hzero)
      rw [hfind]
      exact ⟨_, rfl⟩

/-- **The fork database** lets a block be applied to the head exactly if it takes the next block. -/
theorem ForkDatabase.choice_eq_extended_iff (hb : b.previous = o.headBlockId)
    (hnum : o.headBlockId.num = o.headBlockNumber) :
    f.choice P o b = .extended ↔ f.TakesNext P o := by
  have hblockNum : b.blockNum = o.headBlockNumber + 1 := by
    unfold SignedBlock.blockNum
    rw [hb, hnum]
  cases hhead : f.head with
  | none =>
    -- the first block that the fork database sees
    have hlink : f.link P b = .ok (.unlinked f.nextHandle b) := by
      unfold link
      rw [hhead]
    have hnew : (f.add P (.unlinked f.nextHandle b)).head = some (.unlinked f.nextHandle b) := by
      rw [add_head, hhead]
    have hprevious : (ForkItem.unlinked f.nextHandle b).data.previous = o.headBlockId := hb
    rw [choice_of_ok (pushBlock_of_link hlink) hnew, if_pos hprevious]
    refine ⟨fun _ head hhead' => ?_, fun _ => rfl⟩
    rw [hhead] at hhead'
    cases hhead'
  | some head =>
    have hiff := link_next_iff (P := P) hhead hb hnum
    have htakes : f.TakesNext P o ↔ (head.num ≤ o.headBlockNumber + f.maxSize ∧
        (o.headBlockId = .zero ∨ f.find P o.headBlockId ≠ none)) ∧
        (head.num ≤ o.headBlockNumber ∨ head.data.previous = o.headBlockId) := by
      unfold TakesNext
      rw [hhead]
      constructor
      · intro h
        obtain ⟨hwindow, hknown, hlow⟩ := h head rfl
        exact ⟨⟨hwindow, hknown⟩, hlow⟩
      · rintro ⟨⟨hwindow, hknown⟩, hlow⟩ head' hhead'
        cases hhead'
        exact ⟨hwindow, hknown, hlow⟩
    rw [htakes, ← hiff]
    cases hlink : f.link P b with
    | error e =>
      have hrefused : f.choice P o b = .refused e := by
        unfold choice pushBlock
        rw [hlink]
        rfl
      rw [hrefused]
      refine ⟨fun h => (by cases h), ?_⟩
      rintro ⟨⟨item, hitem⟩, -⟩
      cases hitem
    | ok item =>
      have hdata := link_data hlink
      have hitemNum : item.num = o.headBlockNumber + 1 := by
        rw [ForkItem.num, hdata, hblockNum]
      have hadd : (f.add P item).head = if head.num < item.num then some item else some head := by
        rw [add_head, hhead]
      have hlow : head.num ≤ o.headBlockNumber ↔ head.num < item.num := by
        rw [hitemNum]
        exact Nat.lt_succ_iff.symm
      by_cases hlt : head.num < item.num
      · rw [if_pos hlt] at hadd
        rw [choice_of_ok (pushBlock_of_link hlink) hadd, hdata, if_pos hb]
        exact ⟨fun _ => ⟨⟨item, rfl⟩, .inl (hlow.mpr hlt)⟩, fun _ => rfl⟩
      · rw [if_neg hlt] at hadd
        rw [choice_of_ok (pushBlock_of_link hlink) hadd]
        by_cases hprevious : head.data.previous = o.headBlockId
        · rw [if_pos hprevious]
          exact ⟨fun _ => ⟨⟨item, rfl⟩, .inr hprevious⟩, fun _ => rfl⟩
        · rw [if_neg hprevious]
          constructor
          · intro h
            split at h
            · split at h
              · cases h
              · cases h
            · cases h
          · rintro ⟨-, h | h⟩
            · exact absurd (hlow.mp h) hlt
            · exact absurd h hprevious

theorem ForkDatabase.walkDown_head {num : ℕ} {i j : ForkItem Op} {l : List (ForkItem Op)}
    (h : f.walkDown num i = .ok (l, j)) : ∀ m, (l ++ j :: m).head? = some i := by
  cases i with
  | unlinked handle b =>
    unfold walkDown at h
    split at h
    · cases h
    · cases h
      exact fun _ => rfl
  | linked handle b p =>
    unfold walkDown at h
    split at h
    · split at h
      · obtain ⟨⟨l', j'⟩, -, hok⟩ := except_bind_eq_ok.mp h
        cases hok
        exact fun _ => rfl
      · cases h
    · cases h
      exact fun _ => rfl

theorem ForkDatabase.walkBoth_head {i j : ForkItem Op} {l l' : List (ForkItem Op)}
    (h : f.walkBoth i j = .ok (l, l')) : ∃ m, l = i :: m := by
  cases i with
  | unlinked handle b =>
    unfold walkBoth at h
    split at h
    · cases h
      exact ⟨[], rfl⟩
    · cases h
  | linked handle b p =>
    unfold walkBoth at h
    split at h
    · cases h
      exact ⟨[], rfl⟩
    · split at h
      · split at h
        · cases h
        · obtain ⟨⟨m, m'⟩, -, hok⟩ := except_bind_eq_ok.mp h
          cases hok
          exact ⟨m, rfl⟩
      · cases h

/-- The first branch that is fetched begins with the block it is fetched for. -/
theorem ForkDatabase.fetchBranchFrom_head {first second : BlockId} {l l' : List (ForkItem Op)}
    (h : f.fetchBranchFrom P first second = .ok (l, l')) :
    ∃ i m, l = i :: m ∧ i.id P = first := by
  unfold fetchBranchFrom at h
  split at h
  · next i j hi hj =>
    obtain ⟨⟨l₁, i₁⟩, hdown, h⟩ := except_bind_eq_ok.mp h
    obtain ⟨⟨l₂, j₂⟩, -, h⟩ := except_bind_eq_ok.mp h
    obtain ⟨⟨m₁, m₂⟩, hboth, h⟩ := except_bind_eq_ok.mp h
    cases h
    obtain ⟨m, rfl⟩ := walkBoth_head hboth
    have hhead := walkDown_head hdown m
    obtain ⟨m', hm'⟩ := List.head?_eq_some_iff.mp hhead
    have hfound := List.find?_some hi
    exact ⟨i, m', hm', of_decide_eq_true hfound⟩
  · cases h

/-- A branch that the fork is switched to does not end with a block on the head. -/
theorem ForkDatabase.choice_switched {newBranch oldBranch : List (SignedBlock Op)}
    (hid : HashesPrevious P) (h : f.choice P o b = .switched newBranch oldBranch) :
    ∃ c cs, newBranch = c :: cs ∧ c.previous ≠ o.headBlockId := by
  unfold choice at h
  split at h
  · cases h
  · split at h
    · cases h
    · next newHead _ =>
      split at h
      · cases h
      · next hprevious =>
        split at h
        · split at h
          · cases h
          · next l l' hfetch =>
            cases h
            obtain ⟨i, m, rfl, hi⟩ := fetchBranchFrom_head hfetch
            refine ⟨i.data, m.map ForkItem.data, rfl, ?_⟩
            rw [hid i.data newHead.data hi]
            exact hprevious
        · cases h

end Choice

/-! ### The size -/

namespace Producer

/-- Every transaction that is taken has room in the block, after the ones that were taken before, with the
results it has then. -/
def HaveRoom (W : Producer Op R ρ) (P : Protocol Op R) (witness limit maximum : ℕ) :
    Objects R → ℕ → List (ProcessedTransaction Op ρ) → List (ProcessedTransaction Op ρ) → Prop
  | _, _, _, [] => True
  | o, total, before, tx :: pending =>
    if maximum ≤ total + W.packSize tx then W.HaveRoom P witness limit maximum o total before pending
    else
      match P.result o tx.trx with
      | none => W.HaveRoom P witness limit maximum o total before pending
      | some o' =>
        let ptx := ⟨tx.trx, W.results o tx.trx⟩
        W.blockSize witness (before ++ [ptx]) ≤ limit ∧
          W.HaveRoom P witness limit maximum o' (total + W.packSize ptx) (before ++ [ptx]) pending

variable {W : Producer Op R ρ} {P : Protocol Op R}

theorem blockSize_le_append (W : Producer Op R ρ) (witness : ℕ)
    (trxs trxs' : List (ProcessedTransaction Op ρ)) :
    W.blockSize witness trxs ≤ W.blockSize witness (trxs ++ trxs') := by
  unfold blockSize unsignedIntSize
  have hcount : Nat.log 128 trxs.length ≤ Nat.log 128 (trxs ++ trxs').length := by
    apply Nat.log_mono_right
    rw [List.length_append]
    exact Nat.le_add_right _ _
  rw [List.map_append, List.sum_append]
  omega

/-- **The block is small enough** exactly if everything that was taken for it had room. -/
theorem blockSize_taken_le_iff (witness limit maximum : ℕ) :
    ∀ (pending : List (ProcessedTransaction Op ρ)) (o : Objects R) (total : ℕ)
      (before : List (ProcessedTransaction Op ρ)),
      W.blockSize witness (before ++ W.taken P maximum o total pending) ≤ limit ↔
        W.blockSize witness before ≤ limit ∧
          W.HaveRoom P witness limit maximum o total before pending
  | [], o, total, before => by
    rw [taken, List.append_nil, HaveRoom]
    exact (and_iff_left trivial).symm
  | tx :: pending, o, total, before => by
    rw [HaveRoom]
    by_cases hpostponed : maximum ≤ total + W.packSize tx
    · rw [taken_of_postponed hpostponed, if_pos hpostponed]
      exact blockSize_taken_le_iff witness limit maximum pending o total before
    · rw [if_neg hpostponed]
      cases hresult : P.result o tx.trx with
      | none =>
        rw [taken_of_none hresult]
        exact blockSize_taken_le_iff witness limit maximum pending o total before
      | some o' =>
        -- what fits after the transaction fitted before it
        have hbefore := W.blockSize_le_append witness before [⟨tx.trx, W.results o tx.trx⟩]
        have hrest := blockSize_taken_le_iff witness limit maximum pending o'
          (total + W.packSize ⟨tx.trx, W.results o tx.trx⟩) (before ++ [⟨tx.trx, W.results o tx.trx⟩])
        rw [taken_of_some hpostponed hresult, List.append_cons, hrest]
        exact ⟨fun h => ⟨hbefore.trans h.1, h⟩, fun h => h.2⟩

end Producer

/-! ### Pushing the block -/

namespace Node

variable {P : Protocol Op R} {Q : Proposals Op R} {g : Objects R} {s : Node Op R} {b : SignedBlock Op}

/-- The state in which `push_block` applies a block on the head. -/
def inBlock (s : Node Op R) : Node Op R := final startUndoSession (final Node.clearPending s)

theorem applyInSession_head {s' : Node Op R} {u : Unit} (h : applyInSession P Q b s = .ok u s') :
    ∃ o, s'.db.chain.head? = some (b, o) := by
  unfold applyInSession at h
  obtain ⟨before, s₁, -, h⟩ := bind_eq_ok.mp h
  obtain ⟨_, s₂, -, h⟩ := bind_eq_ok.mp h
  obtain ⟨_, s₃, -, h⟩ := bind_eq_ok.mp h
  obtain ⟨_, s₄, -, h⟩ := bind_eq_ok.mp h
  cases h
  exact ⟨before.db.objects, rfl⟩

theorem recover_ne_ok {oldBranch : List (SignedBlock Op)} {e : ChainError} {s' : Node Op R} {u : Unit} :
    recover P Q oldBranch e s ≠ .ok u s' := by
  intro h
  unfold recover at h
  obtain ⟨_, s₁, -, h⟩ := bind_eq_ok.mp h
  obtain ⟨_, s₂, -, h⟩ := bind_eq_ok.mp h
  cases h

/-- After a fork switch the head of the chain is the newest block of the new branch. -/
theorem head_of_switched {c : SignedBlock Op} {cs oldBranch : List (SignedBlock Op)} {s' : Node Op R}
    {u : Unit} (h : pushBlockOnly P Q b (.switched (c :: cs) oldBranch) s = .ok u s') :
    ∃ o, s'.db.chain.head? = some (c, o) := by
  obtain ⟨_, s₁, -, h⟩ := bind_eq_ok.mp h
  let push := fun b => tryCatch (applyInSession P Q b) (recover P Q oldBranch)
  have hsplit : (cs.reverse ++ [c]).forM push =
      (cs.reverse.forM push >>= fun _ => [c].forM push) := List.forM_append
  rw [List.reverse_cons] at h
  change (cs.reverse ++ [c]).forM push s₁ = .ok u s' at h
  rw [hsplit] at h
  obtain ⟨_, s₂, -, h⟩ := bind_eq_ok.mp h
  have hlast : (push c >>= fun _ => pure ()) s₂ = .ok u s' := h
  obtain ⟨_, s₃, hpush, hdone⟩ := bind_eq_ok.mp hlast
  cases hdone
  rcases tryCatch_eq_ok.mp hpush with hrun | ⟨e, s₄, -, hrecover⟩
  · exact applyInSession_head hrun
  · exact absurd hrecover recover_ne_ok

/-- No session is open, so nothing is undone. -/
theorem AtHead.clearPending_eq (h : AtHead P Q g s) :
    Node.clearPending s = .ok () { s with pendingTx := [] } := by
  have hrun : Node.clearPending s = Node.resetPending { s with pendingTx := [] } := rfl
  rw [hrun]
  unfold Node.resetPending
  rw [get_bind]
  change (if s.pendingSession = true then _ else _ : NodeM Op R Unit) _ = _
  rw [h.pendingSession]
  rfl

theorem AtHead.withoutPending (h : AtHead P Q g s) : AtHead P Q g { s with pendingTx := [] } :=
  ⟨h.applied, h.pendingSession, h.inside.congr rfl rfl rfl⟩

/-- **Pushing a block on the head**: it becomes the head exactly if the fork database takes the next block,
and the block can be applied. -/
theorem AtHead.pushBlock_head_iff (hg : Unconfirmed g) (hid : HashesPrevious P) (hQ : Q.Shallow)
    (h : AtHead P Q g s) (hb : b.previous = s.db.objects.headBlockId)
    (happlies : ∃ u t, applyBlock P Q b s.inBlock = .ok u t) :
    (∃ s' o, pushBlock P Q b (s.db.forkDb.choice P s.db.objects b) s = .ok () s' ∧
      s'.db.chain.head? = some (b, o)) ↔ s.db.forkDb.TakesNext P s.db.objects := by
  have hnum := (h.applied.signed hg).headNum
  rw [← ForkDatabase.choice_eq_extended_iff hb hnum]
  have hclear := final_of_ok h.clearPending_eq
  have h₀ := h.withoutPending
  obtain ⟨s₁, s', -, -, -, hchain, hruns⟩ :=
    Between.pushBlock_cases hg hQ b (s.db.forkDb.choice P s.db.objects b) (.inl h)
  rw [hclear] at hruns
  constructor
  · rintro ⟨s'', o, hpush, hhead⟩
    rcases hruns with ⟨u, honly, hrun⟩ | ⟨e, -, hrun⟩
    · cases hpush.symm.trans hrun
      rw [hchain] at hhead
      cases hchoice : s.db.forkDb.choice P s.db.objects b with
      | extended => rfl
      | refused e =>
        rw [hchoice] at honly
        cases honly
      | ignored =>
        -- then the block would have been the head before
        rw [hchoice] at honly
        cases honly
        obtain ⟨c, hc⟩ := List.head?_eq_some_iff.mp hhead
        have hheadId := h.applied.headBlockId hg.toGenesis
        change s.db.chain = (b, o) :: c at hc
        rw [hc, ← hb] at hheadId
        exact absurd hheadId.symm (Protocol.blockId_ne_previous (Q.protocol P) b)
      | switched newBranch oldBranch =>
        obtain ⟨c, cs, rfl, hprevious⟩ := ForkDatabase.choice_switched hid hchoice
        rw [hchoice] at honly
        obtain ⟨o', hhead'⟩ := head_of_switched honly
        rw [hhead'] at hhead
        cases hhead
        exact absurd hb hprevious
    · cases hpush.symm.trans hrun
  · intro hchoice
    obtain ⟨u, t, happly⟩ := happlies
    have hblock : applyBlock P Q b (final startUndoSession { s with pendingTx := [] }) = .ok u t := by
      rw [← hclear]
      exact happly
    rcases h₀.applyInSession_cases hg hQ b with
      ⟨u', s₂, s₃, -, hsession, -, -, hchain₃⟩ | ⟨e, s₂, s₃, herror, -⟩
    · rw [hchoice] at hruns ⊢
      have honly : pushBlockOnly P Q b .extended { s with pendingTx := [] } = .ok () s₃ := hsession
      rcases hruns with ⟨u'', honly', hrun⟩ | ⟨e, honly', -⟩
      · cases honly.symm.trans honly'
        refine ⟨s', s.db.objects, hrun, ?_⟩
        rw [hchain, hchain₃]
        rfl
      · cases honly.symm.trans honly'
    · cases hblock.symm.trans herror

/-! ### Generating a block that is accepted -/

section Generate

variable {W : Producer Op R ρ} {pending trxs : List (ProcessedTransaction Op ρ)} {time witness key : ℕ}
  {s₁ : Node Op R}

/-- `_generate_block` returns its block, which is the head then, and whose transactions had the same results
when the block was applied. -/
structure Accepts (P : Protocol Op R) (Q : Proposals Op R) (W : Producer Op R ρ)
    (pending : List (ProcessedTransaction Op ρ)) (time witness key : ℕ) (b : SignedBlock Op)
    (trxs : List (ProcessedTransaction Op ρ)) (s s₁ : Node Op R) : Prop where
  pushed : ∃ s' o, generate P Q W pending time witness key s = .ok b s' ∧
    s'.db.chain.head? = some (b, o)
  sameResults : ∃ t, processBlock P Q W b s₁.inBlock = .ok trxs t

/-- What the assertions of `_generate_block` leave open. -/
structure Acceptable (P : Protocol Op R) (Q : Proposals Op R) (W : Producer Op R ρ)
    (pending : List (ProcessedTransaction Op ρ)) (time witness key : ℕ) (s : Node Op R) : Prop where
  /-- The slot and the key are right at the head block, and not only with the pending transactions. -/
  allows : W.Allows s.committed time witness key
  later : s.committed.time < time
  /-- The header has room, and so has every transaction that is taken, with the results it has now. -/
  headerRoom : W.blockSize witness [] ≤ W.maximumBlockSize s.committed
  room : W.HaveRoom (Q.protocol P) witness (W.maximumBlockSize s.committed)
    (W.maximumBlockSize s.db.objects) s.committed W.maxBlockHeaderSize [] pending
  takesNext : s.db.forkDb.TakesNext P s.committed

/-- The header of a block that was signed with the key of the witness is valid. -/
theorem schedules_sealed_iff (P : Protocol Op R) (o : Objects R) (l : List (Transaction Op)) :
    W.Schedules o (W.sealed P o time witness key l) ↔ W.Allows o time witness key := by
  unfold Producer.Schedules Producer.Allows Producer.sealed
  dsimp only
  rw [W.signee_signCompact]
  constructor
  · rintro ⟨hkey, hslot, hwitness⟩
    exact ⟨hslot, hwitness.symm, hkey⟩
  · rintro ⟨hslot, hwitness, hkey⟩
    exact ⟨hkey, hslot, hwitness.symm⟩

/-- A header that passes is one that builds on the head, is later, and is scheduled. -/
theorem validateBlockHeader_eq_ok_iff {s' : Node Op R} {u : Unit} :
    onDb (Database.validateBlockHeader P b) s = .ok u s' ↔
      (s.db.objects.headBlockId = b.previous ∧ s.db.objects.time < b.timestamp ∧
        P.scheduled s.db.objects b = true) ∧ s' = s := by
  have hdb : ∀ d, Database.validateBlockHeader P b s.db = .ok u d ↔
      s.db.objects.headBlockId = b.previous ∧ s.db.objects.time < b.timestamp ∧
        P.scheduled s.db.objects b = true ∧ d = s.db := by
    intro d
    rw [Database.validateBlockHeader, get_bind, assert_bind_eq_ok, assert_bind_eq_ok, assert_eq_ok]
  unfold onDb
  constructor
  · intro h
    cases hrun : Database.validateBlockHeader P b s.db with
    | ok u' d =>
      obtain ⟨h₁, h₂, h₃, rfl⟩ := (hdb d).mp hrun
      rw [hrun] at h
      cases h
      exact ⟨⟨h₁, h₂, h₃⟩, rfl⟩
    | error e d =>
      rw [hrun] at h
      cases h
  · rintro ⟨⟨h₁, h₂, h₃⟩, rfl⟩
    rw [(hdb s'.db).mpr ⟨h₁, h₂, h₃, rfl⟩]

/-- **The block is applied** with the results of its transactions exactly if its header is valid at the head
block, provided that the rest of the block does not fail. -/
theorem AtHead.processBlock_sealed_iff (hQ : Q.Shallow) (h : AtHead P Q g s) (maximum total : ℕ)
    (htrxs : trxs = W.taken (Q.protocol P) maximum s.db.objects total pending)
    (hb : b = W.sealed P s.db.objects time witness key (trxs.map ProcessedTransaction.trx))
    (hclose : ∀ u t, b.transactions.forM (applyTransaction P Q) s.inBlock = .ok u t →
      ∃ u' t', closeBlock P Q b (s.db.objects.nextMaintenanceTime ≤ b.timestamp) t = .ok u' t') :
    (∃ t, processBlock P Q W b s.inBlock = .ok trxs t) ↔
      s.db.objects.time < time ∧ P.scheduled s.db.objects b = true := by
  have hclear := final_of_ok h.clearPending_eq
  have hinside : Inside [s.db.objects] s.full 2 s.inBlock := by
    unfold inBlock
    rw [hclear]
    exact h.withoutPending.inside.start
  have hobjects : s.inBlock.db.objects = s.db.objects := by
    unfold inBlock
    rw [hclear]
    rfl
  -- the transactions apply, with the same results
  obtain ⟨t₁, hprocess, -⟩ := processTransactions_taken (P := P) (Q := Q) (W := W) hQ (by decide) maximum
    pending total hinside
  rw [hobjects, ← htrxs] at hprocess
  have htransactions : b.transactions = trxs.map ProcessedTransaction.trx := by
    rw [hb]
    rfl
  have hmerkle : b.transactionMerkleRoot = P.merkleRoot b.transactions := by
    rw [hb]
    rfl
  have hprevious : b.previous = s.db.objects.headBlockId := by
    rw [hb]
    rfl
  have htime : b.timestamp = time := by
    rw [hb]
    rfl
  have hloop : b.transactions.forM (applyTransaction P Q) s.inBlock = .ok () t₁ := by
    rw [forM_of_processTransactions (W := W), htransactions, bind_apply, hprocess]
    rfl
  obtain ⟨u₂, t₂, hclosed⟩ := hclose () t₁ hloop
  have hrun : ∀ t, processBlock P Q W b s.inBlock = .ok trxs t ↔
      (s.db.objects.time < time ∧ P.scheduled s.db.objects b = true) ∧ t = t₂ := by
    intro t
    unfold processBlock
    rw [assert_bind_eq_ok, bind_eq_ok]
    constructor
    · rintro ⟨-, _, s₂, hheader, h⟩
      obtain ⟨⟨-, hlater, hscheduled⟩, rfl⟩ := validateBlockHeader_eq_ok_iff.mp hheader
      rw [get_bind, bind_apply, htransactions, hprocess] at h
      dsimp only at h
      rw [hobjects, bind_apply, hclosed] at h
      cases h
      rw [hobjects] at hlater hscheduled
      exact ⟨⟨htime ▸ hlater, hscheduled⟩, rfl⟩
    · rintro ⟨⟨hlater, hscheduled⟩, rfl⟩
      refine ⟨hmerkle, (), s.inBlock, validateBlockHeader_eq_ok_iff.mpr ⟨⟨?_, ?_, ?_⟩, rfl⟩, ?_⟩
      · rw [hobjects, hprevious]
      · rw [hobjects, htime]
        exact hlater
      · rw [hobjects]
        exact hscheduled
      · rw [get_bind, bind_apply, htransactions, hprocess]
        dsimp only
        rw [hobjects, bind_apply, hclosed]
        rfl
  constructor
  · rintro ⟨t, ht⟩
    exact ((hrun t).mp ht).1
  · intro hheader
    exact ⟨t₂, (hrun t₂).mpr ⟨hheader, rfl⟩⟩

/-- **A generated block is accepted** exactly if what the assertions leave open holds: it has the right key and
slot at the head block, its transactions have room with the results they have now, and the fork database takes
the next block. -/
theorem generated_block_accepted_iff (hg : Unconfirmed g) (hid : HashesPrevious P) (hQ : Q.Shallow)
    (h : Between (W.protocol P) Q g s)
    (hpending : pending.map ProcessedTransaction.trx = s.pendingTx)
    (hrun : assembleBlock (W.protocol P) Q W pending time witness key s = .ok (b, trxs) s₁)
    (hclose : ∀ u t, b.transactions.forM (applyTransaction (W.protocol P) Q) s₁.inBlock = .ok u t →
      ∃ u' t', closeBlock (W.protocol P) Q b (s₁.db.objects.nextMaintenanceTime ≤ b.timestamp) t =
        .ok u' t') :
    b.transactions = trxs.map ProcessedTransaction.trx ∧ b.transactions.Sublist s.pendingTx ∧
      (Accepts (W.protocol P) Q W pending time witness key b trxs s s₁ ↔
        Acceptable (W.protocol P) Q W pending time witness key s) := by
  have hallowed : W.Allows s.db.objects time witness key := by
    unfold assembleBlock at hrun
    rw [get_bind, assert_bind_eq_ok] at hrun
    exact hrun.1
  obtain ⟨s₁', hrun', hassembled⟩ := h.assembleBlock hQ pending hallowed
  obtain ⟨hblock, rfl⟩ := EStateM.Result.ok.inj (hrun.symm.trans hrun')
  obtain ⟨hb, htrxs⟩ := Prod.mk.inj hblock
  have hobjects := hassembled.objects
  have htaken : trxs = W.taken (Q.protocol (W.protocol P)) (W.maximumBlockSize s.db.objects)
      s₁.db.objects W.maxBlockHeaderSize pending := by
    rw [htrxs, hobjects]
    rfl
  have hsealed : b = W.sealed (W.protocol P) s₁.db.objects time witness key
      (trxs.map ProcessedTransaction.trx) := by
    rw [hb, htrxs, hobjects]
  have htransactions : b.transactions = trxs.map ProcessedTransaction.trx := by
    rw [hsealed]
    rfl
  have hwitness : b.witness = witness := by
    rw [hsealed]
    rfl
  have hprevious : b.previous = s₁.db.objects.headBlockId := by
    rw [hsealed]
    rfl
  refine ⟨htransactions, ?_, ?_⟩
  · rw [htransactions, htaken, ← hpending]
    exact W.taken_sublist _ _ pending _ _
  -- the four parts: the size, the header, the results, the fork database
  have hsize : W.blockSize b.witness trxs ≤ W.maximumBlockSize s₁.db.objects ↔
      W.blockSize witness [] ≤ W.maximumBlockSize s₁.db.objects ∧
        W.HaveRoom (Q.protocol (W.protocol P)) witness (W.maximumBlockSize s₁.db.objects)
          (W.maximumBlockSize s.db.objects) s₁.db.objects W.maxBlockHeaderSize [] pending := by
    rw [hwitness, htaken]
    exact Producer.blockSize_taken_le_iff witness _ _ pending _ _ []
  have hprocess : (∃ t, processBlock (W.protocol P) Q W b s₁.inBlock = .ok trxs t) ↔
      s₁.db.objects.time < time ∧ (W.protocol P).scheduled s₁.db.objects b = true :=
    hassembled.atHead.processBlock_sealed_iff hQ _ _ htaken hsealed hclose
  have hscheduled : (W.protocol P).scheduled s₁.db.objects b = true ↔
      W.Allows s₁.db.objects time witness key := by
    change decide (W.Schedules s₁.db.objects b) = true ↔ _
    rw [decide_eq_true_iff, hsealed]
    exact schedules_sealed_iff (W.protocol P) s₁.db.objects _
  have hcollision : HashesPrevious (W.protocol P) := hid
  have hpush := hassembled.atHead.pushBlock_head_iff hg hcollision hQ hprevious
  have hgenerate : ∀ s', generate (W.protocol P) Q W pending time witness key s = .ok b s' ↔
      W.blockSize b.witness trxs ≤ W.maximumBlockSize s₁.db.objects ∧
      pushBlock (W.protocol P) Q b (s₁.db.forkDb.choice (W.protocol P) s₁.db.objects b) s₁ =
        .ok () s' := by
    intro s'
    unfold generate
    rw [bind_apply, hrun]
    dsimp only
    rw [get_bind, assert_bind_eq_ok, bind_eq_ok]
    constructor
    · rintro ⟨hfits, u, s₂, hpushed, hdone⟩
      cases hdone
      exact ⟨hfits, hpushed⟩
    · rintro ⟨hfits, hpushed⟩
      exact ⟨hfits, (), s', hpushed, rfl⟩
  have happlies : (∃ t, processBlock (W.protocol P) Q W b s₁.inBlock = .ok trxs t) →
      ∃ u t, applyBlock (W.protocol P) Q b s₁.inBlock = .ok u t := by
    rintro ⟨t, ht⟩
    refine ⟨(), t, ?_⟩
    rw [applyBlock_of_processBlock (W := W), bind_apply, ht]
    rfl
  constructor
  · rintro ⟨⟨s', o, hreturned, hhead⟩, happlied⟩
    obtain ⟨hfits, hpushed⟩ := (hgenerate s').mp hreturned
    obtain ⟨hlater, hheader⟩ := hprocess.mp happlied
    obtain ⟨hempty, hroom⟩ := hsize.mp hfits
    have htakes := (hpush (happlies happlied)).mp ⟨s', o, hpushed, hhead⟩
    rw [hobjects] at hlater hempty hroom
    exact
      { allows := hobjects ▸ hscheduled.mp hheader
        later := hlater
        headerRoom := hempty
        room := hroom
        takesNext := by
          rw [← hassembled.forkDb, ← hobjects]
          exact htakes }
  · rintro ⟨hallows, hlater, hempty, hroom, htakes⟩
    rw [← hobjects] at hallows hlater hempty hroom htakes
    rw [← hassembled.forkDb] at htakes
    have happlied := hprocess.mpr ⟨hlater, hscheduled.mpr hallows⟩
    obtain ⟨s', o, hpushed, hhead⟩ := (hpush (happlies happlied)).mpr htakes
    exact ⟨⟨s', o, (hgenerate s').mpr ⟨hsize.mpr ⟨hempty, hroom⟩, hpushed⟩, hhead⟩, happlied⟩

/-- Whatever is generated in a state is accepted, unless a step after the transactions fails. -/
def GeneratesAccepted (P : Protocol Op R) (Q : Proposals Op R) (W : Producer Op R ρ)
    (pending : List (ProcessedTransaction Op ρ)) (time witness key : ℕ) (s : Node Op R) : Prop :=
  ∀ b trxs s₁, assembleBlock P Q W pending time witness key s = .ok (b, trxs) s₁ →
    (∀ u t, b.transactions.forM (applyTransaction P Q) s₁.inBlock = .ok u t →
      ∃ u' t', closeBlock P Q b (s₁.db.objects.nextMaintenanceTime ≤ b.timestamp) t = .ok u' t') →
    Accepts P Q W pending time witness key b trxs s s₁

/-- What is to be found out by running the functions. -/
theorem closes_of_run' {b : SignedBlock Op} {maintNeeded : Bool} {u : Unit}
    (h : (b.transactions.forM (applyTransaction P Q) >>= fun _ =>
      closeBlock P Q b maintNeeded : NodeM Op R Unit).run' s = some u) :
    ∀ u t, b.transactions.forM (applyTransaction P Q) s = .ok u t →
      ∃ u' t', closeBlock P Q b maintNeeded t = .ok u' t' := by
  intro u₁ t hloop
  obtain ⟨_, s₁, hloop', hclose⟩ := bind_eq_ok.mp (ok_final_of_run' h)
  cases hloop.symm.trans hloop'
  exact ⟨u, _, hclose⟩

theorem not_generatesAccepted_of_thrown (b : SignedBlock Op) (trxs : List (ProcessedTransaction Op ρ))
    {e : ChainError}
    (hrun : (assembleBlock P Q W pending time witness key).run' s = some (b, trxs))
    (hs₁ : s₁ = final (assembleBlock P Q W pending time witness key) s) {u : Unit}
    (hclose : (b.transactions.forM (applyTransaction P Q) >>= fun _ => closeBlock P Q b
      (s₁.db.objects.nextMaintenanceTime ≤ b.timestamp) : NodeM Op R Unit).run' s₁.inBlock = some u)
    (hthrown : thrown (generate P Q W pending time witness key) s = some e) :
    ¬ GeneratesAccepted P Q W pending time witness key s := by
  intro haccepts
  have hassembled := ok_final_of_run' hrun
  rw [← hs₁] at hassembled
  obtain ⟨⟨s', o, hreturned, -⟩, -⟩ := haccepts b trxs s₁ hassembled (closes_of_run' hclose)
  cases hreturned.symm.trans (error_final_of_thrown hthrown)

end Generate

section Example

/-- Operations on a settlement asset with one position: collateral is added to the position, a price is
published at which the asset is settled unless that was done, and so many settlements are asked for. -/
private inductive SettlementOp
  | addCollateral (memo : ℕ)
  | publishFeed
  | settle (count : ℕ)
  | updateSigningKey (key : ℕ)
  deriving DecidableEq

private structure SettlementState where
  collateralized : Bool
  settled : Bool
  signingKey : ℕ

private def SettlementOp.apply : SettlementState → SettlementOp → SettlementState
  | r, .addCollateral _ => { r with collateralized := true }
  | r, .publishFeed => { r with settled := r.settled || !r.collateralized }
  | r, .settle _ => r
  | r, .updateSigningKey key => { r with signingKey := key }

private inductive SettlementResult
  | void
  | objectId
  | asset
  deriving DecidableEq

private def SettlementOp.results (r : SettlementState) : SettlementOp → List SettlementResult
  | .settle count => List.replicate count (if r.settled then .asset else .objectId)
  | _ => [.void]

private def SettlementOp.size : SettlementOp → ℕ
  | .addCollateral memo => 10 + memo
  | .publishFeed => 10
  | .settle count => 10 * count
  | .updateSigningKey _ => 10

private def SettlementResult.size : SettlementResult → ℕ
  | .void => 1
  | .objectId => 9
  | .asset => 10

private def settlementChain : Protocol SettlementOp SettlementState where
  headerHash b := Nat.pair b.previous.hash b.witnessSignature
  merkleRoot trxs := trxs.length
  trxId trx := trx.expiration
  scheduled _ _ := true
  acceptable _ _ := true
  evaluate o trx := some (trx.operations.foldl SettlementOp.apply o.rest)
  countSlots o _ := o.rest
  paySigningWitness o _ := some o.rest
  beginMaintenance o := some o.rest
  nextAvailableVoteId _ := 0
  maximumWitnessCount _ := 0
  maximumCommitteeCount _ := 0
  accounts _ := []
  vote _ _ := none
  processFees o _ := some o.rest
  endMaintenance _ _ _ := none
  endOfBlock o _ := some o.rest

private def settlementActions : Proposals SettlementOp SettlementState where
  actions _ trx := .evaluate (fun o => some (trx.operations.foldl SettlementOp.apply o.rest)) .done
  expired _ := []
  canPop _ := true

private def settlementProducer : Producer SettlementOp SettlementState SettlementResult where
  slotAtTime o time := (time - o.time) / 3
  scheduledWitness _ _ := 6
  signingKey o _ := some o.rest.signingKey
  -- the smallest one that is allowed
  maximumBlockSize _ := 5120
  results o trx := trx.operations.flatMap (SettlementOp.results o.rest)
  packSize ptx := 14 + (ptx.trx.operations.map SettlementOp.size).sum +
    (ptx.operationResults.map SettlementResult.size).sum
  headerSize witness := 110 + unsignedIntSize witness
  getPublicKey key := key
  digest previous time witness merkleRoot := previous.num + time + witness + merkleRoot
  signCompact key _ := key
  signee signature _ := signature
  signee_signCompact _ _ := rfl

private def settlementGenesis : Objects SettlementState where
  headBlockNumber := 0
  headBlockId := .zero
  time := 0
  lastIrreversibleBlockNum := 0
  nextMaintenanceTime := 86400
  maximumTimeUntilExpiration := 86400
  activeWitnesses := [6]
  lastConfirmedBlockNum _ := 0
  transactions := []
  rest := { collateralized := false, settled := false, signingKey := 7 }

private def doing (id : ℕ) (op : SettlementOp) : Transaction SettlementOp where
  refBlockNum := 0
  refBlockPrefix := 0
  expiration := id
  operations := [op]
  signatures := []

/-- The transactions are pushed in an order in which the asset is not settled, and the first of them is too
large for a block. -/
private def unsettled : List (ProcessedTransaction SettlementOp SettlementResult) :=
  [⟨doing 1 (.addCollateral 5000), [.void]⟩, ⟨doing 2 .publishFeed, [.void]⟩,
    ⟨doing 3 (.settle 260), List.replicate 260 .objectId⟩]

private def rekeyed : List (ProcessedTransaction SettlementOp SettlementResult) :=
  [⟨doing 1 (.updateSigningKey 8), [.void]⟩]

private def smaller : List (ProcessedTransaction SettlementOp SettlementResult) :=
  [⟨doing 1 (.addCollateral 1000), [.void]⟩, ⟨doing 2 .publishFeed, [.void]⟩,
    ⟨doing 3 (.settle 100), List.replicate 100 .objectId⟩]

private abbrev settlementProtocol := settlementProducer.protocol settlementChain

private theorem settlement_hash : HashesPrevious settlementChain :=
  fun _ _ h => Protocol.previous_of_blockId (fun _ => rfl) h

private theorem settlement_shallow : settlementActions.Shallow :=
  ⟨fun _ _ => Nat.zero_le 1, fun _ _ h => by cases h⟩

private theorem settlement_unconfirmed : Unconfirmed settlementGenesis :=
  ⟨⟨rfl, rfl, rfl⟩, rfl, fun _ => rfl⟩

private def pushedOf (pending : List (ProcessedTransaction SettlementOp SettlementResult)) :
    Node SettlementOp SettlementState :=
  runCalls settlementProtocol settlementActions (fresh settlementGenesis)
    (pending.map fun tx => .pushTransaction tx.trx)

/-- The block of a node that has only seen pending transactions. -/
private def firstBlock (key : ℕ) (trxs : List (ProcessedTransaction SettlementOp SettlementResult)) :
    SignedBlock SettlementOp :=
  settlementProducer.sealed settlementProtocol settlementGenesis 3 6 key
    (trxs.map ProcessedTransaction.trx)

/-- When the first transaction fits, all of them are in the block, with the results they had. -/
theorem generated_block_accepted_smaller :
    Accepts settlementProtocol settlementActions settlementProducer smaller 3 6 7
        (firstBlock 7 smaller) smaller (pushedOf smaller)
        (final (assembleBlock settlementProtocol settlementActions settlementProducer smaller 3 6 7)
          (pushedOf smaller)) ∧
      Acceptable settlementProtocol settlementActions settlementProducer smaller 3 6 7
        (pushedOf smaller) := by
  have hbetween : Between settlementProtocol settlementActions settlementGenesis (pushedOf smaller) :=
    between_runCalls settlement_unconfirmed settlement_shallow _ (.inl (atHead_fresh _ _ _))
  have hrun : assembleBlock settlementProtocol settlementActions settlementProducer smaller 3 6 7
      (pushedOf smaller) = .ok (firstBlock 7 smaller, smaller) _ :=
    ok_final_of_run' (by decide +kernel)
  have hpending : smaller.map ProcessedTransaction.trx = (pushedOf smaller).pendingTx := by
    decide +kernel
  obtain ⟨-, -, hiff⟩ := generated_block_accepted_iff settlement_unconfirmed settlement_hash
    settlement_shallow hbetween hpending hrun (closes_of_run' (u := ()) (by decide +kernel))
  have hreturned : generate settlementProtocol settlementActions settlementProducer smaller 3 6 7
      (pushedOf smaller) = .ok (firstBlock 7 smaller) _ :=
    ok_final_of_run' (by decide +kernel)
  have hprocessed : processBlock settlementProtocol settlementActions settlementProducer
      (firstBlock 7 smaller) (inBlock (final (assembleBlock settlementProtocol settlementActions
        settlementProducer smaller 3 6 7) (pushedOf smaller))) = .ok smaller _ :=
    ok_final_of_run' (by decide +kernel)
  have hhead : (final (generate settlementProtocol settlementActions settlementProducer smaller 3 6 7)
      (pushedOf smaller)).db.chain.head?.map Prod.fst = some (firstBlock 7 smaller) := by
    decide +kernel
  obtain ⟨⟨c, o⟩, hchain, hc⟩ := Option.map_eq_some_iff.mp hhead
  have hsame : some (c, o) = some (firstBlock 7 smaller, o) := congrArg (fun c => some (c, o)) hc
  have haccepts : Accepts settlementProtocol settlementActions settlementProducer smaller 3 6 7
      (firstBlock 7 smaller) smaller (pushedOf smaller) _ :=
    ⟨⟨_, o, hreturned, hchain.trans hsame⟩, _, hprocessed⟩
  exact ⟨haccepts, hiff.mp haccepts⟩

/-- **Not every generated block is accepted.** In the first state a transaction that is postponed makes the
results of a later one grow, and the block is too large. In the second a pending transaction has changed the
key of the witness, and the block is signed with a key that the witness does not have at the head block. -/
theorem not_generatesAccepted :
    ¬ GeneratesAccepted settlementProtocol settlementActions settlementProducer unsettled 3 6 7
        (pushedOf unsettled) ∧
      ¬ GeneratesAccepted settlementProtocol settlementActions settlementProducer rekeyed 3 6 8
        (pushedOf rekeyed) := by
  let settled : List (ProcessedTransaction SettlementOp SettlementResult) :=
    [⟨doing 2 .publishFeed, [.void]⟩, ⟨doing 3 (.settle 260), List.replicate 260 .asset⟩]
  constructor
  · exact not_generatesAccepted_of_thrown (firstBlock 7 settled) settled
      (by decide +kernel) rfl (u := ()) (by decide +kernel) (e := .assertion) (by decide +kernel)
  · exact not_generatesAccepted_of_thrown (firstBlock 8 rekeyed) rekeyed
      (by decide +kernel) rfl (u := ()) (by decide +kernel) (e := .assertion) (by decide +kernel)

end Example

end Node

end FinChain.Chain
