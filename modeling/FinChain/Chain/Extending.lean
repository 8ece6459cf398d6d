import FinChain.Chain.RejectedBlock

/-!
# Blocks on the head

Two databases can have the same objects and know of different other branches: a node that was
restarted knows of none. A block that builds on the head does the same on both. That takes less than
the fork databases being equal: each of them must have the head block in its index, and its own head
must not be higher, or else be a block on the head block that was rejected (`Extendable`). Pushing
blocks on the head keeps it so, whether they are accepted or rejected.

`pushBlock_sameEnd` puts it together: two extendable databases with the same objects and votes are
extendable again after a block on the head, have the same objects and votes, and the block was
accepted by both or by none.
-/

namespace FinChain.Chain

open Exec

variable {Op R : Type} {P : Protocol Op R}

namespace Database

/-- The head block can be extended. -/
structure Extendable (P : Protocol Op R) (s : Database Op R) : Prop where
  headNum : s.objects.headBlockId.num = s.objects.headBlockNumber
  maxSize : 0 < s.forkDb.maxSize
  known : s.objects.headBlockId ≠ .zero → ∃ i ∈ s.forkDb.index, i.id P = s.objects.headBlockId
  head : ∀ h, s.forkDb.head = some h →
    h.num ≤ s.objects.headBlockNumber ∨ h.data.previous = s.objects.headBlockId

/-- Before the first block. -/
theorem Extendable.genesis {g : Objects R} (hg : Genesis g) : Extendable P (Database.genesis g) where
  headNum := by
    change g.headBlockId.num = g.headBlockNumber
    rw [hg.headBlockId, hg.headBlockNumber]
    rfl
  maxSize := Nat.succ_pos 1023
  known hzero := absurd hg.headBlockId hzero
  head h hh := by cases hh

variable {b : SignedBlock Op} {s t : Database Op R}

theorem Extendable.blockNum (h : Extendable P s) (hb : b.previous = s.objects.headBlockId) :
    b.blockNum = s.objects.headBlockNumber + 1 := by
  unfold SignedBlock.blockNum
  rw [hb, h.headNum]

/-- The fork database takes a block on the head, and its own head is then on the head too. -/
theorem Extendable.takes (h : Extendable P s) (hb : b.previous = s.objects.headBlockId) :
    ∃ item newHead, s.forkDb.pushBlock P b = .ok (s.forkDb.add P item) ∧ item.data = b ∧
      (s.forkDb.add P item).head = some newHead ∧
      newHead.data.previous = s.objects.headBlockId := by
  have hnum := h.blockNum hb
  have hheadNum : ∀ head, s.forkDb.head = some head → head.num ≤ s.objects.headBlockNumber + 1 := by
    intro head hhead
    rcases h.head head hhead with hle | hprevious
    · omega
    · unfold ForkItem.num SignedBlock.blockNum
      rw [hprevious, h.headNum]
  cases hlink : s.forkDb.link P b with
  | error e =>
    obtain ⟨head, hhead, hold | ⟨hzero, hfind⟩⟩ := link_error hlink
    · have hle := hheadNum head hhead
      have hpos := h.maxSize
      omega
    · rw [hb] at hzero hfind
      obtain ⟨i, hi, hid⟩ := h.known hzero
      exact absurd (hid ▸ hfind) (find_ne_none hi)
  | ok item =>
    have hdata := ForkDatabase.link_data hlink
    have hpush : s.forkDb.pushBlock P b = .ok (s.forkDb.add P item) := by
      unfold ForkDatabase.pushBlock
      rw [hlink]
      rfl
    cases hhead : s.forkDb.head with
    | none =>
      refine ⟨item, item, hpush, hdata, ?_, by rw [hdata, hb]⟩
      rw [ForkDatabase.add_head, hhead]
    | some head =>
      have hadd : (s.forkDb.add P item).head =
          if head.num < item.num then some item else some head := by
        rw [ForkDatabase.add_head, hhead]
      by_cases hlt : head.num < item.num
      · rw [if_pos hlt] at hadd
        exact ⟨item, item, hpush, hdata, hadd, by rw [hdata, hb]⟩
      · rw [if_neg hlt] at hadd
        refine ⟨item, head, hpush, hdata, hadd, ?_⟩
        have hitemNum := item_num hlink
        exact (h.head head hhead).resolve_left (by omega)

/-- **A block on the head** is applied to it. -/
theorem Extendable.pushBlock_eq (h : Extendable P s) (hb : b.previous = s.objects.headBlockId) :
    ∃ item newHead, item.data = b ∧ (s.forkDb.add P item).head = some newHead ∧
      newHead.data.previous = s.objects.headBlockId ∧
      pushBlock P b s = (extendChain P b >>= fun _ => pure false)
        { s with forkDb := s.forkDb.add P item } := by
  obtain ⟨item, newHead, hpush, hdata, hnew, hprevious⟩ := h.takes hb
  refine ⟨item, newHead, hdata, hnew, hprevious, ?_⟩
  rcases pushBlock_cases P b s with ⟨e, herror, -⟩ | ⟨f, newHead', hf, hnew', hcases⟩
  · rw [hpush] at herror
    cases herror
  · obtain rfl := Except.ok.inj (hpush.symm.trans hf)
    obtain rfl := Option.some.inj (hnew.symm.trans hnew')
    rcases hcases with ⟨-, hrun⟩ | ⟨hne, -⟩ | ⟨hne, -⟩
    · exact hrun
    · exact absurd hprevious hne
    · exact absurd hprevious hne

/-- The item of a block is in the index after the block was pushed, or another item with its id. -/
theorem exists_mem_add (f : ForkDatabase Op) (item : ForkItem Op) :
    ∃ i ∈ (f.add P item).index, i.id P = item.id P := by
  have hinsert : ∃ i ∈ (f.insert P item).index, i.id P = item.id P := by
    unfold ForkDatabase.insert
    cases hfind : f.find P (item.id P) with
    | some i =>
      refine ⟨i, List.mem_of_find?_eq_some hfind, ?_⟩
      have hid := List.find?_some hfind
      exact of_decide_eq_true hid
    | none => exact ⟨item, List.mem_cons_self, rfl⟩
  obtain ⟨i, hi, hid⟩ := hinsert
  refine ⟨i, ?_, hid⟩
  unfold ForkDatabase.add
  dsimp only
  split
  · exact hi
  · split
    · refine List.mem_filter.mpr ⟨hi, decide_eq_true ?_⟩
      have hnum : i.num = item.num := congrArg BlockId.num hid
      rw [hnum]
      exact Nat.sub_le _ _
    · exact hi

/-- What a block applied in its session leaves of the fork database. -/
structure ForkKept (s s' : Database Op R) : Prop where
  head : s'.forkDb.head = s.forkDb.head
  maxSize : 0 < s.forkDb.maxSize → 0 < s'.forkDb.maxSize
  /-- The items just below the head and above stay. -/
  index : ∀ i ∈ s.forkDb.index, (∀ h, s.forkDb.head = some h → h.num ≤ i.num + 1) →
    i ∈ s'.forkDb.index

theorem forkKept_applyInSession (id : BlockId) :
    Keeps ForkKept (applyInSession P id b) := fun s =>
  ⟨(keeps_topKept (.unlinked 0 b) id b s).1, (keeps_window_applyInSession id b s).maxSize,
    fun i => (keeps_topKept i id b s).2⟩

/-- **Pushing a block on the head**: it is applied to the objects and votes as they are, and whether
it is accepted or not, the head block can be extended afterwards. -/
theorem Extendable.push (h : Extendable P s) (hb : b.previous = s.objects.headBlockId) :
    ∃ s₀ : Database Op R, s₀.objects = s.objects ∧ s₀.buffers = s.buffers ∧
      ((∃ s₁ s', applyBlock P b s₀ = .ok () s₁ ∧ pushBlock P b s = .ok false s' ∧
        s'.objects = s₁.objects ∧ s'.buffers = s₁.buffers ∧
        s'.blockDb = s.blockDb.store P (P.blockId b) b ∧ Extendable P s') ∨
      ∃ e s₁ s', applyBlock P b s₀ = .error e s₁ ∧ pushBlock P b s = .error e s' ∧
        s'.objects = s.objects ∧ s'.buffers = s₁.buffers ∧ Extendable P s') := by
  obtain ⟨item, newHead, hdata, hnew, hprevious, hrun⟩ := h.pushBlock_eq hb
  have hnum := h.blockNum hb
  have hnewNum : newHead.num = s.objects.headBlockNumber + 1 := by
    unfold ForkItem.num SignedBlock.blockNum
    rw [hprevious, h.headNum]
  have hitemNum : item.num = s.objects.headBlockNumber + 1 := by
    rw [ForkItem.num, hdata, hnum]
  have hmaxSize : 0 < (s.forkDb.add P item).maxSize := by
    rw [ForkDatabase.add_maxSize]
    exact h.maxSize
  refine ⟨{ s with forkDb := s.forkDb.add P item, undo := s.undo.start }, rfl, rfl, ?_⟩
  rcases applyInSession_run (P := P) (P.blockId b) b { s with forkDb := s.forkDb.add P item } with
    ⟨s₁, s', happly, hsession, hobjects, hbuffers⟩ |
    ⟨e, s₁, s', happly, hsession, hobjects, hbuffers⟩
  · -- the block is the head, and its item is in the index
    have hextended := applyInSession_ok hsession
    have hkept := (forkKept_applyInSession (P.blockId b)).of_ok hsession
    have happlied := hextended.yields.blockApplied
    refine .inl ⟨s₁, s', happly, ?_, hobjects, hbuffers, hextended.blockDb, ?_⟩
    · rw [hrun, bind_apply]
      unfold extendChain
      rw [tryCatch_apply, hsession]
      rfl
    · refine ⟨?_, hkept.maxSize hmaxSize, fun _ => ?_, fun head hhead => .inl ?_⟩
      · rw [happlied.headBlockId, happlied.headBlockNumber, Protocol.blockId_num]
      · obtain ⟨i, hi, hid⟩ := exists_mem_add (P := P) s.forkDb item
        have hinum : i.num = item.num := congrArg BlockId.num hid
        refine ⟨i, hkept.index i hi fun head hhead => ?_, ?_⟩
        · obtain rfl := Option.some.inj (hnew.symm.trans hhead)
          omega
        · rw [happlied.headBlockId, hid, ForkItem.id, hdata]
      · obtain rfl := Option.some.inj (hnew.symm.trans (hkept.head.symm.trans hhead))
        rw [happlied.headBlockNumber, hnum, hnewNum]
  · -- the item is taken out again, but may still be the head of the fork database
    have hkept := (forkKept_applyInSession (P.blockId b)).of_error hsession
    have hunchanged : s'.objects = s.objects := hobjects
    refine .inr ⟨e, s₁, { s' with forkDb := s'.forkDb.remove P (P.blockId b) }, happly, ?_,
      hunchanged, hbuffers, ?_⟩
    · rw [hrun, bind_apply]
      unfold extendChain
      rw [tryCatch_apply, hsession]
      rfl
    · refine ⟨?_, hkept.maxSize hmaxSize, fun hzero => ?_, fun head hhead => .inr ?_⟩
      · change s'.objects.headBlockId.num = s'.objects.headBlockNumber
        rw [hunchanged]
        exact h.headNum
      · change s'.objects.headBlockId ≠ .zero at hzero
        rw [hunchanged] at hzero
        obtain ⟨i, hi, hid⟩ := h.known hzero
        have hinum : i.num = s.objects.headBlockNumber := by
          rw [← h.headNum, ← hid]
          rfl
        have hadded : i ∈ (s.forkDb.add P item).index := by
          refine ForkDatabase.mem_add item hi ?_
          have hpos := h.maxSize
          omega
        have hmem := hkept.index i hadded fun head hhead => by
          obtain rfl := Option.some.inj (hnew.symm.trans hhead)
          omega
        refine ⟨i, List.mem_filter.mpr ⟨hmem, decide_eq_true ?_⟩, ?_⟩
        · rw [hid, ← hb]
          exact (Protocol.blockId_ne_previous P b).symm
        · change i.id P = s'.objects.headBlockId
          rw [hunchanged, hid]
      · change head.data.previous = s'.objects.headBlockId
        obtain rfl := Option.some.inj (hnew.symm.trans (hkept.head.symm.trans hhead))
        rw [hunchanged, hprevious]

/-- A block that the objects accept is accepted by `push_block`. -/
theorem Extendable.accepts {s' : Database Op R} {u : Unit} (h : Extendable P s)
    (happly : applyBlock P b s = .ok u s') :
    ∃ s'', pushBlock P b s = .ok false s'' ∧ s''.objects = s'.objects := by
  have hb : b.previous = s.objects.headBlockId := (applyBlock_ok happly).previous.symm
  obtain ⟨s₀, hobjects, hbuffers, hpush⟩ := h.push hb
  have hsame : SameEnd SameVotes (applyBlock P b s) (applyBlock P b s₀) := by
    refine related_applyBlock b s s₀ ⟨hobjects.symm, ?_⟩
    rw [hbuffers]
    exact .refl _
  obtain ⟨s₁, happly', hend⟩ := (happly ▸ hsame).of_ok
  rcases hpush with ⟨s₂, s'', happly'', hrun, hs'', -⟩ | ⟨e, s₂, s'', happly'', -⟩
  · obtain ⟨⟩ := happly'.symm.trans happly''
    exact ⟨s'', hrun, hs''.trans hend.1.symm⟩
  · cases happly'.symm.trans happly''

/-- **Two extendable databases** with the same objects and votes accept the same block on the head, and
have the same objects and votes again. -/
theorem sameEnd_pushBlock (hs : Extendable P s) (ht : Extendable P t) (hst : SameVotes s t)
    (hb : b.previous = s.objects.headBlockId) :
    SameEnd SameVotes (pushBlock P b s) (pushBlock P b t) ∧
      Extendable P (final (pushBlock P b) s) ∧ Extendable P (final (pushBlock P b) t) := by
  obtain ⟨s₀, hobjects, hbuffers, hpush⟩ := hs.push hb
  obtain ⟨t₀, hobjects', hbuffers', hpush'⟩ := ht.push (hb.trans (congrArg Objects.headBlockId hst.1))
  have hsame : SameEnd SameVotes (applyBlock P b s₀) (applyBlock P b t₀) := by
    refine related_applyBlock b s₀ t₀ ⟨?_, ?_⟩
    · rw [hobjects, hobjects', hst.1]
    · rw [hbuffers, hbuffers']
      exact hst.2
  rcases hpush with ⟨s₁, s', happly, hrun, ho, hv, -, hext⟩ | ⟨e, s₁, s', happly, hrun, ho, hv, hext⟩
  · obtain ⟨t₁, happly', hend⟩ := (happly ▸ hsame).of_ok
    rcases hpush' with ⟨t₂, t', happly'', hrun', ho', hv', -, hext'⟩ | ⟨e, t₂, t', happly'', -⟩
    · obtain ⟨⟩ := happly'.symm.trans happly''
      rw [final_of_ok hrun, final_of_ok hrun', hrun, hrun']
      refine ⟨.ok false ⟨?_, ?_⟩, hext, hext'⟩
      · rw [ho, ho', hend.1]
      · rw [hv, hv']
        exact hend.2
    · cases happly'.symm.trans happly''
  · obtain ⟨t₁, happly', hend⟩ := (happly ▸ hsame).of_error
    rcases hpush' with ⟨t₂, t', happly'', -⟩ | ⟨e', t₂, t', happly'', hrun', ho', hv', hext'⟩
    · cases happly'.symm.trans happly''
    · obtain ⟨⟩ := happly'.symm.trans happly''
      rw [final_of_error hrun, final_of_error hrun', hrun, hrun']
      refine ⟨.error e ⟨?_, ?_⟩, hext, hext'⟩
      · rw [ho, ho', hst.1]
      · rw [hv, hv']
        exact hend.2

/-- Each block builds on the head as the blocks before it have left it. -/
def OnHead (P : Protocol Op R) : List (SignedBlock Op) → Database Op R → Prop
  | [], _ => True
  | b :: bs, s => b.previous = s.objects.headBlockId ∧ OnHead P bs (final (pushBlock P b) s)

/-- **Later blocks**: extendable databases with the same objects and votes stay so while blocks are
pushed on their head. -/
theorem sameVotes_pushAll : ∀ {bs : List (SignedBlock Op)} {s t : Database Op R}, Extendable P s →
    Extendable P t → SameVotes s t → OnHead P bs s →
    Extendable P (pushAll P s bs) ∧ Extendable P (pushAll P t bs) ∧
      SameVotes (pushAll P s bs) (pushAll P t bs)
  | [], s, t, hs, ht, hst, _ => ⟨hs, ht, hst⟩
  | b :: bs, s, t, hs, ht, hst, hhead => by
    obtain ⟨hsame, hs', ht'⟩ := sameEnd_pushBlock hs ht hst hhead.1
    have hst' : SameVotes (final (pushBlock P b) s) (final (pushBlock P b) t) := by
      cases hrun : pushBlock P b s with
      | ok r s' =>
        obtain ⟨t', hrun', hend⟩ := (hrun ▸ hsame).of_ok
        rw [final_of_ok hrun, final_of_ok hrun']
        exact hend
      | error e s' =>
        obtain ⟨t', hrun', hend⟩ := (hrun ▸ hsame).of_error
        rw [final_of_error hrun, final_of_error hrun']
        exact hend
    have hrest := sameVotes_pushAll hs' ht' hst' hhead.2
    exact hrest

end Database

end FinChain.Chain
