import FinChain.Chain.Reindex
import FinChain.Chain.Extending

/-!
# What a restart leaves behind

After `reindex` there are three views of where the chain ends: the head of the objects, the last block
in the block database, and the head of the fork database. They agree, and the head can be extended, if
the file of blocks has no gaps (`restarted_iff`).

If it has one, they do not. `open` seeds the fork database before `reindex` finds the gap and removes
what is beyond it, and nobody seeds it again. The head of the fork database is then a block that was
removed, and the next block of the chain does not link to it (`not_restarted_of_gap`). And if the last
entry cannot be read, then `reindex` returns at once, with nothing replayed and nothing removed.
-/

namespace FinChain.Chain

open Exec

variable {Op R : Type}

namespace Database

variable {P : Protocol Op R}

/-! ### After `reindex` -/

/-- The three views of the end of the chain agree, and it can be extended. `F₀` are the blocks before
they are replayed, `F` those that are left. -/
structure Restarted (P : Protocol Op R) (F₀ F : BlockFile Op) (s : Database Op R) : Prop where
  readable : ∀ n, 0 < n → n ≤ s.objects.headBlockNumber → (F₀.fetchByNumber P n).isSome
  unreadable : F₀.fetchByNumber P (s.objects.headBlockNumber + 1) = none
  lastId : F.lastId.getD .zero = s.objects.headBlockId
  forkHead : (s.forkDb.head.map fun i => i.id P).getD .zero = s.objects.headBlockId
  /-- A block that is valid on the head is accepted. -/
  child : ∀ b s' u, applyBlock P b s = .ok u s' →
    ∃ s'', pushBlock P b s = .ok false s'' ∧ s''.objects = s'.objects

variable {C : Checks P} {checkpoints : Checkpoints} {g : Objects R} {F F' : BlockFile Op}

theorem extendable_openDatabase (hg : Genesis g) (hlast : F.last = none) :
    Extendable P (openDatabase P g F) := by
  have hgenesis := Extendable.genesis (P := P) hg
  refine ⟨hgenesis.headNum, ?_, fun hzero => absurd hg.headBlockId hzero, fun h hh => ?_⟩
  · unfold openDatabase
    rw [hlast]
    exact Nat.succ_pos 1023
  · unfold openDatabase at hh
    rw [hlast] at hh
    cases hh

/-- All blocks were replayed, and the last one is in the fork database. -/
theorem Replayed.extendable {n : ℕ} {s : Database Op R} {last : SignedBlock Op}
    (h : Replayed P g F n s) (hlast : F.last = some last) (hnum : last.blockNum = n)
    (hid : P.blockId last = F.idAt n) : Extendable P s := by
  have hseeded := h.forkDb last hlast
  have hhead : s.objects.headBlockId = P.blockId last := by
    rw [h.headBlockId, if_neg (hnum ▸ Nat.succ_ne_zero _), hid]
  refine ⟨?_, hseeded.maxSize, fun _ => ?_, fun head hhead' => .inl ?_⟩
  · rw [hhead, h.headBlockNumber, Protocol.blockId_num, hnum]
  · rw [hseeded.index]
    exact ⟨_, List.mem_singleton.mpr rfl, hhead.symm⟩
  · obtain rfl := Option.some.inj (hseeded.head.symm.trans hhead')
    rw [h.headBlockNumber, ← hnum]
    rfl

/-- Nothing was replayed because there is no block to read. -/
theorem restarted_iff_of_no_last (hg : Genesis g) (hlast : F.last = none) :
    Restarted P F F (openDatabase P g F) ↔ F.Gapless P := by
  have hhead : (openDatabase P g F).objects.headBlockId = .zero := hg.headBlockId
  have hnum : (openDatabase P g F).objects.headBlockNumber = 0 := hg.headBlockNumber
  have hfork : (openDatabase P g F).forkDb.head = none := by
    unfold openDatabase
    rw [hlast]
  cases hl : F.lastEntry with
  | none =>
    have hgapless : F.Gapless P := by
      rintro n - ⟨l, hl', -⟩
      rw [hl] at hl'
      cases hl'
    refine ⟨fun _ => hgapless, fun _ => ⟨fun n hpos hn => ?_, ?_, ?_, ?_, fun b s' u happly =>
      (extendable_openDatabase hg hlast).accepts happly⟩⟩
    · omega
    · cases hfetch : F.fetchByNumber P ((openDatabase P g F).objects.headBlockNumber + 1) with
      | none => rfl
      | some b =>
        obtain ⟨hlt, hread, -⟩ := BlockFile.fetchByNumber_eq_some.mp hfetch
        have hunused := BlockFile.lastBelow_eq_none hl _ hlt
        rw [BlockFile.used_of_read hread] at hunused
        cases hunused
    · rw [hhead, BlockFile.lastId, hl]
      rfl
    · rw [hhead, hfork]
      rfl
  | some l =>
    obtain ⟨-, hpos, hid⟩ := BlockFile.lastEntry_placed hl
    constructor
    · -- the entry that could not be read is still there
      intro h
      have hlastId := h.lastId
      rw [hhead, BlockFile.lastId, hl] at hlastId
      have hzero : l = 0 := hid.symm.trans (congrArg BlockId.num hlastId)
      omega
    · intro h
      obtain ⟨b, hfetch⟩ := Option.isSome_iff_exists.mp (h l hpos ⟨l, hl, le_rfl⟩)
      have hread : F.read l = none := by
        unfold BlockFile.last at hlast
        rw [hl] at hlast
        exact hlast
      rw [(BlockFile.fetchByNumber_eq_some.mp hfetch).2.1] at hread
      cases hread

/-- All blocks were replayed up to the number of the last one. -/
theorem restarted_iff_of_replayed {s : Database Op R} {last : SignedBlock Op}
    (hlast : F.last = some last) (hs : Replayed P g F last.blockNum s) :
    Restarted P F F s ↔ F.Gapless P := by
  have hne : last.blockNum ≠ 0 := Nat.succ_ne_zero _
  have hid : s.objects.headBlockId = F.idAt last.blockNum := by
    rw [hs.headBlockId, if_neg hne]
  obtain ⟨l, hl, hread⟩ := Option.bind_eq_some_iff.mp hlast
  obtain ⟨-, hpos, hnum⟩ := BlockFile.lastEntry_placed hl
  constructor
  · intro h
    -- the last entry has the id of the head, and so its number
    have hlastId := h.lastId
    rw [hid, BlockFile.lastId, hl] at hlastId
    have hfetch := hs.readable last.blockNum (Nat.pos_of_ne_zero hne) le_rfl
    obtain ⟨b, hb⟩ := Option.isSome_iff_exists.mp hfetch
    have hplaced := F.placed last.blockNum
      (BlockFile.used_of_read (BlockFile.fetchByNumber_eq_some.mp hb).2.1)
    have heq : l = last.blockNum := by
      rw [← hnum, ← hplaced.2.2]
      exact congrArg BlockId.num hlastId
    rintro n hn ⟨l', hl', hle⟩
    obtain rfl : l = l' := Option.some.inj (hl.symm.trans hl')
    exact hs.readable n hn (by omega)
  · intro h
    obtain ⟨b, hb⟩ := Option.isSome_iff_exists.mp (h l hpos ⟨l, hl, le_rfl⟩)
    obtain ⟨-, hread', hblockId⟩ := BlockFile.fetchByNumber_eq_some.mp hb
    obtain rfl : last = b := Option.some.inj (hread.symm.trans hread')
    have heq : last.blockNum = l := BlockFile.blockNum_of_fetch hb
    have hseeded := hs.forkDb last hlast
    refine ⟨fun n hn hle => ?_, ?_, ?_, ?_, fun b s' u happly => ?_⟩
    · rw [hs.headBlockNumber] at hle
      exact hs.readable n hn hle
    · rw [hs.headBlockNumber, heq]
      cases hfetch : F.fetchByNumber P (l + 1) with
      | none => rfl
      | some b =>
        obtain ⟨hlt, hread'', -⟩ := BlockFile.fetchByNumber_eq_some.mp hfetch
        have hunused := (BlockFile.lastBelow_eq_some hl).2.2 (l + 1) (Nat.lt_succ_self l) hlt
        rw [BlockFile.used_of_read hread''] at hunused
        cases hunused
    · rw [hid, BlockFile.lastId, hl, heq]
      rfl
    · rw [hseeded.head, hid, heq]
      exact hblockId
    · exact (hs.extendable hlast rfl (heq ▸ hblockId)).accepts happly

/-- A gap was found below the number of the last block. -/
theorem not_restarted_of_gap {s s₁ : Database Op R} {last : SignedBlock Op} {k : ℕ}
    (hlast : F.last = some last) (hk : k < last.blockNum) (hs₁ : Replayed P g F k s₁)
    (hgap : F.fetchByNumber P (k + 1) = none) (hs : s = { s₁ with blockDb := F'.db }) :
    ¬ Restarted P F F' s ∧ ¬ F.Gapless P := by
  refine ⟨fun h => ?_, fun h => ?_⟩
  · -- the fork database still has the last block, the objects do not
    have hfork := h.forkHead
    rw [hs] at hfork
    rw [(hs₁.forkDb last hlast).head] at hfork
    have hid : P.blockId last = s₁.objects.headBlockId := hfork
    have hheadNum : s₁.objects.headBlockId.num = k := by
      rw [hs₁.headBlockId]
      by_cases hzero : k = 0
      · rw [if_pos hzero, hzero]
        rfl
      · rw [if_neg hzero]
        obtain ⟨b, hb⟩ := Option.isSome_iff_exists.mp
          (hs₁.readable k (Nat.pos_of_ne_zero hzero) le_rfl)
        exact (F.placed k (BlockFile.used_of_read (BlockFile.fetchByNumber_eq_some.mp hb).2.1)).2.2
    rw [← hid, Protocol.blockId_num] at hheadNum
    omega
  · obtain ⟨l, hl, hread⟩ := Option.bind_eq_some_iff.mp hlast
    obtain ⟨-, hpos, -⟩ := BlockFile.lastEntry_placed hl
    obtain ⟨b, hb⟩ := Option.isSome_iff_exists.mp (h l hpos ⟨l, hl, le_rfl⟩)
    obtain rfl : last = b :=
      Option.some.inj (hread.symm.trans (BlockFile.fetchByNumber_eq_some.mp hb).2.1)
    have heq := BlockFile.blockNum_of_fetch hb
    have hreadable := h (k + 1) (Nat.succ_pos k) ⟨l, hl, by omega⟩
    rw [hgap] at hreadable
    cases hreadable

/-- **Restarting.** When `reindex` returns, the views of the end of the chain agree, the head is the
last of the blocks that can be read one after the other, and it can be extended, exactly if every
number up to that of the last entry with a block has a readable block. -/
theorem restarted_iff (hg : Genesis g) {blockNo : ℕ} {F₀ : BlockFile Op} {s : Database Op R}
    (hopened : F.opened P blockNo = .ok F₀)
    (h : reindex C checkpoints g blockNo F = .ok (s, F')) :
    Restarted P F₀ F' s ↔ F₀.Gapless P := by
  rcases reindex_ok hg h hopened with ⟨hlast, rfl, rfl⟩ | ⟨last, hlast, ⟨hs, rfl⟩ |
    ⟨k, s₁, hk, hs₁, hgap, -, hs⟩⟩
  · exact restarted_iff_of_no_last hg hlast
  · exact restarted_iff_of_replayed hlast hs
  · have hnot := not_restarted_of_gap hlast hk hs₁ hgap hs
    exact ⟨fun hrestarted => absurd hrestarted hnot.1, fun hgapless => absurd hgapless hnot.2⟩

section Example

private def q₁ : SignedBlock ℕ := .empty .zero 1 1
private def q₂ : SignedBlock ℕ := .empty (Protocol.permissive.blockId q₁) 2 1
private def q₃ : SignedBlock ℕ := .empty (Protocol.permissive.blockId q₂) 3 1

private def noBlocks : Objects Unit := Protocol.permissiveGenesis [0]

private def fileOf (bs : List (SignedBlock ℕ)) : BlockFile ℕ := .ofBlocks .permissive bs

/-- The database after `reindex`. -/
private def reindexed (bs : List (SignedBlock ℕ)) : Option (Database ℕ Unit × BlockFile ℕ) :=
  (reindex .permissive .none noBlocks 0 (fileOf bs)).toOption

private theorem reindex_of_isSome (bs : List (SignedBlock ℕ)) (h : (reindexed bs).isSome = true) :
    ∃ r, reindexed bs = some r ∧ reindex .permissive .none noBlocks 0 (fileOf bs) = .ok r := by
  unfold reindexed at h ⊢
  cases hrun : reindex .permissive .none noBlocks 0 (fileOf bs) with
  | error e =>
    rw [hrun] at h
    cases h
  | ok r => exact ⟨r, rfl, rfl⟩

/-- With two blocks stored one after the other, a restart succeeds. -/
theorem restarted_two : ∃ s F', reindexed [q₂, q₁] = some (s, F') ∧
    Restarted .permissive (fileOf [q₂, q₁]) F' s := by
  obtain ⟨⟨s, F'⟩, hsome, hrun⟩ := reindex_of_isSome [q₂, q₁] (by decide +kernel)
  refine ⟨s, F', hsome, (restarted_iff ⟨rfl, rfl, rfl⟩ rfl hrun).mpr ?_⟩
  have hlast : (fileOf [q₂, q₁]).lastEntry = some 2 := by decide +kernel
  have hread : ∀ n < 3, 0 < n → ((fileOf [q₂, q₁]).fetchByNumber .permissive n).isSome := by
    decide +kernel
  rintro n hn ⟨l, hl, hle⟩
  rw [hlast] at hl
  cases hl
  exact hread n (by omega) hn

/-- **A gap.** The second of three blocks is missing. After the restart the first block is the head,
but the third is the head of the fork database, and the second one is not accepted. -/
theorem not_restarted_gap : ∃ s F', reindex .permissive .none noBlocks 0 (fileOf [q₃, q₁]) = .ok (s, F') ∧
    s.objects.headBlockId = Protocol.permissive.blockId q₁ ∧
    s.forkDb.head.map (ForkItem.id .permissive) = some (Protocol.permissive.blockId q₃) ∧
    thrown (applyBlock .permissive q₂) s = none ∧
    thrown (pushBlock .permissive q₂) s = some .unlinkable ∧
    ¬ Restarted .permissive (fileOf [q₃, q₁]) F' s := by
  obtain ⟨⟨s, F'⟩, hsome, hrun⟩ := reindex_of_isSome [q₃, q₁] (by decide +kernel)
  have hall : (reindexed [q₃, q₁]).map (fun r => (r.1.objects.headBlockId,
      r.1.forkDb.head.map (ForkItem.id .permissive), thrown (applyBlock .permissive q₂) r.1,
      thrown (pushBlock .permissive q₂) r.1)) =
        some (Protocol.permissive.blockId q₁, some (Protocol.permissive.blockId q₃), none,
          some .unlinkable) := by
    decide +kernel
  rw [hsome, Option.map_some, Option.some.injEq, Prod.mk.injEq, Prod.mk.injEq, Prod.mk.injEq] at hall
  obtain ⟨hhead, hfork, happly, hpush⟩ := hall
  refine ⟨s, F', hrun, hhead, hfork, happly, hpush, fun h => ?_⟩
  have hforkHead := h.forkHead
  change (s.forkDb.head.map (ForkItem.id .permissive)).getD .zero = _ at hforkHead
  rw [hfork, hhead] at hforkHead
  exact absurd hforkHead (by decide +kernel)

end Example

end Database

end FinChain.Chain
