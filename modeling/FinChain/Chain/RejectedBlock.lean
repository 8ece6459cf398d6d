import FinChain.Chain.BlockView
import FinChain.Chain.ForkHead

/-!
# What a rejected block leaves behind

A block that builds on the head and fails is taken out of the index of the fork database, but it
stays the head of the fork database, and this head is what the next block is compared with. So a
later block that does not build on the head block, which would have been kept aside, is applied to
the head block and rejected. A block that fails in the middle of its maintenance leaves its votes
in the buffers, where the next maintenance finds them.

`sameOutcome_of_harmless` states when a rejected block has no influence on the next one: when the
fork database refuses one of the two, or when the next block builds on the head block and the
buffers are not both written by the first and read by the second. It also states that a block that
would be kept aside always ends differently.
-/

namespace FinChain.Chain

open Exec Database

variable {Op R : Type} {P : Protocol Op R} {g : Objects R}

/-- Pushing `c` ends alike on both databases: it is accepted by both or by none, and leaves the
same objects, the head block among them. -/
structure SameOutcome (P : Protocol Op R) (c : SignedBlock Op) (s t : Database Op R) : Prop where
  accepted : (thrown (pushBlock P c) s).isNone = (thrown (pushBlock P c) t).isNone
  objects : (final (pushBlock P c) s).objects = (final (pushBlock P c) t).objects

/-- After the fork database has taken the block, its head is on another branch and higher than the
head block. -/
def AttemptsSwitch (P : Protocol Op R) (s : Database Op R) (b : SignedBlock Op) : Prop :=
  ∃ f newHead, s.forkDb.pushBlock P b = .ok f ∧ f.head = some newHead ∧
    newHead.data.previous ≠ s.objects.headBlockId ∧ s.objects.headBlockNumber < newHead.num

/-- The fork database refuses the block. -/
def Refused (P : Protocol Op R) (s : Database Op R) (b : SignedBlock Op) : Prop :=
  ∃ e, s.forkDb.pushBlock P b = .error e

/-- The vote buffers carry nothing from `b` to `c`: one of them has no maintenance to do, or the
buffers were empty and `b` does not fail while it fills them. -/
def BuffersUntouched (P : Protocol Op R) (s : Database Op R) (b c : SignedBlock Op) : Prop :=
  c.timestamp < s.objects.nextMaintenanceTime ∨ b.timestamp < s.objects.nextMaintenanceTime ∨
    NoVotes s.buffers ∧ ¬ FailsInTally P b s

/-- The rejected block `b` does not matter for `c`: the fork database refuses one of them, or `c`
builds on the head block, which `b` is not, and the vote buffers carry nothing over. -/
def Harmless (P : Protocol Op R) (s : Database Op R) (b c : SignedBlock Op) : Prop :=
  Refused P s b ∨ Refused P s c ∨
    c.previous = s.objects.headBlockId ∧ P.blockId b ≠ s.objects.headBlockId ∧
      BuffersUntouched P s b c

/-- The fork database takes the block, but it does not build on the head block and is not higher
than it. -/
def KeptAside (P : Protocol Op R) (s : Database Op R) (c : SignedBlock Op) : Prop :=
  ¬ Refused P s c ∧ c.previous ≠ s.objects.headBlockId ∧ c.blockNum ≤ s.objects.headBlockNumber

/-! ### The fork database in reachable states -/

/-- The window of the fork database stays open, and its head is not lost. -/
structure WindowKept (s s' : Database Op R) : Prop where
  maxSize : 0 < s.forkDb.maxSize → 0 < s'.forkDb.maxSize
  head : s.forkDb.head ≠ none → s'.forkDb.head ≠ none

theorem WindowKept.frame : Frame (@WindowKept Op R) where
  refl _ := ⟨id, id⟩
  trans h₁ h₂ := ⟨h₂.maxSize ∘ h₁.maxSize, h₂.head ∘ h₁.head⟩

theorem setMaxSize_maxSize (f : ForkDatabase Op) (n : ℕ) : (f.setMaxSize n).maxSize = n := by
  unfold ForkDatabase.setMaxSize
  split <;> rfl

/-- What holds of a block and of changes outside the objects holds of a block in its session. -/
theorem keeps_applyInSession_of_block {F : Database Op R → Database Op R → Prop} (hF : Frame F)
    (hundo : ∀ s u, F s { s with undo := u }) (hstore : ∀ s d, F s { s with blockDb := d })
    (hchain : ∀ s c, F s { s with chain := c }) {b : SignedBlock Op}
    (hblock : Keeps F (applyBlock P b)) (id : BlockId) : Keeps F (applyInSession P id b) := by
  have hundoOp : ∀ op, Keeps F (undoOp op : DatabaseM Op R Unit) := by
    intro op
    refine hF.keeps_bind hF.keeps_get fun s => ?_
    split
    · exact hF.keeps_throw _
    · exact keeps_update fun s => hundo s _
  refine hF.keeps_bind hF.keeps_get fun _ => hF.keeps_bind (keeps_update fun s => hundo s _)
    fun _ => ?_
  refine hF.keeps_bind (hF.keeps_tryCatch hblock fun e =>
    hF.keeps_bind (hundoOp _) fun _ => hF.keeps_throw e) fun _ => ?_
  exact hF.keeps_bind (keeps_update fun s => hstore s _) fun _ => hF.keeps_bind (hundoOp _) fun _ =>
    keeps_update fun s => hchain s _

theorem keeps_window_applyInSession (id : BlockId) (b : SignedBlock Op) :
    Keeps WindowKept (applyInSession P id b) := by
  refine keeps_applyInSession_of_block WindowKept.frame (fun _ _ => ⟨fun h => h, fun h => h⟩)
    (fun _ _ => ⟨fun h => h, fun h => h⟩) (fun _ _ => ⟨fun h => h, fun h => h⟩) ?_ id
  refine keeps_applyBlock WindowKept.frame (fun _ _ => ⟨fun h => h, fun h => h⟩)
    (fun _ _ => ⟨fun h => h, fun h => h⟩) (fun s n => ⟨fun _ => ?_, fun h => ?_⟩) P b
  · change 0 < (s.forkDb.setMaxSize (n + 1)).maxSize
    rw [setMaxSize_maxSize]
    exact Nat.succ_pos n
  · change (s.forkDb.setMaxSize (n + 1)).head ≠ none
    rw [setMaxSize_head]
    exact h

theorem windowKept_of_popBlock {f f' : ForkDatabase Op} (h : f.popBlock = .ok f') :
    f'.maxSize = f.maxSize ∧ f'.head ≠ none := by
  obtain ⟨hd, b, p, -, -, rfl⟩ := ForkDatabase.popBlock_eq_ok h
  exact ⟨rfl, Option.some_ne_none p⟩

theorem keeps_window_popBlock : Keeps WindowKept (popBlock P : DatabaseM Op R Unit) := by
  intro s
  unfold final
  split
  · next hok =>
    obtain ⟨hsize, hhead⟩ := windowKept_of_popBlock (popBlock_ok hok).forkDb
    exact ⟨fun h => hsize ▸ h, fun _ => hhead⟩
  · next herr =>
    rcases (popBlock_error herr).forkDb with hsame | hpop
    · exact ⟨fun h => hsame ▸ h, fun h => hsame ▸ h⟩
    · obtain ⟨hsize, hhead⟩ := windowKept_of_popBlock hpop
      exact ⟨fun h => hsize ▸ h, fun _ => hhead⟩

/-- Once the fork database has taken a block its window is open and it has a head. -/
theorem windowKept_of_taken {s : Database Op R} (h : s.forkDb.Linked P) {b : SignedBlock Op}
    {f : ForkDatabase Op} (hf : s.forkDb.pushBlock P b = .ok f) :
    (0 < s.forkDb.maxSize → 0 < (final (pushBlock P b) s).forkDb.maxSize) ∧
      (final (pushBlock P b) s).forkDb.head ≠ none := by
  have hkept : WindowKept { s with forkDb := f } (final (pushBlock P b) s) :=
    keeps_pushBlock_of_taken WindowKept.frame hf (h.pushBlock hf)
      (fun _ _ _ => ⟨fun h => h, fun h => h⟩) (fun _ _ => ⟨fun h => h, fun h => h⟩)
      (fun _ i _ _ => ⟨fun h => h, fun _ => Option.some_ne_none i⟩) keeps_window_applyInSession
      keeps_window_popBlock
  obtain ⟨item, -, rfl⟩ := ForkDatabase.pushBlock_eq_ok hf
  refine ⟨fun h => hkept.maxSize ?_, hkept.head ?_⟩
  · change 0 < (s.forkDb.add P item).maxSize
    rw [ForkDatabase.add_maxSize]
    exact h
  · change (s.forkDb.add P item).head ≠ none
    rw [ForkDatabase.add_head]
    split
    · exact Option.some_ne_none _
    · split <;> exact Option.some_ne_none _

/-- What is known of the databases between two calls of `push_block`. -/
structure PushInv (P : Protocol Op R) (g : Objects R) (s : Database Op R) : Prop where
  consistent : Consistent P g s
  linked : s.forkDb.Linked P
  maxSize : 0 < s.forkDb.maxSize
  /-- Without a block in the fork database there is no block at all. -/
  head : s.forkDb.head = none → s.objects.headBlockId = .zero

theorem PushInv.genesis (hg : Genesis g) : PushInv P g (genesis g) where
  consistent := .genesis P g
  linked := linked_genesis g
  maxSize := Nat.succ_pos 1023
  head _ := hg.headBlockId

theorem PushInv.pushBlock {s : Database Op R} (h : PushInv P g s) (b : SignedBlock Op) :
    PushInv P g (final (pushBlock P b) s) := by
  refine ⟨h.consistent.pushBlock b, linked_pushBlock b h.linked, ?_, ?_⟩
  · cases hf : s.forkDb.pushBlock P b with
    | error e =>
      rw [final_of_error (pushBlock_of_refused hf)]
      exact h.maxSize
    | ok f => exact (windowKept_of_taken h.linked hf).1 h.maxSize
  · cases hf : s.forkDb.pushBlock P b with
    | error e =>
      rw [final_of_error (pushBlock_of_refused hf)]
      exact h.head
    | ok f => exact fun hnone => absurd hnone (windowKept_of_taken h.linked hf).2

theorem pushInv_pushAll (hg : Genesis g) (bs : List (SignedBlock Op)) :
    PushInv P g (pushAll P (Database.genesis g) bs) := by
  have hrun : ∀ (bs : List (SignedBlock Op)) (s : Database Op R), PushInv P g s →
      PushInv P g (pushAll P s bs) := by
    intro bs
    induction bs with
    | nil => exact fun s h => h
    | cons b bs ih => exact fun s h => ih _ (h.pushBlock b)
  exact hrun bs _ (.genesis hg)

/-! ### The rejected block -/

/-- What a block that was taken by the fork database and then rejected leaves behind. -/
structure LeftBehind (P : Protocol Op R) (b : SignedBlock Op) (s s' : Database Op R) : Prop where
  objects : s'.objects = s.objects
  head : ∃ h, s'.forkDb.head = some h ∧ h.data.previous = s.objects.headBlockId
  headBefore : ∀ h, s.forkDb.head = some h →
    h.num ≤ s.objects.headBlockNumber ∨ h.data.previous = s.objects.headBlockId
  index : s'.forkDb.index ⊆ s.forkDb.index
  kept : ∀ i ∈ s.forkDb.index, s.objects.headBlockNumber ≤ i.num → i.id P ≠ P.blockId b →
    i ∈ s'.forkDb.index
  buffers : b.timestamp < s.objects.nextMaintenanceTime ∨
    NoVotes s.buffers ∧ ¬ FailsInTally P b s → SameTally s.buffers s'.buffers

/-- An item just below the head of the fork database stays in the index while a block is applied. -/
def TopKept (i : ForkItem Op) (s s' : Database Op R) : Prop :=
  s'.forkDb.head = s.forkDb.head ∧
    (i ∈ s.forkDb.index → (∀ h, s.forkDb.head = some h → h.num ≤ i.num + 1) →
      i ∈ s'.forkDb.index)

theorem TopKept.frame (i : ForkItem Op) : Frame (@TopKept Op R i) where
  refl _ := ⟨rfl, fun h _ => h⟩
  trans h₁ h₂ := ⟨h₂.1.trans h₁.1, fun hi hh => h₂.2 (h₁.2 hi hh) (h₁.1 ▸ hh)⟩

theorem keeps_topKept (i : ForkItem Op) (id : BlockId) (b : SignedBlock Op) :
    Keeps (TopKept i) (applyInSession P id b) := by
  refine keeps_applyInSession_of_block (TopKept.frame i) (fun _ _ => ⟨rfl, fun h _ => h⟩)
    (fun _ _ => ⟨rfl, fun h _ => h⟩) (fun _ _ => ⟨rfl, fun h _ => h⟩) ?_ id
  refine keeps_applyBlock (TopKept.frame i) (fun _ _ => ⟨rfl, fun h _ => h⟩)
    (fun _ _ => ⟨rfl, fun h _ => h⟩) (fun s n => ⟨setMaxSize_head _ _, fun hi hh => ?_⟩) P b
  change i ∈ (s.forkDb.setMaxSize (n + 1)).index
  unfold ForkDatabase.setMaxSize
  split
  · exact hi
  · next head hhead =>
    refine List.mem_filter.mpr ⟨hi, decide_eq_true ?_⟩
    have := hh head hhead
    omega

section Rejected

variable {b c : SignedBlock Op} {s s' : Database Op R} {e : ChainError}

theorem PushInv.headNum (hg : Genesis g) (h : PushInv P g s) :
    s.objects.headBlockId.num = s.objects.headBlockNumber := by
  rw [h.consistent.applied.headBlockId hg, (h.consistent.applied.headBlockNumber hg).1,
    (h.consistent.applied.headBlockNumber hg).2]

theorem item_num {f : ForkDatabase Op} {item : ForkItem Op} (h : f.link P b = .ok item) :
    item.num = b.blockNum := by
  rw [ForkItem.num, ForkDatabase.link_data h]

theorem num_of_previous (hg : Genesis g) (hs : PushInv P g s) {i : ForkItem Op}
    (h : i.data.previous = s.objects.headBlockId) : i.num = s.objects.headBlockNumber + 1 := by
  rw [← hs.headNum hg, ← h]
  rfl

/-- **A rejected block.** -/
theorem leftBehind (hg : Genesis g) (hs : PushInv P g s)
    (hrejected : pushBlock P b s = .error e s') (hswitch : ¬ AttemptsSwitch P s b)
    (htaken : ¬ Refused P s b) : LeftBehind P b s s' := by
  rcases pushBlock_cases P b s with ⟨e', herr, -⟩ | ⟨f, newHead, hf, hnew, hcases⟩
  · exact absurd ⟨e', herr⟩ htaken
  rcases hcases with ⟨hprev, hrun⟩ | ⟨-, -, hrun⟩ | ⟨hprev, hnum, -⟩
  rotate_left
  · rw [hrun] at hrejected
    cases hrejected
  · exact absurd ⟨f, newHead, hf, hnew, hprev, hnum⟩ hswitch
  rw [hrun] at hrejected
  rcases bind_eq_error.mp hrejected with hextend | ⟨_, _, -, hpure⟩
  rotate_left
  · cases hpure
  obtain ⟨e₁, s₁, happly, hremove⟩ := tryCatch_eq_error.mp hextend
  rw [update_bind] at hremove
  cases hremove
  have hunwound := applyInSession_error happly
  obtain ⟨item, hlink, rfl⟩ := ForkDatabase.pushBlock_eq_ok hf
  have hitemNum := item_num hlink
  have hitemId : item.id P = P.blockId b := by
    rw [ForkItem.id, ForkDatabase.link_data hlink]
  have hnewNum := num_of_previous hg hs hprev
  -- the head of the fork database before the block
  have hbefore : ∀ h, s.forkDb.head = some h → item.num ≤ s.objects.headBlockNumber + 1 ∧
      (h.num ≤ s.objects.headBlockNumber ∨ h.data.previous = s.objects.headBlockId) := by
    intro h hh
    rw [ForkDatabase.add_head, hh] at hnew
    by_cases hlt : h.num < item.num
    · simp only [if_pos hlt] at hnew
      obtain rfl := Option.some.inj hnew
      omega
    · simp only [if_neg hlt] at hnew
      obtain rfl := Option.some.inj hnew
      exact ⟨by omega, .inr hprev⟩
  have hitem : item.num ≤ s.objects.headBlockNumber + 1 := by
    cases hh : s.forkDb.head with
    | none =>
      rw [ForkDatabase.add_head, hh] at hnew
      obtain rfl := Option.some.inj hnew
      omega
    | some h => exact (hbefore h hh).1
  refine ⟨hunwound.objects, ⟨newHead, hunwound.forkHead.trans hnew, hprev⟩,
    fun h hh => (hbefore h hh).2, fun i hi => ?_, fun i hi hle hid => ?_, fun hb => ?_⟩
  · obtain ⟨hi₁, hid⟩ := List.mem_filter.mp hi
    rcases (ForkDatabase.add_subset s.forkDb item).1 i (hunwound.forkIndex hi₁) with rfl | hmem
    · exact absurd hitemId (of_decide_eq_true hid)
    · exact hmem
  · have hadd : i ∈ (s.forkDb.add P item).index := by
      refine ForkDatabase.mem_add item hi ?_
      have := hs.maxSize
      omega
    have hmem := ((keeps_topKept i _ b).of_error happly).2 hadd fun h hh => by
      obtain rfl := Option.some.inj (hnew.symm.trans hh)
      omega
    exact List.mem_filter.mpr ⟨hmem, decide_eq_true hid⟩
  · rcases applyInSession_run (P := P) (P.blockId b) b
        { s with forkDb := s.forkDb.add P item } with
      ⟨_, _, -, hok, -⟩ | ⟨e₂, s₂, s₃, hblock, herr, -, hbuffers⟩
    · rw [hok] at happly
      cases happly
    · rw [herr] at happly
      cases happly
      change SameTally s.buffers s₁.buffers
      rw [hbuffers]
      have htally := sameTally_of_applyBlock hblock
        (hb.imp_right fun h => ⟨h.1, fun hfails => h.2 (hfails.congr ⟨rfl, rfl⟩)⟩)
      exact htally

/-! ### The next block -/

/-- A block that the fork database takes makes its head the block itself or leaves it as it is. -/
theorem head_of_taken {f : ForkDatabase Op} {newHead h : ForkItem Op}
    (hf : s.forkDb.pushBlock P c = .ok f) (hnew : f.head = some newHead)
    (hh : s.forkDb.head = some h) :
    h.num < c.blockNum ∧ newHead.data = c ∨ c.blockNum ≤ h.num ∧ newHead = h := by
  obtain ⟨item, hlink, rfl⟩ := ForkDatabase.pushBlock_eq_ok hf
  have hnum := item_num hlink
  rw [ForkDatabase.add_head, hh] at hnew
  by_cases hlt : h.num < item.num
  · simp only [if_pos hlt] at hnew
    obtain rfl := Option.some.inj hnew
    exact .inl ⟨hnum ▸ hlt, ForkDatabase.link_data hlink⟩
  · simp only [if_neg hlt] at hnew
    exact .inr ⟨by omega, (Option.some.inj hnew).symm⟩

/-- A block applied to another head than its predecessor fails. -/
theorem extendChain_of_ne (hne : c.previous ≠ s.objects.headBlockId) :
    ∃ e s', extendChain P c s = .error e s' ∧ s'.objects = s.objects := by
  cases hrun : applyInSession P (P.blockId c) c s with
  | ok u s' => exact absurd (applyInSession_ok hrun).yields.blockApplied.previous.symm hne
  | error e s' =>
    refine ⟨e, { s' with forkDb := s'.forkDb.remove P (P.blockId c) }, ?_,
      (applyInSession_error hrun).objects⟩
    rw [extendChain, tryCatch_apply, hrun]
    rfl

/-- **After a rejected block** a block that does not build on the head block, and is not higher than
the rejected one, is rejected as well. -/
theorem LeftBehind.rejects (hg : Genesis g) (hs : PushInv P g s) (h : LeftBehind P b s s')
    (hne : c.previous ≠ s.objects.headBlockId)
    (hnum : c.blockNum ≤ s.objects.headBlockNumber + 1) :
    ∃ e t, pushBlock P c s' = .error e t ∧ t.objects = s.objects := by
  obtain ⟨head, hhead, hprev⟩ := h.head
  have hheadNum := num_of_previous hg hs hprev
  rcases pushBlock_cases P c s' with ⟨e, -, hrun⟩ | ⟨f, newHead, hf, hnew, hcases⟩
  · exact ⟨e, s', hrun, h.objects⟩
  obtain rfl : newHead = head := by
    rcases head_of_taken hf hnew hhead with ⟨hlt, -⟩ | ⟨-, heq⟩
    · omega
    · exact heq
  rw [h.objects] at hcases
  rcases hcases with ⟨-, hrun⟩ | ⟨hprev', -⟩ | ⟨hprev', -⟩
  · obtain ⟨e, t, hextend, ht⟩ := extendChain_of_ne (P := P) (c := c)
      (s := { s' with forkDb := f }) (h.objects ▸ hne)
    refine ⟨e, t, ?_, ht.trans h.objects⟩
    rw [hrun, bind_apply, hextend]
  · exact absurd hprev hprev'
  · exact absurd hprev hprev'

theorem sameOutcome_of_rejected {e₁ e₂ : ChainError} {t t' : Database Op R}
    (h₁ : pushBlock P c s = .error e₁ t) (h₂ : pushBlock P c s' = .error e₂ t')
    (ht : t.objects = t'.objects) : SameOutcome P c s s' := by
  refine ⟨?_, ?_⟩
  · rw [thrown, thrown, h₁, h₂]
    rfl
  · rw [final_of_error h₁, final_of_error h₂]
    exact ht

/-- Why the fork database refuses a block. -/
theorem link_error {f : ForkDatabase Op} (h : f.link P c = .error e) :
    ∃ head, f.head = some head ∧ (c.blockNum ≤ head.num - f.maxSize ∨
      c.previous ≠ .zero ∧ f.find P c.previous = none) := by
  unfold ForkDatabase.link at h
  split at h
  · cases h
  · next head hhead =>
    refine ⟨head, hhead, ?_⟩
    split at h
    · split at h
      · cases h
      · next hzero =>
        split at h
        · next hfind => exact .inr ⟨hzero, hfind⟩
        · cases h
    · next hold => exact .inl (Nat.not_lt.mp hold)

/-- A block that the fork database links has a predecessor in the index, unless it is a first
block. -/
theorem find_of_link {f : ForkDatabase Op} {item head : ForkItem Op} (h : f.link P c = .ok item)
    (hhead : f.head = some head) (hzero : c.previous ≠ .zero) :
    ∃ p ∈ f.index, p.id P = c.previous := by
  unfold ForkDatabase.link at h
  rw [hhead] at h
  simp only [if_neg hzero] at h
  split at h
  · split at h
    · cases h
    · next p hfind =>
      exact ⟨p, List.mem_of_find?_eq_some hfind, by simpa using List.find?_some hfind⟩
  · cases h

theorem find_ne_none {f : ForkDatabase Op} {p : ForkItem Op} (hp : p ∈ f.index) :
    f.find P (p.id P) ≠ none := by
  intro hnone
  have := List.find?_eq_none.mp hnone p hp
  simp at this

theorem refused_iff {f : ForkDatabase Op} :
    (∃ e, f.pushBlock P c = .error e) ↔ ∃ e, f.link P c = .error e := by
  unfold ForkDatabase.pushBlock
  cases f.link P c with
  | error e => simp [bind, Except.bind]
  | ok item => simp [bind, Except.bind]

/-- A block that the fork database refuses is rejected after the rejected block as well. -/
theorem LeftBehind.sameOutcome_of_refused (hg : Genesis g) (hs : PushInv P g s)
    (h : LeftBehind P b s s') (hc : Refused P s c) : SameOutcome P c s s' := by
  obtain ⟨e₁, herr⟩ := hc
  have h₁ := pushBlock_of_refused herr
  by_cases hc' : Refused P s' c
  · obtain ⟨e₂, herr'⟩ := hc'
    exact sameOutcome_of_rejected h₁ (pushBlock_of_refused herr') h.objects.symm
  obtain ⟨e₂, hlink⟩ := refused_iff.mp ⟨e₁, herr⟩
  obtain ⟨head, hhead, hold | ⟨hzero, hfind⟩⟩ := link_error hlink
  · -- it is below the window, hence below the head block
    have hheadNum : head.num ≤ s.objects.headBlockNumber + 1 := by
      rcases h.headBefore head hhead with hle | hprev
      · omega
      · exact (num_of_previous hg hs hprev).le
    have hpos := hs.maxSize
    have hlow : c.blockNum ≤ s.objects.headBlockNumber := by omega
    have hne : c.previous ≠ s.objects.headBlockId := by
      intro heq
      rw [SignedBlock.blockNum, heq, hs.headNum hg] at hlow
      omega
    obtain ⟨e₃, t, hrun, ht⟩ := h.rejects hg hs hne (by omega)
    exact sameOutcome_of_rejected h₁ hrun ht.symm
  · -- its predecessor is not known, and nothing became known
    exfalso
    obtain ⟨head', hhead', -⟩ := h.head
    cases hlink' : s'.forkDb.link P c with
    | error e₃ => exact hc' (refused_iff.mpr ⟨e₃, hlink'⟩)
    | ok item =>
      obtain ⟨p, hp, hpid⟩ := find_of_link hlink' hhead' hzero
      exact find_ne_none (P := P) (h.index hp) (hpid ▸ hfind)

/-- Two blocks that extend the chain with the same result have the same outcome. -/
theorem sameOutcome_of_extendChain {s₁ s₂ : Database Op R}
    (h₁ : pushBlock P c s = (extendChain P c >>= fun _ => pure false) s₁)
    (h₂ : pushBlock P c s' = (extendChain P c >>= fun _ => pure false) s₂)
    (hend : SameEnd (fun s t => s.objects = t.objects) (applyInSession P (P.blockId c) c s₁)
      (applyInSession P (P.blockId c) c s₂)) : SameOutcome P c s s' := by
  rw [bind_apply, extendChain, tryCatch_apply] at h₁ h₂
  cases hrun : applyInSession P (P.blockId c) c s₁ with
  | ok u t₁ =>
    obtain ⟨t₂, hrun', ht⟩ := (hrun ▸ hend).of_ok
    rw [hrun] at h₁
    rw [hrun'] at h₂
    refine ⟨?_, ?_⟩
    · rw [thrown, thrown, h₁, h₂]
      rfl
    · rw [final, final, h₁, h₂]
      exact ht
  | error e t₁ =>
    obtain ⟨t₂, hrun', ht⟩ := (hrun ▸ hend).of_error
    rw [hrun] at h₁
    rw [hrun'] at h₂
    exact sameOutcome_of_rejected h₁ h₂ ht

/-- A block that builds on the head block does the same after the rejected block, unless that was
the head block itself or has left votes in the buffers. -/
theorem LeftBehind.sameOutcome_of_extends (hg : Genesis g) (hs : PushInv P g s)
    (hs' : PushInv P g s') (h : LeftBehind P b s s') (hc : ¬ Refused P s c)
    (hprev : c.previous = s.objects.headBlockId) (hid : P.blockId b ≠ s.objects.headBlockId)
    (hbuffers : c.timestamp < s.objects.nextMaintenanceTime ∨
      SameTally s.buffers s'.buffers) : SameOutcome P c s s' := by
  have hcnum : c.blockNum = s.objects.headBlockNumber + 1 := by
    rw [SignedBlock.blockNum, hprev, hs.headNum hg]
  obtain ⟨head', hhead', hprev'⟩ := h.head
  have hheadNum' := num_of_previous hg hs hprev'
  -- without the rejected block it extends the chain
  obtain ⟨s₁, h₁, hs₁, hb₁⟩ : ∃ s₁,
      pushBlock P c s = (extendChain P c >>= fun _ => pure false) s₁ ∧
      s₁.objects = s.objects ∧ s₁.buffers = s.buffers := by
    rcases pushBlock_cases P c s with ⟨e, herr, -⟩ | ⟨f, newHead, hf, hnew, hcases⟩
    · exact absurd ⟨e, herr⟩ hc
    have hnewPrev : newHead.data.previous = s.objects.headBlockId := by
      cases hhead : s.forkDb.head with
      | none =>
        obtain ⟨item, hlink, rfl⟩ := ForkDatabase.pushBlock_eq_ok hf
        rw [ForkDatabase.add_head, hhead] at hnew
        obtain rfl := Option.some.inj hnew
        rw [ForkDatabase.link_data hlink, hprev]
      | some head =>
        rcases head_of_taken hf hnew hhead with ⟨-, hdata⟩ | ⟨hle, rfl⟩
        · rw [hdata, hprev]
        · exact (h.headBefore newHead hhead).resolve_left (by omega)
    rcases hcases with ⟨-, hrun⟩ | ⟨hne, -⟩ | ⟨hne, -⟩
    · exact ⟨_, hrun, rfl, rfl⟩
    · exact absurd hnewPrev hne
    · exact absurd hnewPrev hne
  -- and so it does after the rejected block
  obtain ⟨s₂, h₂, hs₂, hb₂⟩ : ∃ s₂,
      pushBlock P c s' = (extendChain P c >>= fun _ => pure false) s₂ ∧
      s₂.objects = s'.objects ∧ s₂.buffers = s'.buffers := by
    rcases pushBlock_cases P c s' with ⟨e, herr, -⟩ | ⟨f, newHead, hf, hnew, hcases⟩
    · exfalso
      obtain ⟨e₂, hlink'⟩ := refused_iff.mp ⟨e, herr⟩
      obtain ⟨head, hhead, hold | ⟨hzero, hfind⟩⟩ := link_error hlink'
      · obtain rfl := Option.some.inj (hhead.symm.trans hhead')
        have hpos := hs'.maxSize
        omega
      · -- the head block is still in the index
        rw [hprev] at hzero hfind
        cases hlink : s.forkDb.link P c with
        | error e₃ => exact hc (refused_iff.mpr ⟨e₃, hlink⟩)
        | ok item =>
          cases hhead₀ : s.forkDb.head with
          | none => exact hzero (hs.head hhead₀)
          | some head₀ =>
            obtain ⟨p, hp, hpid⟩ := find_of_link hlink hhead₀ (hprev ▸ hzero)
            rw [hprev] at hpid
            have hpnum : p.num = s.objects.headBlockNumber := by
              rw [← hs.headNum hg, ← hpid]
              rfl
            refine find_ne_none (P := P) (h.kept p hp hpnum.ge ?_) (hpid ▸ hfind)
            rw [hpid]
            exact hid.symm
    · obtain rfl : newHead = head' := by
        rcases head_of_taken hf hnew hhead' with ⟨hlt, -⟩ | ⟨-, heq⟩
        · omega
        · exact heq
      rw [h.objects] at hcases
      rcases hcases with ⟨-, hrun⟩ | ⟨hne, -⟩ | ⟨hne, -⟩
      · exact ⟨_, hrun, rfl, rfl⟩
      · exact absurd hprev' hne
      · exact absurd hprev' hne
  refine sameOutcome_of_extendChain h₁ h₂ (sameEnd_applyInSession _ _ c ?_ ?_)
  · rw [hs₁, hs₂, h.objects]
  · rw [hs₁, hb₁, hb₂]
    exact hbuffers

end Rejected

/-- **Rejected blocks.** Let `b` be rejected on a database reached by `push_block`, without a fork
switch. If `b` is harmless for `c`, then pushing `c` ends as it would have without `b`. If the
fork database was at the head block and has taken `b`, it does not for any block `c` that would
have been kept aside. -/
theorem sameOutcome_of_harmless (hg : Genesis g) (bs : List (SignedBlock Op))
    {b c : SignedBlock Op} {e : ChainError} {s' : Database Op R}
    (hrejected : pushBlock P b (pushAll P (genesis g) bs) = .error e s')
    (hswitch : ¬ AttemptsSwitch P (pushAll P (genesis g) bs) b) :
    (Harmless P (pushAll P (genesis g) bs) b c →
      SameOutcome P c (pushAll P (genesis g) bs) s') ∧
    (ForkHeadAgrees P (pushAll P (genesis g) bs) → ¬ Refused P (pushAll P (genesis g) bs) b →
      KeptAside P (pushAll P (genesis g) bs) c →
      ¬ SameOutcome P c (pushAll P (genesis g) bs) s') := by
  have hs : PushInv P g (pushAll P (genesis g) bs) := pushInv_pushAll hg bs
  generalize pushAll P (genesis g) bs = s at *
  have hs' : PushInv P g s' := final_of_error hrejected ▸ hs.pushBlock b
  by_cases htaken : Refused P s b
  · -- nothing has changed
    obtain ⟨e', herr⟩ := htaken
    rw [pushBlock_of_refused herr] at hrejected
    cases hrejected
    exact ⟨fun _ => ⟨rfl, rfl⟩, fun _ hnot => absurd ⟨e, herr⟩ hnot⟩
  have hleft := leftBehind hg hs hrejected hswitch htaken
  refine ⟨fun hharmless => ?_, fun hagrees _ hkept hsame => ?_⟩
  · rcases hharmless with href | href | ⟨hprev, hid, hbuffers⟩
    · exact absurd href htaken
    · exact hleft.sameOutcome_of_refused hg hs href
    · by_cases hc : Refused P s c
      · exact hleft.sameOutcome_of_refused hg hs hc
      · exact hleft.sameOutcome_of_extends hg hs hs' hc hprev hid (hbuffers.imp_right hleft.buffers)
  · obtain ⟨hc, hne, hle⟩ := hkept
    obtain ⟨e', t, hrun, -⟩ := hleft.rejects hg hs hne (by omega)
    have haccepted := hsame.accepted
    rw [thrown, thrown, hrun] at haccepted
    obtain ⟨head, hhead, hid⟩ := Option.map_eq_some_iff.mp hagrees
    have hheadNum : head.num = s.objects.headBlockNumber := by
      rw [← hs.headNum hg, ← hid]
      rfl
    rcases pushBlock_cases P c s with ⟨e₁, herr, -⟩ | ⟨f, newHead, hf, hnew, hcases⟩
    · exact hc ⟨e₁, herr⟩
    obtain rfl : newHead = head := by
      rcases head_of_taken hf hnew hhead with ⟨hlt, -⟩ | ⟨-, heq⟩
      · omega
      · exact heq
    rcases hcases with ⟨hprev, -⟩ | ⟨-, -, hok⟩ | ⟨-, hlt, -⟩
    · rw [← hid] at hprev
      exact P.blockId_ne_previous _ hprev.symm
    · rw [hok] at haccepted
      cases haccepted
    · omega

section Example

private def base : Database ℕ Unit := genesis (Protocol.permissiveGenesis [0])

private def tip : SignedBlock ℕ := .empty .zero 1 1

/-- A block on `tip` with a wrong merkle root. -/
private def rejected : SignedBlock ℕ :=
  { SignedBlock.empty (Protocol.permissive.blockId tip) 2 1 with transactionMerkleRoot := 1 }

/-- A valid block on `tip`, and one beside it. -/
private def child : SignedBlock ℕ := .empty (Protocol.permissive.blockId tip) 2 1
private def beside : SignedBlock ℕ := .empty .zero 2 2

private def afterRejected : Database ℕ Unit :=
  final (pushBlock .permissive rejected) (pushAll .permissive base [tip])

private theorem pushBlock_rejected :
    pushBlock .permissive rejected (pushAll .permissive base [tip]) =
      .error .assertion afterRejected :=
  error_final_of_thrown (by decide)

private theorem not_attemptsSwitch_rejected :
    ¬ AttemptsSwitch .permissive (pushAll .permissive base [tip]) rejected := by
  rintro ⟨f, newHead, hf, hnew, hprev, -⟩
  have hhead : ((pushAll .permissive base [tip]).forkDb.pushBlock .permissive rejected).toOption.map
      (fun f => f.head.map fun i => i.data.previous) =
      some (some (pushAll .permissive base [tip]).objects.headBlockId) := by decide
  rw [hf] at hhead
  have hprev' : f.head.map (fun i => i.data.previous) =
      some (pushAll .permissive base [tip]).objects.headBlockId := Option.some.inj hhead
  rw [hnew] at hprev'
  exact hprev (Option.some.inj hprev')

theorem sameOutcome_of_harmless_child :
    Harmless .permissive (pushAll .permissive base [tip]) rejected child ∧
      SameOutcome .permissive child (pushAll .permissive base [tip]) afterRejected := by
  have hharmless : Harmless .permissive (pushAll .permissive base [tip]) rejected child :=
    .inr (.inr ⟨by decide +kernel, by decide +kernel, .inl (by decide +kernel)⟩)
  exact ⟨hharmless, (sameOutcome_of_harmless ⟨rfl, rfl, rfl⟩ [tip] pushBlock_rejected
    not_attemptsSwitch_rejected).1 hharmless⟩

/-- A block beside the head block is kept aside, but after the rejected block it is rejected. -/
theorem not_sameOutcome_beside :
    ¬ ∀ (bs : List (SignedBlock ℕ)) (b c : SignedBlock ℕ) (e : ChainError) (s' : Database ℕ Unit),
      pushBlock .permissive b (pushAll .permissive base bs) = .error e s' →
      ¬ AttemptsSwitch .permissive (pushAll .permissive base bs) b →
      SameOutcome .permissive c (pushAll .permissive base bs) s' := by
  intro hall
  have hsame := hall [tip] rejected beside .assertion afterRejected pushBlock_rejected
    not_attemptsSwitch_rejected
  exact absurd hsame.accepted (by decide +kernel)

end Example

end FinChain.Chain
