import FinChain.Chain.SkipFlags
import FinChain.Chain.Consistent

/-!
# The last irreversible block

`update_last_irreversible_block` takes the last blocks that the active witnesses have signed, in order,
and of these the one that three out of ten of them are below. At a checkpoint it takes the head, and
between two block numbers, where blocks were missed for long, the twentieth block before the head. The
number is raised to it, or stays.

Along every run of applied blocks, whatever checks are skipped, the number does not go down and does
not pass the head; and when the witnesses have raised it, seven out of ten of them have signed a block
that high (`last_irreversible_block`). The witnesses are those that were active when the block was
applied: a maintenance that replaces them comes after the number is raised.
-/

namespace FinChain.Chain

open Exec

variable {Op R : Type}

/-! ### Order statistics -/

/-- All but `k` elements of a list are at least as large as its `k`-th, counted from the smallest. -/
theorem length_sub_le_countP {α : Type} [LinearOrder α] {l : List α} {k : ℕ} (hk : k < l.length)
    (d : α) : l.length - k ≤ l.countP fun x => (l.insertionSort (· ≤ ·)).getD k d ≤ x := by
  have hperm : (l.insertionSort (· ≤ ·)).Perm l := List.perm_insertionSort _ l
  have hk' : k < (l.insertionSort (· ≤ ·)).length := by
    rw [hperm.length_eq]
    exact hk
  have hall : ∀ x ∈ (l.insertionSort (· ≤ ·)).drop k, (l.insertionSort (· ≤ ·))[k] ≤ x := by
    have hsorted := (List.pairwise_insertionSort (· ≤ ·) l).sublist (List.drop_sublist k _)
    rw [List.drop_eq_getElem_cons hk', List.pairwise_cons] at hsorted
    intro x hx
    rw [List.drop_eq_getElem_cons hk'] at hx
    rcases List.mem_cons.mp hx with rfl | hx
    · exact le_rfl
    · exact hsorted.1 x hx
  rw [List.getD_eq_getElem?_getD, List.getElem?_eq_getElem hk', Option.getD_some, ← hperm.countP_eq]
  have hlength : l.length - k = ((l.insertionSort (· ≤ ·)).drop k).length := by
    rw [List.length_drop, hperm.length_eq]
  rw [hlength, ← List.countP_eq_length.mpr fun x hx => decide_eq_true (hall x hx)]
  exact (List.drop_sublist k _).countP_le

namespace Database

variable {P : Protocol Op R} {C : Checks P} {checkpoints : Checkpoints} {skip : SkipFlags}

/-- **The threshold**: of `n` witnesses, all but three tenths have confirmed the number. -/
theorem thresholdBlockNum_le (witnesses : List ℕ) (lastConfirmed : ℕ → ℕ) :
    witnesses.length - 3 * witnesses.length / 10 ≤
      witnesses.countP fun w => thresholdBlockNum witnesses lastConfirmed ≤ lastConfirmed w := by
  cases witnesses with
  | nil => exact Nat.zero_le _
  | cons w ws =>
    have hoffset : (hundredPercent - irreversibleThreshold) * (w :: ws).length / hundredPercent =
        3 * (w :: ws).length / 10 := by
      change 3000 * (w :: ws).length / 10000 = _
      omega
    have hlt : 3 * (w :: ws).length / 10 < ((w :: ws).map lastConfirmed).length := by
      rw [List.length_map, List.length_cons]
      omega
    have hcount := length_sub_le_countP hlt 0
    unfold thresholdBlockNum
    rw [List.countP_map, List.length_map] at hcount
    rw [hoffset]
    exact hcount

/-! ### One block -/

/-- What `update_last_irreversible_block` reads and writes, but for the active witnesses. -/
def confirmations (s : Database Op R) : BlockId × ℕ × ℕ × (ℕ → ℕ) :=
  (s.objects.headBlockId, s.objects.headBlockNumber, s.objects.lastIrreversibleBlockNum,
    s.objects.lastConfirmedBlockNum)

/-- All of it. -/
def finality (s : Database Op R) : List ℕ × BlockId × ℕ × ℕ × (ℕ → ℕ) :=
  (s.objects.activeWitnesses, confirmations s)

theorem finality_modifyRest (g : Objects R → Option R) :
    Keeps (fun s s' : Database Op R => finality s' = finality s) (modifyRest g) := by
  refine (Frame.eq finality).keeps_bind (Frame.eq finality).keeps_get fun s => ?_
  split
  · exact (Frame.eq finality).keeps_throw _
  · exact keeps_update fun _ => rfl

theorem finality_applyTransactionWith (trx : Transaction Op) :
    Keeps (fun s s' : Database Op R => finality s' = finality s) (applyTransactionWith C skip trx) := by
  have hF : Frame fun s s' : Database Op R => finality s' = finality s := Frame.eq finality
  have hcreate : Keeps (fun s s' : Database Op R => finality s' = finality s)
      (createTransactionObject P skip trx) := by
    unfold createTransactionObject
    split
    · exact hF.keeps_pure ()
    · exact keeps_update fun _ => rfl
  exact hF.keeps_bind hF.keeps_get fun s => hF.keeps_bind (hF.keeps_assert _ _) fun _ =>
    hF.keeps_bind (hF.keeps_assert _ _) fun _ => hF.keeps_bind (hF.keeps_assert _ _) fun _ =>
      hF.keeps_bind (hF.keeps_assert _ _) fun _ => hF.keeps_bind (hF.keeps_assert _ _) fun _ =>
        hF.keeps_bind hcreate fun _ => finality_modifyRest _

theorem confirmations_maintainIf (n : Bool) (b : SignedBlock Op) :
    Keeps (fun s s' : Database Op R => confirmations s' = confirmations s) (maintainIf n P b) := by
  have hF : Frame fun s s' : Database Op R => confirmations s' = confirmations s := Frame.eq _
  have hrest : ∀ g, Keeps (fun s s' : Database Op R => confirmations s' = confirmations s)
      (modifyRest g) := fun g s => congrArg Prod.snd (finality_modifyRest g s)
  have hclear : Keeps (fun s s' : Database Op R => confirmations s' = confirmations s)
      clearBuffers := keeps_update fun _ => rfl
  have hfinish : Keeps (fun s s' : Database Op R => confirmations s' = confirmations s)
      (finishMaintenance P b) := by
    refine hF.keeps_bind hF.keeps_get fun s => ?_
    split
    · exact hF.keeps_throw _
    · exact keeps_update fun _ => rfl
  have haccount : ∀ account, Keeps (fun s s' : Database Op R => confirmations s' = confirmations s)
      (maintainAccount P account) := by
    intro account
    refine hF.keeps_bind (hF.keeps_bind hF.keeps_get fun s => ?_) fun _ => hrest _
    split
    · exact hF.keeps_throw _
    · exact keeps_update fun _ => rfl
  cases n with
  | false => exact hF.keeps_pure ()
  | true =>
    refine hF.keeps_bind (hrest _) fun _ => hF.keeps_bind (keeps_update fun _ => rfl) fun _ =>
      hF.keeps_bind hF.keeps_get fun s => hF.keeps_bind (hF.keeps_forM haccount _) fun _ => ?_
    exact hF.keeps_bind (hF.keeps_tryCatch hfinish fun e =>
      hF.keeps_bind hclear fun _ => hF.keeps_throw e) fun _ => hclear

/-- What a block does to the last irreversible block. -/
structure Confirms (P : Protocol Op R) (checkpoints : Checkpoints) (b : SignedBlock Op)
    (o o' : Objects R) : Prop where
  previous : o.headBlockId = b.previous
  headBlockId : o'.headBlockId = P.blockId b
  headBlockNumber : o'.headBlockNumber = b.blockNum
  confirmed : o'.lastConfirmedBlockNum =
    Function.update o.lastConfirmedBlockNum b.witness b.blockNum
  /-- With the witnesses that were active before the block. -/
  irreversible : o'.lastIrreversibleBlockNum = max o.lastIrreversibleBlockNum
    (proposedBlockNum checkpoints { o' with activeWitnesses := o.activeWitnesses })

theorem proposedBlockNum_congr {o o' : Objects R} (hhead : o'.headBlockNumber = o.headBlockNumber)
    (hactive : o'.activeWitnesses = o.activeWitnesses)
    (hconfirmed : o'.lastConfirmedBlockNum = o.lastConfirmedBlockNum) :
    proposedBlockNum checkpoints o' = proposedBlockNum checkpoints o := by
  unfold proposedBlockNum
  rw [hhead, hactive, hconfirmed]

theorem validateBlockHeaderWith_ok {b : SignedBlock Op} {s s' : Database Op R} {u : Unit}
    (h : validateBlockHeaderWith C skip b s = .ok u s') :
    s' = s ∧ s.objects.headBlockId = b.previous := by
  unfold validateBlockHeaderWith at h
  rw [get_bind] at h
  obtain ⟨hprevious, h⟩ := assert_bind_eq_ok.mp h
  obtain ⟨-, h⟩ := assert_bind_eq_ok.mp h
  obtain ⟨-, h⟩ := assert_bind_eq_ok.mp h
  obtain ⟨-, h⟩ := assert_bind_eq_ok.mp h
  exact ⟨(assert_eq_ok.mp h).2, hprevious⟩

theorem updateGlobalDynamicDataWith_ok {b : SignedBlock Op} {s s' : Database Op R} {u : Unit}
    (h : updateGlobalDynamicDataWith C checkpoints skip b s = .ok u s') :
    finality s' = (s.objects.activeWitnesses, P.blockId b, b.blockNum,
      s.objects.lastIrreversibleBlockNum, s.objects.lastConfirmedBlockNum) := by
  unfold updateGlobalDynamicDataWith modifyObjects at h
  rw [update_bind, get_bind] at h
  obtain ⟨-, h⟩ := assert_bind_eq_ok.mp h
  obtain rfl := update_eq_ok.mp h
  rfl

theorem updateSigningWitness_ok {b : SignedBlock Op} {s s' : Database Op R} {u : Unit}
    (h : updateSigningWitness P b s = .ok u s') :
    finality s' = (s.objects.activeWitnesses, s.objects.headBlockId, s.objects.headBlockNumber,
      s.objects.lastIrreversibleBlockNum,
      Function.update s.objects.lastConfirmedBlockNum b.witness b.blockNum) := by
  unfold updateSigningWitness at h
  obtain ⟨_, s₁, hpay, hconfirm⟩ := bind_eq_ok.mp h
  have hsame : finality s₁ = finality s := (finality_modifyRest _).of_ok hpay
  obtain rfl := update_eq_ok.mp hconfirm
  simp only [finality, confirmations, Prod.mk.injEq] at hsame
  obtain ⟨hactive, hid, hnum, hlib, hconfirmed⟩ := hsame
  change (s₁.objects.activeWitnesses, s₁.objects.headBlockId, s₁.objects.headBlockNumber,
    s₁.objects.lastIrreversibleBlockNum, Function.update s₁.objects.lastConfirmedBlockNum _ _) = _
  rw [hactive, hid, hnum, hlib, hconfirmed]

theorem updateLastIrreversibleBlockWith_ok {s s' : Database Op R} {u : Unit}
    (h : updateLastIrreversibleBlockWith checkpoints s = .ok u s') :
    confirmations s' = (s.objects.headBlockId, s.objects.headBlockNumber,
      max s.objects.lastIrreversibleBlockNum (proposedBlockNum checkpoints s.objects),
      s.objects.lastConfirmedBlockNum) := by
  unfold updateLastIrreversibleBlockWith modifyObjects at h
  obtain rfl := update_eq_ok.mp h
  change confirmations (s.withObjects (if s.objects.lastIrreversibleBlockNum <
    proposedBlockNum checkpoints s.objects then _ else s.objects)) = _
  by_cases hlt : s.objects.lastIrreversibleBlockNum < proposedBlockNum checkpoints s.objects
  · rw [if_pos hlt, max_eq_right hlt.le]
    rfl
  · rw [if_neg hlt, max_eq_left (not_lt.mp hlt)]
    rfl

/-- **What a block does to the last irreversible block.** -/
theorem applyBlockWith_confirms {b : SignedBlock Op} {s s' : Database Op R} {u : Unit}
    (h : applyBlockWith C checkpoints skip b s = .ok u s') :
    Confirms P checkpoints b s.objects s'.objects := by
  unfold applyBlockWith applyBlockSkipping at h
  obtain ⟨-, hskipped⟩ := assert_bind_eq_ok.mp h
  obtain ⟨-, hskipped⟩ := assert_bind_eq_ok.mp hskipped
  obtain ⟨_, s₀, hheader, happly⟩ := bind_eq_ok.mp hskipped
  obtain ⟨rfl, hprevious⟩ := validateBlockHeaderWith_ok hheader
  rw [get_bind] at happly
  obtain ⟨_, s₁, htrxs, hafter⟩ := bind_eq_ok.mp happly
  obtain ⟨_, s₂, hglobal, hafter⟩ := bind_eq_ok.mp hafter
  obtain ⟨_, s₃, hsign, hafter⟩ := bind_eq_ok.mp hafter
  obtain ⟨_, s₄, hraise, hafter⟩ := bind_eq_ok.mp hafter
  obtain ⟨_, s₅, hmaintain, hafter⟩ := bind_eq_ok.mp hafter
  obtain ⟨_, s₆, hclear, hend⟩ := bind_eq_ok.mp hafter
  have h₁ : finality s₁ = finality s₀ := ((Frame.eq finality).keeps_forM
    (fun trx => finality_applyTransactionWith trx) b.transactions).of_ok htrxs
  have h₂ := updateGlobalDynamicDataWith_ok hglobal
  have h₃ := updateSigningWitness_ok hsign
  have h₄ := updateLastIrreversibleBlockWith_ok hraise
  -- what follows changes none of it, but the active witnesses
  have h₅ : confirmations s₅ = confirmations s₄ := (confirmations_maintainIf _ b).of_ok hmaintain
  have h₆ : confirmations s' = confirmations s₄ := by
    unfold clearExpiredTransactions modifyObjects at hclear
    obtain rfl := update_eq_ok.mp hclear
    have hlast := (finality_modifyRest _).of_ok hend
    exact (congrArg Prod.snd hlast).trans h₅
  rw [h₄] at h₆
  simp only [finality, confirmations, Prod.mk.injEq] at h₁ h₂ h₃ h₆
  obtain ⟨hactive₁, -, -, hlib₁, hconfirmed₁⟩ := h₁
  obtain ⟨hactive₂, hid₂, hnum₂, hlib₂, hconfirmed₂⟩ := h₂
  obtain ⟨hactive₃, hid₃, hnum₃, hlib₃, hconfirmed₃⟩ := h₃
  obtain ⟨hid, hnum, hlib, hconfirmed⟩ := h₆
  refine ⟨hprevious, ?_, ?_, ?_, ?_⟩
  · rw [hid, hid₃, hid₂]
  · rw [hnum, hnum₃, hnum₂]
  · rw [hconfirmed, hconfirmed₃, hconfirmed₂, hconfirmed₁]
  · rw [hlib, hlib₃, hlib₂, hlib₁]
    congr 1
    refine proposedBlockNum_congr ?_ ?_ ?_
    · exact hnum.symm
    · rw [hactive₃, hactive₂, hactive₁]
    · exact hconfirmed.symm

end Database

/-! ### Runs -/

open Database

variable {P : Protocol Op R} {C : Checks P} {checkpoints : Checkpoints}

/-- Applying a block, with some skip flags, leads from one object state to another. -/
def YieldsWith (C : Checks P) (checkpoints : Checkpoints) (b : SignedBlock Op) (o o' : Objects R) :
    Prop :=
  ∃ skip s s' u, s.objects = o ∧ applyBlockWith C checkpoints skip b s = .ok u s' ∧ s'.objects = o'

/-- The blocks of a chain, newest first and each with the object state it was applied to, lead from
`g` to `o`. -/
inductive AppliedWith (C : Checks P) (checkpoints : Checkpoints) (g : Objects R) :
    List (SignedBlock Op × Objects R) → Objects R → Prop
  | genesis : AppliedWith C checkpoints g [] g
  | block {chain b o o'} : AppliedWith C checkpoints g chain o → YieldsWith C checkpoints b o o' →
      AppliedWith C checkpoints g ((b, o) :: chain) o'

/-- Chains of blocks that were pushed without flags are among them. -/
theorem Applied.appliedWith (C : Checks P) {g o : Objects R}
    {chain : List (SignedBlock Op × Objects R)} (h : Applied P g chain o) :
    AppliedWith C .none g chain o := by
  induction h with
  | genesis => exact .genesis
  | block _ hyields ih =>
    obtain ⟨s, s', u, hs, happly, hs'⟩ := hyields
    refine ih.block ⟨.nothing, s, s', u, hs, ?_, hs'⟩
    rw [applyBlockWith_nothing]
    exact happly

theorem YieldsWith.confirms {b : SignedBlock Op} {o o' : Objects R}
    (h : YieldsWith C checkpoints b o o') : Confirms P checkpoints b o o' := by
  obtain ⟨skip, s, s', u, rfl, happly, rfl⟩ := h
  exact applyBlockWith_confirms happly

/-- The objects before the first block: no witness has confirmed any. -/
structure Unconfirmed (g : Objects R) : Prop extends Genesis g where
  lastIrreversibleBlockNum : g.lastIrreversibleBlockNum = 0
  lastConfirmedBlockNum : ∀ w, g.lastConfirmedBlockNum w = 0

/-- What the witnesses have confirmed are blocks that they have signed, and nothing is irreversible
beyond the head. -/
structure Signed (chain : List (SignedBlock Op × Objects R)) (o : Objects R) : Prop where
  headNum : o.headBlockId.num = o.headBlockNumber
  confirmed_le : ∀ w, o.lastConfirmedBlockNum w ≤ o.headBlockNumber
  irreversible_le : o.lastIrreversibleBlockNum ≤ o.headBlockNumber
  signed : ∀ w, 0 < o.lastConfirmedBlockNum w →
    ∃ e ∈ chain, e.1.witness = w ∧ e.1.blockNum = o.lastConfirmedBlockNum w

theorem thresholdBlockNum_le_of_forall {witnesses : List ℕ} {lastConfirmed : ℕ → ℕ} {n : ℕ}
    (h : ∀ w, lastConfirmed w ≤ n) : thresholdBlockNum witnesses lastConfirmed ≤ n := by
  unfold thresholdBlockNum
  rw [List.getD_eq_getElem?_getD]
  generalize (hundredPercent - irreversibleThreshold) * witnesses.length / hundredPercent = k
  cases hk : ((witnesses.map lastConfirmed).insertionSort (· ≤ ·))[k]? with
  | none => exact Nat.zero_le n
  | some x =>
    have hmem := (List.perm_insertionSort (· ≤ ·) _).mem_iff.mp (List.mem_of_getElem? hk)
    obtain ⟨w, -, rfl⟩ := List.mem_map.mp hmem
    exact h w

theorem proposedBlockNum_le_head {o : Objects R}
    (h : ∀ w, o.lastConfirmedBlockNum w ≤ o.headBlockNumber) :
    proposedBlockNum checkpoints o ≤ o.headBlockNumber := by
  unfold proposedBlockNum
  split
  · exact Nat.sub_le _ _
  · split
    · exact le_rfl
    · exact thresholdBlockNum_le_of_forall h

theorem Signed.block {chain : List (SignedBlock Op × Objects R)} {b : SignedBlock Op}
    {o o' : Objects R} (hs : Signed chain o) (h : Confirms P checkpoints b o o') :
    Signed ((b, o) :: chain) o' := by
  have hnum : o'.headBlockNumber = o.headBlockNumber + 1 := by
    rw [h.headBlockNumber, SignedBlock.blockNum, ← h.previous, hs.headNum]
  have hconfirmed : ∀ w, o'.lastConfirmedBlockNum w ≤ o'.headBlockNumber := by
    intro w
    rw [h.confirmed, Function.update_apply]
    split
    · exact h.headBlockNumber.ge
    · have hle := hs.confirmed_le w
      omega
  refine ⟨?_, hconfirmed, ?_, ?_⟩
  · rw [h.headBlockId, h.headBlockNumber, Protocol.blockId_num]
  · rw [h.irreversible]
    refine max_le ?_ (proposedBlockNum_le_head (o := { o' with activeWitnesses := o.activeWitnesses })
      hconfirmed)
    have hle := hs.irreversible_le
    omega
  · intro w hw
    rw [h.confirmed, Function.update_apply] at hw ⊢
    by_cases hwitness : w = b.witness
    · rw [if_pos hwitness]
      exact ⟨(b, o), List.mem_cons_self, hwitness.symm, rfl⟩
    · rw [if_neg hwitness] at hw ⊢
      obtain ⟨e, he, hsigned⟩ := hs.signed w hw
      exact ⟨e, List.mem_cons_of_mem _ he, hsigned⟩

theorem AppliedWith.signed {g o : Objects R} {chain : List (SignedBlock Op × Objects R)}
    (hg : Unconfirmed g) (h : AppliedWith C checkpoints g chain o) : Signed chain o := by
  induction h with
  | genesis =>
    refine ⟨?_, fun w => (hg.lastConfirmedBlockNum w).le.trans (Nat.zero_le _), ?_, ?_⟩
    · rw [hg.headBlockId, hg.headBlockNumber]
      rfl
    · rw [hg.lastIrreversibleBlockNum]
      exact Nat.zero_le _
    · intro w hw
      rw [hg.lastConfirmedBlockNum w] at hw
      exact absurd hw (lt_irrefl 0)
  | block _ hyields ih => exact ih.block hyields.confirms

/-- **The last irreversible block** does not pass the head, and no block makes it go down. If a block
raises it that is neither a checkpoint nor in the interval that was missed, then all but three tenths
of the active witnesses have signed blocks of the chain that high. -/
theorem last_irreversible_block {g o o' : Objects R} {chain : List (SignedBlock Op × Objects R)}
    {b : SignedBlock Op} (hg : Unconfirmed g) (h : AppliedWith C checkpoints g chain o)
    (hb : YieldsWith C checkpoints b o o') :
    o'.lastIrreversibleBlockNum ≤ o'.headBlockNumber ∧
      o.lastIrreversibleBlockNum ≤ o'.lastIrreversibleBlockNum ∧
      (checkpoints.find b.blockNum = none → ¬ Maintained b.blockNum →
        o.lastIrreversibleBlockNum < o'.lastIrreversibleBlockNum →
        o.activeWitnesses.length - 3 * o.activeWitnesses.length / 10 ≤
            o.activeWitnesses.countP (fun w =>
              o'.lastIrreversibleBlockNum ≤ o'.lastConfirmedBlockNum w) ∧
          ∀ w, o'.lastIrreversibleBlockNum ≤ o'.lastConfirmedBlockNum w →
            ∃ e ∈ (b, o) :: chain, e.1.witness = w ∧ o'.lastIrreversibleBlockNum ≤ e.1.blockNum) := by
  have hsigned := (h.block hb).signed hg
  have hconfirms := hb.confirms
  refine ⟨hsigned.irreversible_le, ?_, ?_⟩
  · rw [hconfirms.irreversible]
    exact le_max_left _ _
  · intro hcheckpoint hmaintained hraised
    have hproposed : o'.lastIrreversibleBlockNum =
        thresholdBlockNum o.activeWitnesses o'.lastConfirmedBlockNum := by
      have hmax := hconfirms.irreversible
      have hthreshold : proposedBlockNum checkpoints { o' with activeWitnesses := o.activeWitnesses } =
          thresholdBlockNum o.activeWitnesses o'.lastConfirmedBlockNum := by
        unfold proposedBlockNum
        simp only [hconfirms.headBlockNumber, if_neg hmaintained, hcheckpoint, Option.isSome_none,
          Bool.false_eq_true, if_false]
      rw [hthreshold] at hmax
      omega
    refine ⟨?_, ?_⟩
    · rw [hproposed]
      exact thresholdBlockNum_le _ _
    · intro w hw
      obtain ⟨e, he, hwitness, hnum⟩ := hsigned.signed w (by omega)
      exact ⟨e, he, hwitness, hw.trans hnum.ge⟩

section Example

/-- A single witness, who signs two blocks. -/
private def noBlock : Database ℕ Unit := genesis (Protocol.permissiveGenesis [0])

private def c₁ : SignedBlock ℕ := .empty .zero 1 1
private def c₂ : SignedBlock ℕ := .empty (Protocol.permissive.blockId c₁) 2 1

private def oneBlock : Database ℕ Unit := final (applyBlock .permissive c₁) noBlock
private def twoBlocks : Database ℕ Unit := final (applyBlock .permissive c₂) oneBlock

private theorem yieldsWith_final {b : SignedBlock ℕ} {s : Database ℕ Unit}
    (h : (applyBlock .permissive b).run' s = some ()) :
    YieldsWith .permissive .none b s.objects (final (applyBlock .permissive b) s).objects := by
  refine ⟨.nothing, s, _, (), rfl, ?_, rfl⟩
  rw [applyBlockWith_nothing]
  exact ok_final_of_run' h

/-- The second block is irreversible at once: its witness has signed a block that high. -/
theorem last_irreversible_block_two : twoBlocks.objects.lastIrreversibleBlockNum = 2 ∧
    1 ≤ [0].countP (fun w => twoBlocks.objects.lastIrreversibleBlockNum ≤
      twoBlocks.objects.lastConfirmedBlockNum w) ∧
    ∃ e ∈ [(c₂, oneBlock.objects), (c₁, noBlock.objects)], e.1.witness = 0 ∧ 2 ≤ e.1.blockNum := by
  have hgenesis : Unconfirmed noBlock.objects := ⟨⟨rfl, rfl, rfl⟩, rfl, fun _ => rfl⟩
  have hchain : AppliedWith .permissive .none noBlock.objects [(c₁, noBlock.objects)]
      oneBlock.objects := .block .genesis (yieldsWith_final (by decide +kernel))
  have hlib : twoBlocks.objects.lastIrreversibleBlockNum = 2 := by decide +kernel
  have hraised := (last_irreversible_block hgenesis hchain
    (yieldsWith_final (b := c₂) (by decide +kernel))).2.2 rfl (by decide) (by decide +kernel)
  have hsigned := hraised.2 0 (by decide +kernel)
  refine ⟨hlib, hraised.1, ?_⟩
  rw [← hlib]
  exact hsigned

end Example

end FinChain.Chain
