import FinChain.Chain.Consistent

/-!
# Irreversible blocks

A block is irreversible when its number does not exceed `last_irreversible_block_num`. Nothing
compares a fork with this number when the database switches to it: what keeps irreversible blocks
in place is only that the fork database has forgotten the blocks below a window. The window is
one block too wide, and it follows the head of the fork database, so that a branch off a block
below the last irreversible one can still be linked and followed (`not_irreversible`).

A fork switch keeps the chain up to the block it goes back to (`blocks_of_pushBlock`). Hence
irreversible blocks stay in every run in which all fork switches go back to blocks at or above the
highest irreversible number held so far (`irreversible_of_guarded`).
-/

namespace FinChain.Chain

open Exec Database

variable {Op R : Type} {P : Protocol Op R} {g : Objects R}

/-- The blocks of the chain, the first block first. -/
def blocks (s : Database Op R) : List (SignedBlock Op) :=
  (s.chain.map Prod.fst).reverse

/-- Every fork switch of the run goes back to a block at or above the highest irreversible number
held so far, which is `lib` at the start. -/
def Guarded (P : Protocol Op R) : Database Op R → ℕ → List (SignedBlock Op) → Prop
  | _, _, [] => True
  | s, lib, b :: bs =>
    (∀ pt, switchPoint P s b = some pt → lib ≤ pt.num) ∧
      Guarded P (final (pushBlock P b) s)
        (max lib (final (pushBlock P b) s).objects.lastIrreversibleBlockNum) bs

/-- The positions of a part of the chain do not depend on what is on top of it. -/
theorem blocks_of_suffix {c : List (SignedBlock Op × Objects R)} {s : Database Op R}
    (hc : c <:+ s.chain) {h : ℕ} (hlt : h < c.length) :
    (blocks s)[h]? = (c.map Prod.fst).reverse[h]? := by
  obtain ⟨newer, hnewer⟩ := hc
  rw [blocks, ← hnewer, List.map_append, List.reverse_append]
  exact List.getElem?_append_left (by simpa using hlt)

/-- The block a fork switch goes back to is on the chain. -/
theorem suffix_of_switchPoint (hg : Genesis g) (hid : HashesPrevious P) {s : Database Op R}
    (hs : Consistent P g s) (hf : s.forkDb.Linked P) {b : SignedBlock Op} {pt : BlockId}
    (hpt : switchPoint P s b = some pt) :
    ∃ c, c <:+ s.chain ∧ headId P c = pt ∧ c.length = pt.num := by
  obtain ⟨⟨newBranch, oldBranch⟩, hbranches, rfl⟩ := Option.map_eq_some_iff.mp hpt
  obtain ⟨f, newHead, hpush, -, hfetch⟩ := switchBranches_eq_some hbranches
  obtain ⟨-, hne, -, last, -, hpath⟩ :=
    ForkDatabase.fetchBranchFrom_path (hf.pushBlock hpush) hfetch
  have hlast : forkPoint oldBranch = last := by
    rw [forkPoint, hpath.getLast? hne]
    rfl
  rw [hs.applied.headBlockId hg] at hpath
  have hhead := hs.applied.headId_of_path hg hid hpath
  refine ⟨_, List.drop_suffix oldBranch.length _, hhead.trans hlast.symm, ?_⟩
  obtain ⟨o', ho'⟩ := hs.applied.of_suffix (List.drop_suffix oldBranch.length s.chain)
  rw [← (ho'.headBlockNumber hg).2, hhead, hlast]

/-- **One call.** Pushing a block keeps the chain, or its part up to the block a fork switch goes
back to. -/
theorem blocks_of_pushBlock (hg : Genesis g) (hid : HashesPrevious P) {s : Database Op R}
    (hs : Consistent P g s) (hf : s.forkDb.Linked P) (b : SignedBlock Op) {lib : ℕ}
    (hguard : ∀ pt, switchPoint P s b = some pt → lib ≤ pt.num) {h : ℕ} (hlt : h < lib)
    {x : SignedBlock Op} (hx : (blocks s)[h]? = some x) :
    (blocks (final (pushBlock P b) s))[h]? = some x := by
  -- the part of the chain that stays, and which contains the position `h`
  obtain ⟨c, hc, hpt, hhc⟩ : ∃ c, c <:+ s.chain ∧
      (∀ pt, switchPoint P s b = some pt → headId P c = pt) ∧ h < c.length := by
    cases hsw : switchPoint P s b with
    | none =>
      refine ⟨s.chain, List.suffix_refl _, fun _ h => (by cases h), ?_⟩
      have := (List.getElem?_eq_some_iff.mp hx).1
      simpa [blocks] using this
    | some pt =>
      obtain ⟨c, hc, hhead, hlen⟩ := suffix_of_switchPoint hg hid hs hf hsw
      refine ⟨c, hc, fun pt' h => ?_, ?_⟩
      · rw [hhead]
        exact Option.some.inj h
      · have := hguard pt hsw
        omega
  have hframe : Frame fun s s' : Database Op R =>
      Consistent P g s ∧ c <:+ s.chain → Consistent P g s' ∧ c <:+ s'.chain :=
    ⟨fun _ h => h, fun h₁ h₂ h => h₂ (h₁ h)⟩
  have happly : ∀ id b, Keeps (fun s s' : Database Op R =>
      Consistent P g s ∧ c <:+ s.chain → Consistent P g s' ∧ c <:+ s'.chain)
      (applyInSession P id b) := by
    intro id b s h
    refine ⟨Consistent.keeps_applyInSession id b s h.1, ?_⟩
    unfold final
    split
    · next hok =>
      rw [(applyInSession_ok hok).chain]
      exact h.2.trans (List.suffix_cons _ _)
    · next herr =>
      rw [(applyInSession_error herr).chain]
      exact h.2
  have hpop : ∀ pt, switchPoint P s b = some pt → Keeps (fun s s' : Database Op R =>
      Consistent P g s ∧ c <:+ s.chain → Consistent P g s' ∧ c <:+ s'.chain)
      (popBlocksTo P pt) := by
    intro pt hsw s h
    refine ⟨keeps_popBlocksTo Consistent.frame Consistent.keeps_popBlock _ s h.1, ?_⟩
    rw [← hpt pt hsw]
    exact (h.1.popBlocksTo hg h.2).1
  have hend := (keeps_pushBlock hframe (fun s f h => ⟨h.1.withForkDb f, h.2⟩) happly hpop
    ⟨hs, hc⟩).2
  rw [blocks_of_suffix hend hhc, ← blocks_of_suffix hc hhc]
  exact hx

/-! ### Runs -/

/-- In a guarded run the blocks up to the highest irreversible number stay. -/
theorem blocks_of_guarded (hg : Genesis g) (hid : HashesPrevious P) (bs : List (SignedBlock Op))
    {s : Database Op R} (hs : Consistent P g s) (hf : s.forkDb.Linked P) {lib : ℕ}
    (hguard : Guarded P s lib bs) {h : ℕ} (hlt : h < lib) {x : SignedBlock Op}
    (hx : (blocks s)[h]? = some x) : (blocks (pushAll P s bs))[h]? = some x := by
  induction bs generalizing s lib with
  | nil => exact hx
  | cons b bs ih =>
    exact ih (hs.pushBlock b) (linked_pushBlock b hf) hguard.2
      (Nat.lt_of_lt_of_le hlt (Nat.le_max_left _ _))
      (blocks_of_pushBlock hg hid hs hf b hguard.1 hlt hx)

/-- The second part of a guarded run is guarded by at least the irreversible number at its
start. -/
theorem Guarded.append {bs bs' : List (SignedBlock Op)} {s : Database Op R} {lib : ℕ}
    (hlib : s.objects.lastIrreversibleBlockNum ≤ lib) (h : Guarded P s lib (bs ++ bs')) :
    ∃ lib', (pushAll P s bs).objects.lastIrreversibleBlockNum ≤ lib' ∧
      Guarded P (pushAll P s bs) lib' bs' := by
  induction bs generalizing s lib with
  | nil => exact ⟨lib, hlib, h⟩
  | cons b bs ih => exact ih (Nat.le_max_right _ _) h.2

/-- **Irreversible blocks stay.** In every run of `push_block` from genesis whose fork switches all
go back to blocks at or above the highest irreversible number held so far, a block that is
irreversible after the blocks `bs` is on the chain, at the same height, after any further blocks
`bs'`. -/
theorem irreversible_of_guarded (hg : Genesis g) (hid : HashesPrevious P)
    (bs bs' : List (SignedBlock Op))
    (hguard : Guarded P (genesis g) g.lastIrreversibleBlockNum (bs ++ bs')) {h : ℕ}
    (hlt : h < (pushAll P (genesis g) bs).objects.lastIrreversibleBlockNum) {x : SignedBlock Op}
    (hx : (blocks (pushAll P (genesis g) bs))[h]? = some x) :
    (blocks (pushAll P (pushAll P (genesis g) bs) bs'))[h]? = some x := by
  obtain ⟨hs, hf⟩ := consistent_pushAll bs (Consistent.genesis P g) (linked_genesis g)
  obtain ⟨lib, hlib, hguard'⟩ := Guarded.append (Nat.le_refl _) hguard
  exact blocks_of_guarded hg hid bs' hs hf hguard' (Nat.lt_of_lt_of_le hlt hlib) hx

section Example

/-- A chain with a single witness, whose every block is irreversible at once. -/
private def oneWitness : Database ℕ Unit := genesis (Protocol.permissiveGenesis [0])

private def a₁ : SignedBlock ℕ := .empty .zero 1 1
private def a₂ : SignedBlock ℕ := .empty (Protocol.permissive.blockId a₁) 2 1
private def a₃ : SignedBlock ℕ := .empty (Protocol.permissive.blockId a₂) 3 1

/-- A longer branch off the first block. -/
private def b₂ : SignedBlock ℕ := .empty (Protocol.permissive.blockId a₁) 4 2
private def b₃ : SignedBlock ℕ := .empty (Protocol.permissive.blockId b₂) 5 2
private def b₄ : SignedBlock ℕ := .empty (Protocol.permissive.blockId b₃) 6 2

theorem irreversible_of_guarded_first_block :
    (pushAll .permissive oneWitness [a₁]).objects.lastIrreversibleBlockNum = 1 ∧
      (blocks (pushAll .permissive (pushAll .permissive oneWitness [a₁]) [a₂, b₂]))[0]? =
        some a₁ := by
  have hswitch : switchPoint .permissive oneWitness a₁ = none ∧
      switchPoint .permissive (pushAll .permissive oneWitness [a₁]) a₂ = none ∧
      switchPoint .permissive (pushAll .permissive oneWitness [a₁, a₂]) b₂ = none := by
    decide +kernel
  have hguard : Guarded .permissive oneWitness 0 ([a₁] ++ [a₂, b₂]) := by
    refine ⟨fun pt h => ?_, fun pt h => ?_, fun pt h => ?_, trivial⟩
    · rw [hswitch.1] at h
      cases h
    · cases hswitch.2.1.symm.trans h
    · cases hswitch.2.2.symm.trans h
  have hlib : (pushAll .permissive oneWitness [a₁]).objects.lastIrreversibleBlockNum = 1 := by
    decide +kernel
  refine ⟨hlib, irreversible_of_guarded ⟨rfl, rfl, rfl⟩ Protocol.permissive_hash [a₁] [a₂, b₂]
    hguard ?_ ?_⟩
  · change 0 < (pushAll .permissive oneWitness [a₁]).objects.lastIrreversibleBlockNum
    rw [hlib]
    exact Nat.one_pos
  · decide +kernel

/-- With three blocks on the chain, all irreversible, the longer branch off the first block is
followed, and the second and third block are popped. -/
theorem not_irreversible :
    ¬ ∀ (bs bs' : List (SignedBlock ℕ)) (h : ℕ) (x : SignedBlock ℕ),
      h < (pushAll .permissive oneWitness bs).objects.lastIrreversibleBlockNum →
      (blocks (pushAll .permissive oneWitness bs))[h]? = some x →
      (blocks (pushAll .permissive (pushAll .permissive oneWitness bs) bs'))[h]? = some x := by
  intro hall
  have hpopped := hall [a₁, a₂, a₃] [b₂, b₃, b₄] 2 a₃ (by decide +kernel) (by decide +kernel)
  exact absurd hpopped (by decide +kernel)

end Example

end FinChain.Chain
