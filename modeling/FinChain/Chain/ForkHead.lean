import FinChain.Chain.Consistent

/-!
# The head of the fork database

Both `database` and its fork database keep a head. Pushing a block moves the head of the fork
database first; a fork switch then pops the old branch with `pop_block`, which also moves the head
of the fork database back, one item of the *new* branch for each popped block, and nothing moves
it forward again while the new branch is applied.

So the two heads agree as long as every pushed block builds on the head or is not higher than it,
and they disagree after every successful fork switch. `forkHead_agrees_iff` states both for the
runs of `push_block` that return normally.
-/

namespace FinChain.Chain

open Exec Database

variable {Op R : Type} {P : Protocol Op R} {g : Objects R}

/-- The head of the fork database is the head block. -/
def ForkHeadAgrees (P : Protocol Op R) (s : Database Op R) : Prop :=
  s.forkDb.head.map (ForkItem.id P) = some s.objects.headBlockId

/-- The block builds on the head, or it is not higher than the head. -/
def StaysOnBranch (s : Database Op R) (b : SignedBlock Op) : Prop :=
  b.previous = s.objects.headBlockId ∨ b.blockNum ≤ s.objects.headBlockNumber

/-- The databases reached from genesis by calls of `push_block` that return normally, with blocks
as `C` allows them. -/
inductive NormalRun (P : Protocol Op R) (g : Objects R)
    (C : Database Op R → SignedBlock Op → Prop) : Database Op R → Prop
  | genesis : NormalRun P g C (genesis g)
  | pushBlock {s s' b r} : NormalRun P g C s → C s b → pushBlock P b s = .ok r s' →
      NormalRun P g C s'

/-- What is known of the heads between two calls: there is no block yet, or they agree. -/
structure HeadsInv (P : Protocol Op R) (g : Objects R) (s : Database Op R) : Prop where
  consistent : Consistent P g s
  linked : s.forkDb.Linked P
  heads : s.forkDb.head = none ∧ s.chain = [] ∨ ForkHeadAgrees P s

/-- A block that builds on the head and is applied becomes the head of both. -/
theorem forkHeadAgrees_of_extendChain {b : SignedBlock Op} {s s' : Database Op R} {u : Unit}
    {i : ForkItem Op} (hi : s.forkDb.head = some i) (hdata : i.data = b)
    (h : extendChain P b s = .ok u s') : ForkHeadAgrees P s' := by
  rcases tryCatch_eq_ok.mp h with hok | ⟨e, s₁, -, hthrow⟩
  · have he := applyInSession_ok hok
    rw [ForkHeadAgrees, he.forkHead, hi, he.yields.blockApplied.headBlockId, ← hdata]
    rfl
  · rw [update_bind] at hthrow
    cases hthrow

/-- **One call that stays on the branch** keeps the heads together. -/
theorem HeadsInv.forkHeadAgrees (hg : Genesis g) {s s' : Database Op R} {b : SignedBlock Op}
    {r : Bool} (h : HeadsInv P g s) (hstay : StaysOnBranch s b)
    (hpush : Database.pushBlock P b s = .ok r s') : ForkHeadAgrees P s' := by
  obtain ⟨hnumber, hlen⟩ := h.consistent.applied.headBlockNumber hg
  have hheadId := h.consistent.applied.headBlockId hg
  have hnum : s.objects.headBlockId.num = s.objects.headBlockNumber := by
    rw [hheadId, hlen, hnumber]
  rcases pushBlock_cases P b s with ⟨e, -, hrun⟩ | ⟨f, newHead, hf, hhead, hcases⟩
  · rw [hrun] at hpush
    cases hpush
  obtain ⟨item, hlink, rfl⟩ := ForkDatabase.pushBlock_eq_ok hf
  have hdata : item.data = b := ForkDatabase.link_data hlink
  have hitem : item.num = b.previous.num + 1 := by
    rw [ForkItem.num, hdata]
    rfl
  -- the block becomes the head of the fork database exactly when it builds on the head
  have hnew : (b.previous = s.objects.headBlockId ∧ newHead = item) ∨
      (b.blockNum ≤ s.objects.headBlockNumber ∧ s.forkDb.head = some newHead ∧
        ForkHeadAgrees P s) := by
    rw [ForkDatabase.add_head] at hhead
    rcases h.heads with ⟨hnone, hchain⟩ | hagree
    · rw [hnone] at hhead
      refine .inl ⟨hstay.resolve_right fun hle => ?_, (Option.some.inj hhead).symm⟩
      rw [hnumber, hchain] at hle
      exact absurd hle (by simp [SignedBlock.blockNum])
    · obtain ⟨head, hsome, hid⟩ := Option.map_eq_some_iff.mp hagree
      have hheadnum : head.num = s.objects.headBlockNumber := by
        rw [← hnum, ← hid]
        rfl
      rw [hsome] at hhead
      rcases hstay with hprev | hle
      · have hlt : head.num < item.num := by
          rw [hitem, hprev]
          omega
        simp only [if_pos hlt] at hhead
        exact .inl ⟨hprev, (Option.some.inj hhead).symm⟩
      · have hlt : ¬ head.num < item.num := by
          rw [hitem]
          unfold SignedBlock.blockNum at hle
          omega
        simp only [if_neg hlt] at hhead
        exact .inr ⟨hle, by rw [hsome, hhead], hagree⟩
  rcases hnew with ⟨hprev, rfl⟩ | ⟨hle, hsome, hagree⟩
  · have hprev' : newHead.data.previous = s.objects.headBlockId := by rw [hdata, hprev]
    rcases hcases with ⟨-, hrun⟩ | ⟨hne, -⟩ | ⟨hne, -⟩
    · rw [hrun] at hpush
      obtain ⟨_, s₁, hextend, hpure⟩ := bind_eq_ok.mp hpush
      cases hpure
      exact forkHeadAgrees_of_extendChain hhead hdata hextend
    · exact absurd hprev' hne
    · exact absurd hprev' hne
  · -- the old head is returned, and the block is kept aside
    have hid : newHead.id P = s.objects.headBlockId := by
      rw [ForkHeadAgrees, hsome] at hagree
      exact Option.some.inj hagree
    have hne : newHead.data.previous ≠ s.objects.headBlockId := by
      rw [← hid]
      exact (P.blockId_ne_previous _).symm
    have hheadnum : newHead.num = s.objects.headBlockNumber := by
      rw [← hnum, ← hid]
      rfl
    rcases hcases with ⟨heq, -⟩ | ⟨-, -, hrun⟩ | ⟨-, hlt, -⟩
    · exact absurd heq hne
    · rw [hrun] at hpush
      cases hpush
      rw [ForkHeadAgrees, hhead]
      exact congrArg some hid
    · omega

/-! ### Fork switches -/

/-- Pushing a branch leaves the head of the fork database where it is. -/
theorem pushBranch_ok {newBlock : SignedBlock Op} {pt : BlockId} {old : List (ForkItem Op)} :
    ∀ {l : List (ForkItem Op)} {s s' : Database Op R} {u : Unit},
      pushBranch P newBlock pt old l s = .ok u s' →
      s'.forkDb.head = s.forkDb.head ∧
        ∀ i, l.getLast? = some i → s'.objects.headBlockId = i.id P
  | [], s, s', _, h => by
    cases h
    exact ⟨rfl, fun i hi => by cases hi⟩
  | j :: l, s, s', u, h => by
    obtain ⟨_, s₁, happly, hrest⟩ := bind_eq_ok.mp h
    rcases tryCatch_eq_ok.mp happly with hok | ⟨e, s₂, -, hrecover⟩
    · have he := applyInSession_ok hok
      obtain ⟨hhead, hlast⟩ := pushBranch_ok hrest
      refine ⟨hhead.trans he.forkHead, fun i hi => ?_⟩
      cases l with
      | nil =>
        cases hrest
        cases hi
        exact he.yields.blockApplied.headBlockId
      | cons k l =>
        rw [List.getLast?_cons_cons] at hi
        exact hlast i hi
    · -- the recovery never returns
      obtain ⟨_, _, -, h₁⟩ := bind_eq_ok.mp hrecover
      obtain ⟨_, _, -, h₂⟩ := bind_eq_ok.mp h₁
      obtain ⟨_, _, -, h₃⟩ := bind_eq_ok.mp h₂
      obtain ⟨_, _, -, h₄⟩ := bind_eq_ok.mp h₃
      cases h₄

/-- **After a fork switch** the head of the fork database is below the head block. -/
theorem not_forkHeadAgrees_of_switchFork {newBlock : SignedBlock Op} {newHead : ForkItem Op}
    {s s' : Database Op R} {u : Unit} (hlinked : s.forkDb.Linked P)
    (hhead : s.forkDb.head = some newHead)
    (h : switchFork P newBlock newHead s = .ok u s') : ¬ ForkHeadAgrees P s' := by
  rcases switchFork_cases P newBlock newHead s with
    ⟨e, -, hrun⟩ | ⟨newBranch, oldBranch, hfetch, hrun⟩
  · rw [hrun] at h
    cases h
  rw [hrun] at h
  obtain ⟨hne, hne', hall, last, hpath, hpath'⟩ :=
    ForkDatabase.fetchBranchFrom_path hlinked hfetch
  obtain ⟨_, s₁, hx, rfl⟩ := holding_ok h
  obtain ⟨_, s₂, hpop, hbranch⟩ := bind_eq_ok.mp hx
  have hpoint : forkPoint oldBranch = last := by
    rw [forkPoint, hpath'.getLast? hne']
    rfl
  -- at least the old head is popped
  have hneeds : s.objects.headBlockId ≠ forkPoint oldBranch := by
    intro heq
    have hlen := hpath'.num_eq
    rw [heq, hpoint] at hlen
    have : oldBranch.length ≠ 0 := fun h0 => hne' (List.length_eq_zero_iff.mp h0)
    omega
  have hlinked' : ({ s.forkDb with held := newHead :: newBranch ++ oldBranch } :
      ForkDatabase Op).Linked P := by
    refine linked_held hlinked fun i hi => ?_
    rcases List.mem_cons.mp hi with rfl | hi
    · exact hlinked i (by simp [hhead])
    · exact hall i hi
  obtain ⟨i, hi, -, hlt⟩ := popBlocksTo_forkHead hpop hlinked' hhead
  obtain ⟨hforkHead, hlast⟩ := pushBranch_ok hbranch
  -- the last block pushed is the one the branch was fetched for
  have hheadId : s₁.objects.headBlockId = newHead.id P := by
    cases hb : newBranch with
    | nil => exact absurd hb hne
    | cons j l =>
      rw [hb] at hpath hlast
      rw [hlast j (by simp), hpath.1]
  intro hagree
  change s₁.forkDb.head.map (ForkItem.id P) = some s₁.objects.headBlockId at hagree
  rw [hforkHead, hi, hheadId] at hagree
  have hnum : i.num = newHead.num := congrArg BlockId.num (Option.some.inj hagree)
  have := hlt hneeds
  omega

/-! ### Runs -/

theorem NormalRun.headsInv (hg : Genesis g) {s : Database Op R}
    (h : NormalRun P g StaysOnBranch s) : HeadsInv P g s := by
  induction h with
  | genesis => exact ⟨.genesis P g, linked_genesis g, .inl ⟨rfl, rfl⟩⟩
  | @pushBlock s s' b r hs hstay hpush ih =>
    refine ⟨?_, ?_, .inr (ih.forkHeadAgrees hg hstay hpush)⟩
    · have := ih.consistent.pushBlock b
      rwa [final_of_ok hpush] at this
    · have := linked_pushBlock b ih.linked
      rwa [final_of_ok hpush] at this

/-- **When the heads agree.** After a run of calls that return normally and whose blocks all
build on the head or are not higher than it, one more call that returns normally leaves the head
of the fork database at the head block exactly when its block does so as well. -/
theorem forkHead_agrees_iff (hg : Genesis g) {s s' : Database Op R} {b : SignedBlock Op} {r : Bool}
    (h : NormalRun P g StaysOnBranch s) (hpush : pushBlock P b s = .ok r s') :
    ForkHeadAgrees P s' ↔ StaysOnBranch s b := by
  have hinv := h.headsInv hg
  refine ⟨fun hagree => ?_, fun hstay => hinv.forkHeadAgrees hg hstay hpush⟩
  by_contra hstay
  obtain ⟨hprev, hle⟩ := not_or.mp hstay
  rcases pushBlock_cases P b s with ⟨e, -, hrun⟩ | ⟨f, newHead, hf, hhead, hcases⟩
  · rw [hrun] at hpush
    cases hpush
  have hlinked : f.Linked P := hinv.linked.pushBlock hf
  obtain ⟨item, hlink, rfl⟩ := ForkDatabase.pushBlock_eq_ok hf
  have hdata : item.data = b := ForkDatabase.link_data hlink
  -- a block higher than the head becomes the head of the fork database
  obtain rfl : newHead = item := by
    rw [ForkDatabase.add_head] at hhead
    rcases hinv.heads with ⟨hnone, -⟩ | hagree'
    · rw [hnone] at hhead
      exact (Option.some.inj hhead).symm
    · obtain ⟨head, hsome, hid⟩ := Option.map_eq_some_iff.mp hagree'
      have hheadnum : head.num = s.objects.headBlockNumber := by
        obtain ⟨hnumber, hlen⟩ := hinv.consistent.applied.headBlockNumber hg
        rw [hnumber, ← hlen, ← hinv.consistent.applied.headBlockId hg, ← hid]
        rfl
      have hlt : head.num < item.num := by
        rw [hheadnum, ForkItem.num, hdata]
        omega
      rw [hsome] at hhead
      simp only [if_pos hlt] at hhead
      exact (Option.some.inj hhead).symm
  rcases hcases with ⟨heq, -⟩ | ⟨-, hnum, -⟩ | ⟨-, -, hrun⟩
  · rw [hdata] at heq
    exact hprev heq
  · rw [ForkItem.num, hdata] at hnum
    exact hle hnum
  · rw [hrun] at hpush
    obtain ⟨_, s₁, hswitch, hpure⟩ := bind_eq_ok.mp hpush
    cases hpure
    exact not_forkHeadAgrees_of_switchFork hlinked hhead hswitch hagree

section Example

private def singleWitness : Database ℕ Unit := genesis (Protocol.permissiveGenesis [0])

private def first : SignedBlock ℕ := .empty .zero 1 1

/-- A branch of two blocks that competes with `first`. -/
private def rival₁ : SignedBlock ℕ := .empty .zero 2 2
private def rival₂ : SignedBlock ℕ := .empty (Protocol.permissive.blockId rival₁) 3 2

private def one : Database ℕ Unit := final (pushBlock .permissive first) singleWitness
private def two : Database ℕ Unit := final (pushBlock .permissive rival₁) one
private def three : Database ℕ Unit := final (pushBlock .permissive rival₂) two

theorem forkHead_agrees_iff_first_block :
    ForkHeadAgrees .permissive one ↔ StaysOnBranch singleWitness first := by
  have hpush : pushBlock .permissive first singleWitness = .ok false one :=
    ok_final_of_run' (by decide +kernel)
  exact forkHead_agrees_iff ⟨rfl, rfl, rfl⟩ .genesis hpush

/-- After the switch to the branch of two blocks, the head of the fork database is the first block
of this branch. -/
theorem not_forkHead_agrees :
    ¬ ∀ (s s' : Database ℕ Unit) (b : SignedBlock ℕ) (r : Bool),
      NormalRun .permissive (Protocol.permissiveGenesis [0]) (fun _ _ => True) s →
      pushBlock .permissive b s = .ok r s' → ForkHeadAgrees .permissive s' := by
  intro hall
  have h₁ : pushBlock .permissive first singleWitness = .ok false one :=
    ok_final_of_run' (by decide +kernel)
  have h₂ : pushBlock .permissive rival₁ one = .ok false two :=
    ok_final_of_run' (by decide +kernel)
  have h₃ : pushBlock .permissive rival₂ two = .ok true three :=
    ok_final_of_run' (by decide +kernel)
  have hagree := hall _ _ _ _ (.pushBlock (.pushBlock .genesis trivial h₁) trivial h₂) h₃
  exact absurd hagree (by unfold ForkHeadAgrees; decide +kernel)

end Example

end FinChain.Chain
