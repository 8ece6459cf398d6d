import FinChain.Chain.BlockView
import FinChain.Chain.Replay

/-!
# Nodes with the same head agree

The objects of a database are the result of its chain, but a block reads the buffers of the votes
too, and these are outside the undo log. `Clean` adds to consistency that the buffers are empty
between two calls, so that every block of the chain was applied with empty ones. The result of such
a block depends on the objects alone (`Makes.unique`), hence the objects of a node on its blocks
alone, whatever forks it pushed, switched to or popped on the way (`agree_of_sameHead`).
-/

namespace FinChain.Chain

open Exec Database

variable {Op R : Type} {P : Protocol Op R} {g o o' : Objects R}

/-! ### Blocks applied with empty buffers -/

/-- `b`, applied with empty buffers to the objects `o`, gives the objects `o'`. -/
def Makes (P : Protocol Op R) (b : SignedBlock Op) (o o' : Objects R) : Prop :=
  ∃ s u s', s.objects = o ∧ NoVotes s.buffers ∧ applyBlock P b s = .ok u s' ∧ s'.objects = o'

theorem Makes.unique {b : SignedBlock Op} {o₁ : Objects R} (h : Makes P b o o')
    (h₁ : Makes P b o o₁) : o' = o₁ := by
  obtain ⟨s, u, s', rfl, hs, hrun, rfl⟩ := h
  obtain ⟨t, v, t', hobjects, ht, hrun₁, rfl⟩ := h₁
  have hend := sameEnd_applyBlock (P := P) b hobjects.symm (.inr (hs.trans ht.symm))
  obtain ⟨t₁, hrun₂, hsame⟩ := (hrun ▸ hend).of_ok
  rw [hrun₁] at hrun₂
  cases hrun₂
  exact hsame

/-- The blocks of a chain, applied with empty buffers, lead from `g` to `o`. -/
inductive Made (P : Protocol Op R) (g : Objects R) :
    List (SignedBlock Op × Objects R) → Objects R → Prop
  | genesis : Made P g [] g
  | block {chain b o o'} : Made P g chain o → Makes P b o o' → Made P g ((b, o) :: chain) o'

/-- The blocks determine the states between them. -/
theorem Made.unique {c c' : List (SignedBlock Op × Objects R)} (h : Made P g c o)
    (h' : Made P g c' o') (hblocks : c.map Prod.fst = c'.map Prod.fst) : c = c' ∧ o = o' := by
  induction h generalizing c' o' with
  | genesis =>
    obtain rfl := List.map_eq_nil_iff.mp hblocks.symm
    cases h'
    exact ⟨rfl, rfl⟩
  | block _ hb ih =>
    cases h' with
    | genesis => simp at hblocks
    | block hc' hb' =>
      simp only [List.map_cons, List.cons.injEq] at hblocks
      obtain ⟨rfl, hblocks⟩ := hblocks
      obtain ⟨rfl, rfl⟩ := ih hc' hblocks
      exact ⟨rfl, hb.unique hb'⟩

/-- The loop over the accounts never throws, so that no block leaves votes behind. -/
def CountsVotes (P : Protocol Op R) : Prop := ∀ b s, ¬ FailsInTally P b s

/-- A block leaves empty buffers empty, whether it returns or throws. -/
theorem noVotes_applyBlock (hP : CountsVotes P) (b : SignedBlock Op) {s : Database Op R}
    (hs : NoVotes s.buffers) : NoVotes (final (applyBlock P b) s).buffers := by
  cases hrun : applyBlock P b s with
  | error e s' =>
    rw [final_of_error hrun]
    exact (sameTally_of_applyBlock hrun (.inr ⟨hs, hP b s⟩)).symm.trans hs
  | ok u s' =>
    rw [final_of_ok hrun]
    rw [applyBlock_eq] at hrun
    obtain ⟨maintNeeded, s₁, hbegin, h₁⟩ := bind_eq_ok.mp hrun
    obtain ⟨_, s₂, hmaint, hend⟩ := bind_eq_ok.mp h₁
    have hs₁ : NoVotes s₁.buffers := (keeps_buffers_beginBlock b).of_ok hbegin ▸ hs
    rw [(keeps_buffers_endBlock b).of_ok hend, ← final_of_ok hmaint]
    cases hneeded : maintNeeded with
    | false => exact hs₁
    | true =>
      refine noVotes_performChainMaintenance hs₁ fun s₃ e s₄ hb htally => ?_
      exact hP b s ⟨s₁, s₃, e, s₄, hneeded ▸ hbegin, hb, htally⟩

/-! ### Runs -/

/-- The chain was applied with empty buffers, and they are empty. -/
structure Clean (P : Protocol Op R) (g : Objects R) (s : Database Op R) : Prop
    extends Consistent P g s where
  made : Made P g s.chain s.objects
  noVotes : NoVotes s.buffers

theorem Clean.frame : Frame fun s s' : Database Op R => Clean P g s → Clean P g s' where
  refl _ h := h
  trans h₁ h₂ h := h₂ (h₁ h)

theorem Clean.keeps_applyInSession (hP : CountsVotes P) (id : BlockId) (b : SignedBlock Op) :
    Keeps (fun s s' => Clean P g s → Clean P g s') (applyInSession P id b) := by
  intro s h
  have hvotes := noVotes_applyBlock hP b (s := { s with undo := s.undo.start }) h.noVotes
  have hc := Consistent.keeps_applyInSession id b s h.toConsistent
  rcases applyInSession_run (P := P) id b s with
    ⟨s₁, s', happly, hrun, hobjects, hbuffers⟩ | ⟨e, s₁, s', happly, hrun, hobjects, hbuffers⟩
  · rw [final_of_ok hrun] at hc ⊢
    rw [final_of_ok happly, ← hbuffers] at hvotes
    refine ⟨hc, ?_, hvotes⟩
    rw [(applyInSession_ok hrun).chain, hobjects]
    exact .block h.made ⟨{ s with undo := s.undo.start }, (), s₁, rfl, h.noVotes, happly, rfl⟩
  · rw [final_of_error hrun] at hc ⊢
    rw [final_of_error happly, ← hbuffers] at hvotes
    refine ⟨hc, ?_, hvotes⟩
    rw [(applyInSession_error hrun).chain, hobjects]
    exact h.made

theorem Clean.keeps_popBlock :
    Keeps (fun s s' => Clean P g s → Clean P g s') (popBlock P) := by
  intro s h
  have hc := Consistent.keeps_popBlock s h.toConsistent
  cases hrun : popBlock P s with
  | ok u s' =>
    rw [final_of_ok hrun] at hc ⊢
    have hpop := popBlock_ok hrun
    refine ⟨hc, ?_, hpop.buffers ▸ h.noVotes⟩
    obtain ⟨b, hchain⟩ := h.chain_of_popped hpop
    have hmade := h.made
    rw [hchain] at hmade
    cases hmade with
    | block hmade _ => exact hmade
  | error e s' =>
    rw [final_of_error hrun] at hc ⊢
    have hnot := popBlock_error hrun
    refine ⟨hc, ?_, hnot.buffers ▸ h.noVotes⟩
    show Made P g s'.chain s'.undo.current
    rw [hnot.chain, hnot.undo]
    exact h.made

/-- Between two calls every database is clean. -/
theorem Reachable.clean (hP : CountsVotes P) {s : Database Op R} (h : Reachable P g s) :
    Clean P g s := by
  induction h with
  | genesis => exact ⟨.genesis P g, .genesis, ⟨rfl, rfl, rfl⟩⟩
  | pushBlock b _ ih =>
    exact keeps_pushBlock Clean.frame (fun _ f h => ⟨h.withForkDb f, h.made, h.noVotes⟩)
      (Clean.keeps_applyInSession hP)
      (fun _ _ => keeps_popBlocksTo Clean.frame Clean.keeps_popBlock _) ih
  | popBlock _ ih => exact Clean.keeps_popBlock _ ih

/-- Chains that end in the same id have the same blocks, unless two of them share an id. -/
theorem Applied.blocks_eq (hg : Genesis g) {c c' : List (SignedBlock Op × Objects R)}
    (h : Applied P g c o) (h' : Applied P g c' o')
    (hid : ∀ b ∈ c.map Prod.fst, ∀ b' ∈ c'.map Prod.fst, P.blockId b = P.blockId b' → b = b')
    (hhead : headId P c = headId P c') : c.map Prod.fst = c'.map Prod.fst := by
  have hlength : c.length = c'.length := by
    rw [← (h.headBlockNumber hg).2, ← (h'.headBlockNumber hg).2, hhead]
  induction h generalizing c' o' with
  | genesis =>
    obtain rfl := List.length_eq_zero_iff.mp hlength.symm
    rfl
  | @block c b o _ hc hb ih =>
    cases h' with
    | genesis => simp at hlength
    | @block c' b' o' _ hc' hb' =>
      obtain rfl : b = b' := hid _ List.mem_cons_self _ List.mem_cons_self hhead
      have hprev : headId P c = headId P c' := by
        rw [← hc.headBlockId hg, ← hc'.headBlockId hg]
        exact hb.blockApplied.previous.trans hb'.blockApplied.previous.symm
      refine congrArg (_ :: ·) (ih hc' (fun b hb b' hb' => ?_) hprev (Nat.succ.inj hlength))
      exact hid b (List.mem_cons_of_mem _ hb) b' (List.mem_cons_of_mem _ hb')

/-- **Nodes with the same head agree.** Two databases that started from the same genesis and were
led, by any calls of `push_block` and `pop_block`, to the same head block id hold the same blocks,
the same objects, and the same states before each of their blocks, unless two different blocks of
their chains have one id. -/
theorem agree_of_sameHead (hg : Genesis g) (hP : CountsVotes P) {s t : Database Op R}
    (hs : Reachable P g s) (ht : Reachable P g t)
    (hid : ∀ b ∈ s.chain.map Prod.fst, ∀ b' ∈ t.chain.map Prod.fst,
      P.blockId b = P.blockId b' → b = b')
    (hhead : s.objects.headBlockId = t.objects.headBlockId) :
    s.chain = t.chain ∧ s.objects = t.objects := by
  have hsc := hs.clean hP
  have htc := ht.clean hP
  refine hsc.made.unique htc.made (hsc.applied.blocks_eq hg htc.applied hid ?_)
  rw [← hsc.applied.headBlockId hg, ← htc.applied.headBlockId hg, hhead]

section Example

private def keptBlock : SignedBlock ℕ := .empty .zero 5 1

private def poppedBlock : SignedBlock ℕ := .empty (Protocol.permissive.blockId keptBlock) 10 1

/-- A node that has popped the second block agrees with one that never saw it. -/
theorem agree_after_pop :
    let s := final (pushBlock .permissive keptBlock) (genesis (Protocol.permissiveGenesis [0]))
    (final (popBlock .permissive) (final (pushBlock .permissive poppedBlock) s)).objects = s.objects := by
  intro s
  have hP : CountsVotes Protocol.permissive := by
    rintro b s ⟨s₁, s₂, e, s₃, -, -, h⟩
    cases h
  refine (agree_of_sameHead (g := Protocol.permissiveGenesis [0]) ⟨rfl, rfl, rfl⟩ hP
    (.popBlock (.pushBlock poppedBlock (.pushBlock keptBlock .genesis)))
    (.pushBlock keptBlock .genesis) (fun b hb b' hb' _ => ?_) rfl).2
  have hb : b ∈ [keptBlock] := hb
  have hb' : b' ∈ [keptBlock] := hb'
  rw [List.mem_singleton.mp hb, List.mem_singleton.mp hb']

end Example

end FinChain.Chain
