import FinChain.Chain.PushSpec

/-!
# The chain and its snapshots

`Applied P g chain o`: the object state `o` is the result of applying the blocks of `chain`, one
after the other, to the genesis objects `g`. `Consistent` says that the objects of a database are
the result of its chain and that the snapshots of the undo database are the object states before
the last blocks of the chain, without a gap. Pushing and popping blocks keeps a database
consistent, whether the calls return or throw (`Consistent.pushBlock`).
-/

namespace FinChain.Chain

open Exec

variable {Op R : Type}

/-- `Applied P g chain o`: the blocks of `chain`, newest first and each with the object state it
was applied to, lead from `g` to `o`. -/
inductive Applied (P : Protocol Op R) (g : Objects R) :
    List (SignedBlock Op × Objects R) → Objects R → Prop
  | genesis : Applied P g [] g
  | block {chain b o o'} : Applied P g chain o → Yields P b o o' →
      Applied P g ((b, o) :: chain) o'

/-- The id of the newest block of a chain. -/
def headId (P : Protocol Op R) : List (SignedBlock Op × Objects R) → BlockId
  | [] => .zero
  | (b, _) :: _ => P.blockId b

/-- The objects before the first block. -/
structure Genesis (g : Objects R) : Prop where
  headBlockNumber : g.headBlockNumber = 0
  headBlockId : g.headBlockId = .zero
  transactions : g.transactions = []

section Applied

variable {P : Protocol Op R} {g o : Objects R} {chain : List (SignedBlock Op × Objects R)}

theorem Applied.headBlockId (hg : Genesis g) (h : Applied P g chain o) :
    o.headBlockId = headId P chain := by
  cases h with
  | genesis => exact hg.headBlockId
  | block _ hb => exact hb.blockApplied.headBlockId

/-- The head block number counts the blocks of the chain. -/
theorem Applied.headBlockNumber (hg : Genesis g) (h : Applied P g chain o) :
    o.headBlockNumber = chain.length ∧ (headId P chain).num = chain.length := by
  induction h with
  | genesis => exact ⟨hg.headBlockNumber, rfl⟩
  | block hc hb ih =>
    have hprev := hb.blockApplied.previous
    rw [hc.headBlockId hg] at hprev
    have hnum := ih.2
    rw [hprev] at hnum
    refine ⟨?_, ?_⟩
    · rw [hb.blockApplied.headBlockNumber, SignedBlock.blockNum, hnum, List.length_cons]
    · change SignedBlock.blockNum _ = _
      rw [SignedBlock.blockNum, hnum, List.length_cons]

/-- Each part of a chain was applied to genesis. -/
theorem Applied.of_suffix (h : Applied P g chain o) {c : List (SignedBlock Op × Objects R)}
    (hc : c <:+ chain) : ∃ o', Applied P g c o' := by
  induction h with
  | genesis =>
    obtain rfl := List.suffix_nil.mp hc
    exact ⟨g, .genesis⟩
  | block hchain hb ih =>
    rcases List.suffix_cons_iff.mp hc with rfl | hc
    · exact ⟨_, .block hchain hb⟩
    · exact ih hc

/-- The id of a block determines its predecessor, which is hashed with the rest of the header. -/
def HashesPrevious (P : Protocol Op R) : Prop :=
  ∀ b b', P.blockId b = P.blockId b' → b.previous = b'.previous

/-- A path in the fork database that starts at the head of the chain runs along the chain. -/
theorem Applied.headId_of_path (hg : Genesis g) (hid : HashesPrevious P) (h : Applied P g chain o)
    {l : List (ForkItem Op)} {last : BlockId} (hpath : Path P (headId P chain) l last) :
    headId P (chain.drop l.length) = last := by
  induction l generalizing chain o with
  | nil => exact hpath
  | cons i l ih =>
    cases h with
    | genesis => exact absurd hpath.1 (P.blockId_ne_zero _)
    | block hchain hb =>
      -- the item and the block of the chain have the same id, so the same predecessor
      have hprev := hb.blockApplied.previous
      rw [hchain.headBlockId hg, ← hid i.data _ hpath.1] at hprev
      have hpath' := hpath.2
      rw [← hprev] at hpath'
      exact ih hchain hpath'

end Applied

namespace Database

variable {P : Protocol Op R}

/-! ### Consistency -/

/-- The objects are the result of the chain, and the snapshots are the object states before its
last blocks. -/
structure Consistent (P : Protocol Op R) (g : Objects R) (s : Database Op R) : Prop where
  applied : Applied P g s.chain s.objects
  saved : s.undo.saved <+: s.chain.map Prod.snd
  active : s.undo.active = 0

section Consistent

variable {g : Objects R} {s s' : Database Op R}

theorem Consistent.genesis (P : Protocol Op R) (g : Objects R) :
    Consistent P g (genesis g : Database Op R) :=
  ⟨.genesis, List.nil_prefix, rfl⟩

theorem Consistent.extended {id : BlockId} {b : SignedBlock Op} (h : Consistent P g s)
    (he : Extended P id b s s') : Consistent P g s' := by
  refine ⟨?_, ?_, he.active.trans h.active⟩
  · rw [he.chain]
    exact .block h.applied he.yields
  · rw [he.saved, he.chain, List.map_cons, List.cons_prefix_cons]
    exact ⟨rfl, (List.take_prefix _ _).trans h.saved⟩

theorem Consistent.unwound (h : Consistent P g s) (hu : Unwound s s') : Consistent P g s' := by
  refine ⟨?_, ?_, hu.active.trans h.active⟩
  · rw [hu.chain, hu.objects]
    exact h.applied
  · rw [hu.saved, hu.chain]
    exact (List.take_prefix _ _).trans h.saved

/-- Popping a block leads back to the object state the newest block of the chain was applied
to. -/
theorem Consistent.chain_of_popped (h : Consistent P g s) (hp : Popped P s s') :
    ∃ b, s.chain = (b, s'.objects) :: s'.chain := by
  have hsaved := h.saved
  rw [hp.saved] at hsaved
  rw [hp.chain]
  cases hc : s.chain with
  | nil =>
    rw [hc] at hsaved
    exact absurd hsaved (by simp)
  | cons e c =>
    rw [hc, List.map_cons, List.cons_prefix_cons] at hsaved
    exact ⟨e.1, by rw [hsaved.1, List.tail_cons]⟩

theorem Consistent.popped (h : Consistent P g s) (hp : Popped P s s') : Consistent P g s' := by
  obtain ⟨b, hchain⟩ := h.chain_of_popped hp
  refine ⟨?_, ?_, hp.active.2⟩
  · have happlied := h.applied
    rw [hchain] at happlied
    cases happlied with
    | block hc _ => exact hc
  · have hsaved := h.saved
    rw [hp.saved, hchain, List.map_cons, List.cons_prefix_cons] at hsaved
    exact hsaved.2

theorem Consistent.notPopped (h : Consistent P g s) (hn : NotPopped s s') : Consistent P g s' := by
  refine ⟨?_, ?_, ?_⟩
  · rw [hn.chain, objects, hn.undo]
    exact h.applied
  · rw [hn.chain, hn.undo]
    exact h.saved
  · rw [hn.undo]
    exact h.active

theorem Consistent.frame :
    Frame fun s s' : Database Op R => Consistent P g s → Consistent P g s' where
  refl _ h := h
  trans h₁ h₂ h := h₂ (h₁ h)

theorem Consistent.keeps_applyInSession (id : BlockId) (b : SignedBlock Op) :
    Keeps (fun s s' => Consistent P g s → Consistent P g s') (applyInSession P id b) := by
  intro s h
  unfold final
  split
  · next hok => exact h.extended (applyInSession_ok hok)
  · next herr => exact h.unwound (applyInSession_error herr)

theorem Consistent.keeps_popBlock :
    Keeps (fun s s' => Consistent P g s → Consistent P g s') (popBlock P) := by
  intro s h
  unfold final
  split
  · next hok => exact h.popped (popBlock_ok hok)
  · next herr => exact h.notPopped (popBlock_error herr)

/-- The fork database plays no part in consistency. -/
theorem Consistent.withForkDb (h : Consistent P g s) (f : ForkDatabase Op) :
    Consistent P g { s with forkDb := f } :=
  ⟨h.applied, h.saved, h.active⟩

/-- **Pushing a block keeps the database consistent**, whether it returns or throws. -/
theorem Consistent.pushBlock (b : SignedBlock Op) (h : Consistent P g s) :
    Consistent P g (final (pushBlock P b) s) :=
  keeps_pushBlock Consistent.frame (fun _ f h => h.withForkDb f) Consistent.keeps_applyInSession
    (fun _ _ => keeps_popBlocksTo Consistent.frame Consistent.keeps_popBlock _) h

/-- The head block id tells how much of the chain is left. -/
theorem Consistent.chain_eq (hg : Genesis g) (h : Consistent P g s)
    {c : List (SignedBlock Op × Objects R)} (hc : c <:+ s.chain)
    (heq : s.objects.headBlockId = headId P c) : s.chain = c := by
  obtain ⟨o', ho'⟩ := h.applied.of_suffix hc
  have hlen : s.chain.length = c.length := by
    rw [← (h.applied.headBlockNumber hg).2, ← (ho'.headBlockNumber hg).2, ← heq,
      h.applied.headBlockId hg]
  exact (hc.eq_of_length hlen.symm).symm

/-- Popping back to a block of the chain does not pop more, and stops there when it returns. -/
theorem Consistent.popUntil (hg : Genesis g) {c : List (SignedBlock Op × Objects R)} :
    ∀ (n : ℕ) (s : Database Op R), Consistent P g s → c <:+ s.chain →
      c <:+ (final (popUntil P (headId P c) n) s).chain ∧
      ∀ u s', Database.popUntil P (headId P c) n s = .ok u s' → s'.chain = c := by
  intro n
  induction n with
  | zero =>
    intro s h hc
    have hrun : Database.popUntil P (headId P c) 0 s =
        (assert .undo (s.objects.headBlockId = headId P c) : DatabaseM Op R Unit) s := rfl
    by_cases heq : s.objects.headBlockId = headId P c
    · rw [final, hrun, assert, if_pos heq]
      refine ⟨hc, fun u s' hok => ?_⟩
      cases hok
      exact h.chain_eq hg hc heq
    · rw [final, hrun, assert, if_neg heq]
      exact ⟨hc, fun u s' hok => by cases hok⟩
  | succ n ih =>
    intro s h hc
    have hrun : Database.popUntil P (headId P c) (n + 1) s =
        (if s.objects.headBlockId = headId P c then pure ()
          else popBlock P >>= fun _ => Database.popUntil P (headId P c) n : DatabaseM Op R Unit) s :=
      rfl
    by_cases heq : s.objects.headBlockId = headId P c
    · rw [final, hrun, if_pos heq]
      refine ⟨hc, fun u s' hok => ?_⟩
      cases hok
      exact h.chain_eq hg hc heq
    · rw [final, hrun, if_neg heq, bind_apply]
      cases hpop : popBlock P s with
      | error e s₁ =>
        refine ⟨?_, fun u s' hok => by cases hok⟩
        change c <:+ s₁.chain
        rw [(popBlock_error hpop).chain]
        exact hc
      | ok u s₁ =>
        have hp := popBlock_ok hpop
        obtain ⟨b, hchain⟩ := h.chain_of_popped hp
        have hc₁ : c <:+ s₁.chain := by
          rw [hchain] at hc
          rcases List.suffix_cons_iff.mp hc with rfl | hc
          · refine absurd ?_ heq
            rw [h.applied.headBlockId hg, hchain]
          · exact hc
        exact ih s₁ (h.popped hp) hc₁

theorem Consistent.popBlocksTo (hg : Genesis g) {c : List (SignedBlock Op × Objects R)}
    (h : Consistent P g s) (hc : c <:+ s.chain) :
    c <:+ (final (popBlocksTo P (headId P c)) s).chain ∧
      ∀ u s', Database.popBlocksTo P (headId P c) s = .ok u s' → s'.chain = c :=
  Consistent.popUntil hg _ s h hc

end Consistent

/-! ### Runs -/

theorem linked_genesis (g : Objects R) : (genesis g : Database Op R).forkDb.Linked P :=
  fun i hi => absurd hi (by simp [genesis])

/-- A run of calls of `push_block`, whether they return or throw. -/
def pushAll (P : Protocol Op R) (s : Database Op R) (bs : List (SignedBlock Op)) : Database Op R :=
  bs.foldl (fun s b => final (pushBlock P b) s) s

theorem consistent_pushAll (bs : List (SignedBlock Op)) {g : Objects R} {s : Database Op R}
    (hs : Consistent P g s) (hf : s.forkDb.Linked P) :
    Consistent P g (pushAll P s bs) ∧ (pushAll P s bs).forkDb.Linked P := by
  induction bs generalizing s with
  | nil => exact ⟨hs, hf⟩
  | cons b bs ih => exact ih (hs.pushBlock b) (linked_pushBlock b hf)

end Database

end FinChain.Chain
