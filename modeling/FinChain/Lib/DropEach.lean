import Mathlib.Data.Finset.Basic

/-!
# Dropping elements one by one

A set that is enough for something is made smaller: each element is tried once, and dropped if the others are
still enough. If more elements are always at least as good, then one round of this is enough: the set that is left
is enough (`enough_dropEach`), and it would not be without any of its elements (`dropEach_minimal`). What is
tried too early to be dropped is not tried again, and need not be.
-/

namespace DropEach

variable {α : Type} [DecidableEq α]

/-- Each of some elements is dropped if the others are enough. -/
def dropEach (enough : Finset α → Bool) : List α → Finset α → Finset α
  | [], s => s
  | a :: l, s => if enough (s.erase a) then dropEach enough l (s.erase a) else dropEach enough l s

variable {enough : Finset α → Bool}

theorem dropEach_subset : ∀ (l : List α) (s : Finset α), dropEach enough l s ⊆ s
  | [], s => Finset.Subset.refl s
  | a :: l, s => by
    unfold dropEach
    split
    · exact (dropEach_subset l (s.erase a)).trans (Finset.erase_subset a s)
    · exact dropEach_subset l s

theorem enough_dropEach : ∀ (l : List α) {s : Finset α}, enough s = true →
    enough (dropEach enough l s) = true
  | [], _, h => h
  | a :: l, s, h => by
    unfold dropEach
    split
    · next hdropped => exact enough_dropEach l hdropped
    · exact enough_dropEach l h

/-- **What is left is minimal**, if more is better. An element that is left was needed when it was tried; what is
left in the end is less than what was left then. -/
theorem dropEach_minimal : ∀ {l : List α} {s : Finset α},
    (∀ t t' : Finset α, t ⊆ t' → t' ⊆ s → enough t = true → enough t' = true) →
      ∀ a ∈ l, a ∈ dropEach enough l s → enough ((dropEach enough l s).erase a) = false
  | b :: l, s, hmono, a, ha, hleft => by
    unfold dropEach at hleft ⊢
    split
    · next hdropped =>
      rw [if_pos hdropped] at hleft
      have hne : a ≠ b := (Finset.mem_erase.mp (dropEach_subset l _ hleft)).1
      have ha' : a ∈ l := (List.mem_cons.mp ha).resolve_left hne
      exact dropEach_minimal (fun t t' htt' ht' => hmono t t' htt' (ht'.trans (Finset.erase_subset b s)))
        a ha' hleft
    · next hneeded =>
      rw [if_neg hneeded] at hleft
      rcases List.mem_cons.mp ha with rfl | ha'
      · -- less than what was left without it when it was tried
        have hless : (dropEach enough l s).erase a ⊆ s.erase a :=
          Finset.erase_subset_erase a (dropEach_subset l s)
        refine Bool.eq_false_iff.mpr fun henough => hneeded ?_
        exact hmono _ _ hless (Finset.erase_subset a s) henough
      · exact dropEach_minimal hmono a ha' hleft

end DropEach
