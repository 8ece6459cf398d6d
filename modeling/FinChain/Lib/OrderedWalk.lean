import FinChain.Lib.SortedLists
import FinChain.Lib.Table
import Mathlib.Data.List.TakeWhile

/-!
# Walking along an ordered index

A table whose keys are ordered can be walked along, from the first key that is not less than a given one
(`lower_bound`) as long as a condition holds. Where the condition does not come back once it has failed, such a walk
finds all keys with the condition, from the given one on (`mem_takeWhile_keysFrom`).
-/

namespace Table

variable {κ α : Type} [LinearOrder κ] {t : Table κ α} {k lo : κ}

/-- The keys in their order, from `lower_bound( lo )` on. -/
def keysFrom (t : Table κ α) (lo : κ) : List κ := (t.keys.insertionSort (· ≤ ·)).dropWhile (· < lo)

/-- Remove the records of some keys, one after the other. -/
def eraseAll (t : Table κ α) (keys : List κ) : Table κ α := keys.foldl (fun t k => t.erase k) t

theorem pairwise_keysFrom (t : Table κ α) (lo : κ) : (t.keysFrom lo).Pairwise (· ≤ ·) :=
  (List.pairwise_insertionSort _ _).sublist (List.dropWhile_sublist _)

theorem mem_keysFrom : k ∈ t.keysFrom lo ↔ k ∈ t ∧ lo ≤ k := by
  have hsort : k ∈ t.keys.insertionSort (· ≤ ·) ↔ k ∈ t := List.mem_insertionSort _
  have hsorted := List.pairwise_insertionSort (· ≤ ·) t.keys
  rw [← hsort, keysFrom]
  generalize t.keys.insertionSort (· ≤ ·) = l at hsorted
  induction l with
  | nil => simp
  | cons a l ih =>
    obtain ⟨hfirst, hrest⟩ := List.pairwise_cons.mp hsorted
    by_cases ha : a < lo
    · rw [List.dropWhile_cons_of_pos (by simpa using ha), List.mem_cons]
      refine (ih hrest).trans ⟨fun h => ⟨.inr h.1, h.2⟩, ?_⟩
      rintro ⟨rfl | hmem, hle⟩
      · exact absurd hle (not_le.mpr ha)
      · exact ⟨hmem, hle⟩
    · rw [List.dropWhile_cons_of_neg (by simpa using ha)]
      refine ⟨fun h => ⟨h, ?_⟩, And.left⟩
      rcases List.mem_cons.mp h with rfl | hmem
      · exact not_lt.mp ha
      · exact (not_lt.mp ha).trans (hfirst k hmem)

/-- **A walk** from a key, as long as a condition holds that does not come back. -/
theorem mem_takeWhile_keysFrom {p : κ → Bool} (hp : ∀ a b, lo ≤ a → a ≤ b → p b = true → p a = true) :
    k ∈ (t.keysFrom lo).takeWhile p ↔ k ∈ t ∧ lo ≤ k ∧ p k = true := by
  have hwalk := (List.takeWhile_eq_filter_of_pairwise (p := p) (pairwise_keysFrom t lo) fun a ha b _ hle =>
    hp a b (mem_keysFrom.mp ha).2 hle).1
  rw [hwalk, List.mem_filter, mem_keysFrom, and_assoc]

theorem lookup_eraseAll (keys : List κ) (t : Table κ α) (k : κ) :
    (t.eraseAll keys).lookup k = if k ∈ keys then none else t.lookup k := by
  induction keys generalizing t with
  | nil => exact (if_neg List.not_mem_nil).symm
  | cons a keys ih =>
    show (Table.eraseAll (t.erase a) keys).lookup k = _
    rw [ih]
    by_cases hmem : k ∈ keys
    · rw [if_pos hmem, if_pos (.tail a hmem)]
    rw [if_neg hmem]
    by_cases hk : k = a
    · subst hk
      rw [if_pos List.mem_cons_self, AList.lookup_erase]
    · rw [AList.lookup_erase_ne hk, if_neg fun h => (List.mem_cons.mp h).elim hk hmem]

end Table
