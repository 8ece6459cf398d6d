import Mathlib.Data.List.Sort

/-!
# The first of a sorted list

What is said about the first element of a list that has just been sorted: it is before all others; and
where an element that is due is never behind one that is not, it tells whether any element is due.
-/

namespace List

variable {α : Type} {r : α → α → Prop} [DecidableRel r] {l : List α}

/-- The first element of a sorted list is before all others, if any two can be compared. -/
theorem head?_insertionSort {x : α} (htotal : ∀ a ∈ l, ∀ b ∈ l, r a b ∨ r b a)
    (htrans : ∀ a ∈ l, ∀ b ∈ l, ∀ c ∈ l, r a b → r b c → r a c)
    (hx : (l.insertionSort r).head? = some x) : x ∈ l ∧ ∀ y ∈ l, r x y := by
  induction l generalizing x with
  | nil => cases hx
  | cons a l ih =>
    have hself : ∀ b ∈ a :: l, r b b := fun b hb => (htotal b hb b hb).elim id id
    have ih' : ∀ {y}, (l.insertionSort r).head? = some y → y ∈ l ∧ ∀ z ∈ l, r y z := fun hy =>
      ih (fun b hb c hc => htotal b (.tail a hb) c (.tail a hc))
        (fun b hb c hc d hd => htrans b (.tail a hb) c (.tail a hc) d (.tail a hd)) hy
    rw [insertionSort_cons] at hx
    cases hsort : l.insertionSort r with
    | nil =>
      -- nothing else is in the list
      have hnil : l = [] := by
        have hlength := length_insertionSort r l
        rw [hsort] at hlength
        exact length_eq_zero_iff.mp hlength.symm
      rw [hsort] at hx
      cases hx
      refine ⟨mem_cons_self, ?_⟩
      intro y hy
      rw [hnil, mem_singleton] at hy
      rw [hy]
      exact hself a mem_cons_self
    | cons b bs =>
      obtain ⟨hb, hfirst⟩ := ih' (y := b) (by rw [hsort]; rfl)
      rw [hsort, orderedInsert_cons] at hx
      split at hx
      · next hab =>
        cases hx
        refine ⟨mem_cons_self, ?_⟩
        intro y hy
        rcases mem_cons.mp hy with rfl | hy
        · exact hself y mem_cons_self
        · exact htrans a mem_cons_self b (.tail a hb) y (.tail a hy) hab (hfirst y hy)
      · next hab =>
        have hbx : b = x := Option.some.inj hx
        have hba : r b a := (htotal a mem_cons_self b (.tail a hb)).resolve_left hab
        rw [← hbx]
        refine ⟨.tail a hb, ?_⟩
        intro y hy
        rcases mem_cons.mp hy with rfl | hy
        · exact hba
        · exact hfirst y hy

/-! ### The first one that is due -/

section Due

variable {due : α → Bool} {x : α}

theorem head?_filter_insertionSort_eq_some (h : (l.insertionSort r).head?.filter due = some x) :
    x ∈ l ∧ due x = true := by
  rw [Option.filter_eq_some_iff] at h
  obtain ⟨hhead, hdue⟩ := h
  have hmem := mem_of_mem_head? (Option.mem_def.mpr hhead)
  rw [mem_insertionSort] at hmem
  exact ⟨hmem, hdue⟩

/-- When the first one is not due, none is. -/
theorem head?_filter_insertionSort_eq_none [Std.Total r] [IsTrans α r]
    (hdue : ∀ a b, r a b → due b = true → due a = true)
    (h : (l.insertionSort r).head?.filter due = none) (hx : x ∈ l) : due x = false := by
  cases hfirst : (l.insertionSort r).head? with
  | none =>
    have hnil := head?_eq_none_iff.mp hfirst
    have hlength := length_insertionSort r l
    rw [hnil] at hlength
    rw [length_eq_zero_iff.mp hlength.symm] at hx
    cases hx
  | some first =>
    rw [hfirst, Option.filter_eq_none_iff] at h
    obtain ⟨-, hbefore⟩ := head?_insertionSort (fun a _ b _ => Std.Total.total a b)
      (fun a _ b _ c _ => IsTrans.trans a b c) hfirst
    refine Bool.eq_false_iff.mpr fun htrue => ?_
    exact h first rfl (hdue first x (hbefore x hx) htrue)

end Due

/-! ### Sorting by a key -/

/-- A list is sorted by a key if the order is that of the keys. -/
theorem pairwise_insertionSort_key {α β : Type} [LinearOrder β] {r : α → α → Prop}
    [DecidableRel r] {l : List α} (f : α → β) (h : ∀ a ∈ l, ∀ b ∈ l, (r a b ↔ f a ≤ f b)) :
    (l.insertionSort r).Pairwise fun a b => f a ≤ f b := by
  refine List.pairwise_map.mp ?_
  rw [List.map_insertionSort r (· ≤ ·) f l h]
  exact List.pairwise_insertionSort (· ≤ ·) _

/-! ### Where a condition stops -/

/-- In a sorted list, a condition that does not come back once it has failed holds of a first part. -/
theorem takeWhile_eq_filter_of_pairwise {α : Type} {r : α → α → Prop} {p : α → Bool} {l : List α}
    (hl : l.Pairwise r) (hp : ∀ a ∈ l, ∀ b ∈ l, r a b → p b = true → p a = true) :
    l.takeWhile p = l.filter p ∧ l.dropWhile p = l.filter fun a => !p a := by
  induction l with
  | nil => exact ⟨rfl, rfl⟩
  | cons a l ih =>
    obtain ⟨hfirst, hrest⟩ := pairwise_cons.mp hl
    by_cases ha : p a = true
    · obtain ⟨htake, hdrop⟩ := ih hrest fun b hb c hc => hp b (.tail a hb) c (.tail a hc)
      rw [takeWhile_cons_of_pos ha, dropWhile_cons_of_pos ha, filter_cons_of_pos ha,
        filter_cons_of_neg (by rw [ha]; decide), htake, hdrop]
      exact ⟨rfl, rfl⟩
    · -- what comes behind does not satisfy the condition either
      have hnone : ∀ b ∈ a :: l, ¬ p b = true := by
        intro b hb hpb
        rcases mem_cons.mp hb with rfl | hb
        · exact ha hpb
        · exact ha (hp a mem_cons_self b (.tail a hb) (hfirst b hb) hpb)
      rw [takeWhile_cons_of_neg ha, dropWhile_cons_of_neg ha]
      refine ⟨(filter_eq_nil_iff.mpr hnone).symm, (filter_eq_self.mpr fun b hb => ?_).symm⟩
      rw [Bool.eq_false_iff.mpr (hnone b hb)]
      rfl

end List

/-! ### Sets in order -/

namespace FinChain

/-- What sorting a set asks of its order, by name: a definition that sorts one then holds no proof. -/
theorem isTrans_le {κ : Type} [LinearOrder κ] : IsTrans κ fun a b => a ≤ b := inferInstance

theorem antisymm_le {κ : Type} [LinearOrder κ] : Std.Antisymm fun a b : κ => a ≤ b := inferInstance

end FinChain
