import Mathlib.Data.List.Sort

/-!
# Partial sorting

`std::partial_sort` moves the first elements of a sequence, in some strict order, to its front and sorts them,
and leaves the others in any order. `PartiallySorted` is what its documentation promises. Where the order is total on
the elements, and no element occurs twice, this determines the front: it consists of the elements that fewer than
`k` others are ahead of (`mem_take_iff`), so it does not depend on where the elements were before
(`take_eq`).
-/

/-- `l'` is a result of moving the first `k` elements of `l` to the front in the order `lt`. -/
structure PartiallySorted {α : Type} (lt : α → α → Prop) (k : ℕ) (l l' : List α) : Prop where
  perm : l'.Perm l
  sorted : (l'.take k).Pairwise fun a b => ¬ lt b a
  ahead : ∀ a ∈ l'.take k, ∀ b ∈ l'.drop k, ¬ lt b a

/-- Any two elements of a list are in a strict order. -/
def StrictlyOrdered {α : Type} (lt : α → α → Prop) (l : List α) : Prop :=
  ∀ a ∈ l, ∀ b ∈ l, a ≠ b → lt a b ∨ lt b a

namespace PartiallySorted

variable {α : Type} {lt : α → α → Prop} {k : ℕ} {l l' : List α}

/-- A list that is sorted as a whole is sorted in part. -/
theorem of_pairwise (hperm : l'.Perm l) (hsorted : l'.Pairwise fun a b => ¬ lt b a) :
    PartiallySorted lt k l l' where
  perm := hperm
  sorted := hsorted.sublist (List.take_sublist k l')
  ahead := by
    rw [← List.take_append_drop k l', List.pairwise_append] at hsorted
    exact hsorted.2.2

variable (h : PartiallySorted lt k l l') (hnodup : l.Nodup) (hordered : StrictlyOrdered lt l)

include h hnodup hordered in
/-- The front is in strict order. -/
theorem pairwise_take : (l'.take k).Pairwise lt := by
  have hdistinct : (l'.take k).Nodup := (h.perm.nodup_iff.mpr hnodup).sublist (List.take_sublist k l')
  refine (h.sorted.and hdistinct).imp_of_mem fun ha hb hab => ?_
  have hmem : ∀ {c}, c ∈ l'.take k → c ∈ l := fun hc => h.perm.mem_iff.mp (List.mem_of_mem_take hc)
  exact (hordered _ (hmem ha) _ (hmem hb) hab.2).resolve_right hab.1

include h hordered in
/-- What is not in the front is behind all of it. -/
theorem lt_of_not_mem_take {a b : α} (ha : a ∈ l'.take k) (hb : b ∈ l) (hnot : b ∉ l'.take k) : lt a b := by
  have hdrop : b ∈ l'.drop k := by
    have hmem : b ∈ l'.take k ++ l'.drop k := by
      rw [List.take_append_drop]
      exact h.perm.mem_iff.mpr hb
    exact (List.mem_append.mp hmem).resolve_left hnot
  have hne : a ≠ b := fun heq => hnot (heq ▸ ha)
  exact (hordered a (h.perm.mem_iff.mp (List.mem_of_mem_take ha)) b hb hne).resolve_right (h.ahead a ha b hdrop)

include h hordered in
/-- **What is in the front**: the elements that fewer than `k` others are ahead of. -/
theorem mem_take_iff [DecidableRel lt] [Std.Asymm lt] (hk : k ≤ l.length) {a : α} (ha : a ∈ l) :
    a ∈ l'.take k ↔ l.countP (fun b => lt b a) < k := by
  have hlength : (l'.take k).length = k := by
    rw [List.length_take, h.perm.length_eq]
    exact min_eq_left hk
  have hcount : l.countP (fun b => lt b a) =
      (l'.take k).countP (fun b => lt b a) + (l'.drop k).countP (fun b => lt b a) := by
    rw [← h.perm.countP_eq, ← List.countP_append, List.take_append_drop]
  constructor
  · intro hmem
    -- nothing behind the front is ahead of it, and the element is not ahead of itself
    have hdrop : (l'.drop k).countP (fun b => lt b a) = 0 := by
      rw [List.countP_eq_zero]
      intro b hb
      simpa using h.ahead a hmem b hb
    have htake : (l'.take k).countP (fun b => lt b a) < (l'.take k).length := by
      refine lt_of_le_of_ne List.countP_le_length fun heq => ?_
      have hself := List.countP_eq_length.mp heq a hmem
      have hlt : lt a a := by simpa using hself
      exact Std.Asymm.asymm a a hlt hlt
    omega
  · intro hlt
    by_contra hnot
    have hall : (l'.take k).countP (fun b => lt b a) = (l'.take k).length := by
      rw [List.countP_eq_length]
      intro b hb
      simpa using h.lt_of_not_mem_take hordered hb ha hnot
    omega

include h hnodup hordered in
/-- **The front does not depend on the order before.** -/
theorem take_eq [Std.Asymm lt] {m m' : List α} (hm : PartiallySorted lt k m m') (hperm : m.Perm l)
    (hk : k ≤ l.length) : m'.take k = l'.take k := by
  classical
  have hnodup' : m.Nodup := hperm.nodup_iff.mpr hnodup
  have hordered' : StrictlyOrdered lt m := fun a ha b hb =>
    hordered a (hperm.mem_iff.mp ha) b (hperm.mem_iff.mp hb)
  refine (hm.pairwise_take hnodup' hordered').eq_of_mem_iff (h.pairwise_take hnodup hordered) fun {a} => ?_
  have hmem : ∀ {n n' : List α}, PartiallySorted lt k n n' → a ∈ n'.take k → a ∈ n :=
    fun hn ha => hn.perm.mem_iff.mp (List.mem_of_mem_take ha)
  constructor
  · intro ha
    have hal := hperm.mem_iff.mp (hmem hm ha)
    rw [h.mem_take_iff hordered hk hal, ← hperm.countP_eq]
    exact (hm.mem_take_iff hordered' (hk.trans hperm.length_eq.ge) (hmem hm ha)).mp ha
  · intro ha
    have ham := hperm.mem_iff.mpr (hmem h ha)
    rw [hm.mem_take_iff hordered' (hk.trans hperm.length_eq.ge) ham, hperm.countP_eq]
    exact (h.mem_take_iff hordered hk (hmem h ha)).mp ha

end PartiallySorted
