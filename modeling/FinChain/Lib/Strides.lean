import Mathlib.Data.List.Basic
import Mathlib.Order.Nat

/-!
# Strides

A walk along the numbers that always goes up, and that stops before it would come beyond a bound. A walk all the way
can be put together from one that stops at a bound in between, and from what a second walk from the same start finds
beyond that bound (`Stride.walk_append_filter`).
-/

/-- Where a walk goes from each number. -/
structure Stride where
  next : ℕ → ℕ
  lt_next : ∀ k, k < next k

namespace Stride

variable (s : Stride) {high mid low k : ℕ}

/-- The numbers that a walk comes by from `low` on, up to `high` at most. -/
def walk (high low : ℕ) : List ℕ := if low ≤ high then low :: walk high (s.next low) else []
termination_by high + 1 - low
decreasing_by
  have hlt := s.lt_next low
  omega

theorem walk_of_le (h : low ≤ high) : s.walk high low = low :: s.walk high (s.next low) := by
  rw [walk, if_pos h]

theorem walk_of_lt (h : high < low) : s.walk high low = [] := by
  rw [walk, if_neg (Nat.not_le.mpr h)]

theorem walk_induction {motive : ℕ → Prop} (high : ℕ) (beyond : ∀ low, high < low → motive low)
    (step : ∀ low, low ≤ high → motive (s.next low) → motive low) (low : ℕ) : motive low := by
  induction low using walk.induct s high with
  | case1 low hle ih => exact step low hle ih
  | case2 low hlt => exact beyond low (Nat.not_le.mp hlt)

theorem bounds_of_mem_walk (h : k ∈ s.walk high low) : low ≤ k ∧ k ≤ high := by
  induction low using s.walk_induction high with
  | beyond low hlt =>
    rw [s.walk_of_lt hlt] at h
    exact absurd h List.not_mem_nil
  | step low hle ih =>
    rw [s.walk_of_le hle] at h
    rcases List.mem_cons.mp h with rfl | h
    · exact ⟨Nat.le_refl k, hle⟩
    · exact ⟨(s.lt_next low).le.trans (ih h).1, (ih h).2⟩

theorem pairwise_walk (high low : ℕ) : (s.walk high low).Pairwise (· < ·) := by
  induction low using s.walk_induction high with
  | beyond low hlt =>
    rw [s.walk_of_lt hlt]
    exact .nil
  | step low hle ih =>
    rw [s.walk_of_le hle]
    exact .cons (fun k hk => (s.lt_next low).trans_le (s.bounds_of_mem_walk hk).1) ih

theorem head?_walk (h : low ≤ high) : (s.walk high low).head? = some low := by
  rw [s.walk_of_le h]
  rfl

/-- A walk that does not step over its bound ends there. -/
theorem getLast?_walk (hreach : ∀ k < high, s.next k ≤ high) (h : low ≤ high) :
    (s.walk high low).getLast? = some high := by
  induction low using s.walk_induction high with
  | beyond low hlt => exact absurd h (Nat.not_le.mpr hlt)
  | step low hle ih =>
    rw [s.walk_of_le hle]
    rcases hle.lt_or_eq with hlt | rfl
    · have hnext := hreach low hlt
      have hne : s.walk high (s.next low) ≠ [] := by
        rw [s.walk_of_le hnext]
        exact List.cons_ne_nil _ _
      rw [List.getLast?_cons_of_ne_nil hne]
      exact ih hnext
    · rw [s.walk_of_lt (s.lt_next low)]
      rfl

/-- **Two walks join.** -/
theorem walk_append_filter (h : mid ≤ high) (low : ℕ) :
    s.walk mid low ++ (s.walk high low).filter (mid < ·) = s.walk high low := by
  induction low using s.walk_induction mid with
  | beyond low hlt =>
    -- the second walk starts beyond the bound
    rw [s.walk_of_lt hlt, List.nil_append]
    refine List.filter_eq_self.mpr fun k hk => decide_eq_true ?_
    exact hlt.trans_le (s.bounds_of_mem_walk hk).1
  | step low hle ih =>
    rw [s.walk_of_le hle, s.walk_of_le (hle.trans h), List.filter_cons_of_neg (by simpa using hle),
      List.cons_append, ih]

end Stride
