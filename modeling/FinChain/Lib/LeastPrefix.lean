import Mathlib.Algebra.Order.Ring.Nat

/-!
# The least prefix that exceeds a target

A loop adds the terms `f 1`, `f 2`, … of a sequence until their sum exceeds a target, or a bound is reached.
Below the bound, it has stopped at `c` or before if and only if the sum of the first `c` terms exceeds the
target (`leastPrefix_le_iff`), which is all that is needed to compare two such loops, or one of them with a
description of what it looks for.
-/

/-- The sum of the terms `f 1` to `f c`. -/
def prefixSum (f : ℕ → ℕ) : ℕ → ℕ
  | 0 => 0
  | c + 1 => prefixSum f c + f (c + 1)

/-- The loop, with at most `rest` terms left. -/
def leastPrefix (f : ℕ → ℕ) (target : ℕ) : ℕ → ℕ → ℕ → ℕ
  | 0, count, _ => count
  | rest + 1, count, sum =>
    if sum ≤ target then leastPrefix f target rest (count + 1) (sum + f (count + 1)) else count

variable {f : ℕ → ℕ} {target rest count c : ℕ}

theorem prefixSum_mono {m n : ℕ} (h : m ≤ n) : prefixSum f m ≤ prefixSum f n := by
  induction h with
  | refl => exact le_rfl
  | step _ ih => exact ih.trans (Nat.le_add_right _ _)

theorem leastPrefix_le (sum : ℕ) : leastPrefix f target rest count sum ≤ count + rest := by
  induction rest generalizing count sum with
  | zero => exact le_rfl
  | succ rest ih =>
    unfold leastPrefix
    split
    · exact (ih _).trans (by omega)
    · omega

theorem le_leastPrefix (sum : ℕ) : count ≤ leastPrefix f target rest count sum := by
  induction rest generalizing count sum with
  | zero => exact le_rfl
  | succ rest ih =>
    unfold leastPrefix
    split
    · exact (Nat.le_succ count).trans (ih _)
    · exact le_rfl

/-- **Where the loop stops**, before its bound. -/
theorem leastPrefix_le_iff (hcount : count ≤ c) (hc : c < count + rest) :
    leastPrefix f target rest count (prefixSum f count) ≤ c ↔ target < prefixSum f c := by
  induction rest generalizing count with
  | zero => omega
  | succ rest ih =>
    unfold leastPrefix
    split
    · next hle =>
      -- it goes on
      have hnext : prefixSum f count + f (count + 1) = prefixSum f (count + 1) := rfl
      rw [hnext]
      by_cases heq : c = count
      · have hlate : count + 1 ≤ leastPrefix f target rest (count + 1) (prefixSum f (count + 1)) :=
          le_leastPrefix _
        rw [heq]
        exact iff_of_false (by omega) (not_lt.mpr hle)
      · exact ih (by omega) (by omega)
    · next hlt =>
      exact iff_of_true hcount ((not_le.mp hlt).trans_le (prefixSum_mono hcount))

/-- Two numbers that are rounded to odd sizes, raised to a minimum and cut to a maximum, give the same size
if and only if no size on the way from one to the other matters. -/
theorem clip_eq_iff {c₁ c₂ bound least most : ℕ} (h₁ : c₁ ≤ bound) (h₂ : c₂ ≤ bound) :
    min (max (c₁ * 2 + 1) least) most = min (max (c₂ * 2 + 1) least) most ↔
      ∀ c < bound, least < c * 2 + 3 → max (c * 2 + 1) least < most → (c₁ ≤ c ↔ c₂ ≤ c) := by
  constructor
  · intro heq c _ hleast hmost
    constructor
    · intro hle
      by_contra hlt
      omega
    · intro hle
      by_contra hlt
      omega
  · intro hall
    by_contra hne
    rcases lt_trichotomy c₁ c₂ with hlt | heq | hlt
    · -- the first size above the minimum that matters
      have h := hall (max c₁ ((least - 1) / 2)) (by omega) (by omega) (by omega)
      omega
    · exact hne (by rw [heq])
    · have h := hall (max c₂ ((least - 1) / 2)) (by omega) (by omega) (by omega)
      omega
