import Mathlib.Algebra.BigOperators.Group.List.Basic
import Mathlib.Algebra.Order.BigOperators.Group.List
import Mathlib.Algebra.Order.Ring.Int
import Mathlib.Data.Int.ModEq
import Mathlib.Tactic.Linarith

/-!
# Commitments that add up

Commitments to values in a group of known order. A commitment hides a value and a blinding factor, both
up to the order of the group, and the sums of two lists of commitments can be compared without opening
them. So a comparison only ever says that two sums are congruent: a hidden value just below the order
stands for a negative one. Only when all values are known to be small is a comparison of sums what it
seems to be (`eq_of_verifySum`). A single value on one side is small exactly if the excess is covered
(`value_of_verifySum`).

What a range proof says about itself is not checked against a commitment by reading it.
-/

universe u v

/-- A scheme of commitments with range proofs. -/
structure CommitmentScheme (Commitment : Type u) (RangeProof : Type v) where
  /-- The order of the group. -/
  order : ℕ
  value : Commitment → ℕ
  factor : Commitment → ℕ
  /-- The commitment to a value, with a blinding factor. -/
  blind : (factor value : ℕ) → Commitment
  /-- The lowest and the highest value written in a range proof, if it can be read. -/
  rangeGetInfo : RangeProof → Option (ℕ × ℕ)
  large : 2 ^ 128 ≤ order
  value_lt : ∀ c, value c < order
  value_blind : ∀ f v, value (blind f v) = v % order
  factor_blind : ∀ f v, factor (blind f v) = f % order

namespace CommitmentScheme

variable {Commitment : Type u} {RangeProof : Type v} (E : CommitmentScheme Commitment RangeProof)

/-- The sum of the hidden values. -/
def sum (l : List Commitment) : ℕ := (l.map E.value).sum

/-- The commitments on the left add up to those on the right and an excess. -/
def verifySum (left right : List Commitment) (excess : ℤ) : Bool :=
  ((E.sum left : ℤ) - E.sum right - excess) % E.order = 0 ∧
    (((left.map E.factor).sum : ℤ) - (right.map E.factor).sum) % E.order = 0

variable {E}

@[simp] theorem sum_nil : E.sum [] = 0 := rfl

@[simp] theorem sum_cons (c : Commitment) (l : List Commitment) : E.sum (c :: l) = E.value c + E.sum l :=
  List.sum_cons

theorem sum_singleton (c : Commitment) : E.sum [c] = E.value c := by
  rw [sum_cons, sum_nil, Nat.add_zero]

/-- Values that are bounded have a bounded sum. -/
theorem sum_le {l : List Commitment} {bound : ℕ} (h : ∀ c ∈ l, E.value c ≤ bound) :
    E.sum l ≤ l.length * bound := by
  have hle := List.sum_le_card_nsmul (l.map E.value) bound fun v hv => by
    obtain ⟨c, hc, rfl⟩ := List.mem_map.mp hv
    exact h c hc
  rwa [List.length_map] at hle

/-- A value that is small is hidden as it is. -/
theorem value_blind_of_lt (f : ℕ) {v : ℕ} (hv : v < 2 ^ 128) : E.value (E.blind f v) = v := by
  rw [E.value_blind, Nat.mod_eq_of_lt (hv.trans_le E.large)]

/-- Sums that agree are congruent. -/
theorem modEq_of_verifySum {left right : List Commitment} {excess : ℤ}
    (h : E.verifySum left right excess = true) :
    (E.sum right + excess : ℤ) ≡ E.sum left [ZMOD E.order] := by
  obtain ⟨hsum, -⟩ := of_decide_eq_true h
  refine Int.modEq_iff_dvd.mpr ?_
  have hdvd := Int.dvd_of_emod_eq_zero hsum
  rwa [sub_sub] at hdvd

/-- Small sums that agree are equal. -/
theorem eq_of_verifySum {left right : List Commitment} {excess : ℕ}
    (h : E.verifySum left right excess = true) (hleft : E.sum left < 2 ^ 128)
    (hright : E.sum right + excess < 2 ^ 128) : E.sum right + excess = E.sum left := by
  have hmod := modEq_of_verifySum h
  have hnat : E.sum right + excess ≡ E.sum left [MOD E.order] := by
    refine Int.natCast_modEq_iff.mp ?_
    rw [Nat.cast_add]
    exact hmod
  exact Nat.ModEq.eq_of_lt_of_lt hnat (hright.trans_le E.large) (hleft.trans_le E.large)

/-- A single value on the right is what remains, or lies below zero by what is missing. -/
theorem value_of_verifySum {left : List Commitment} {c : Commitment} {excess : ℕ}
    (h : E.verifySum left [c] excess = true) (hleft : E.sum left < 2 ^ 127) (hexcess : excess < 2 ^ 127) :
    (excess ≤ E.sum left → E.value c + excess = E.sum left) ∧
      (E.sum left < excess → 2 ^ 127 < E.value c) := by
  have hmod := modEq_of_verifySum h
  rw [sum_singleton] at hmod
  have hlarge := E.large
  have hlt := E.value_lt c
  have hdvd := Int.modEq_iff_dvd.mp hmod
  obtain ⟨k, hk⟩ := hdvd
  constructor
  · intro hle
    have hzero : k = 0 := by
      by_contra hne
      rcases lt_or_gt_of_ne hne with hneg | hpos
      · have hmul : (E.order : ℤ) * k ≤ -E.order := by nlinarith
        omega
      · have hmul : (E.order : ℤ) ≤ E.order * k := by nlinarith
        omega
    rw [hzero, mul_zero] at hk
    omega
  · intro hshort
    have hneg : k < 0 := by
      by_contra hge
      have hmul : 0 ≤ (E.order : ℤ) * k := mul_nonneg (Int.natCast_nonneg _) (not_lt.mp hge)
      omega
    have hmul : (E.order : ℤ) * k ≤ -E.order := by nlinarith
    omega

/-- **When a comparison is exact**: a single value on the right must not lie below zero, and several of
them must be small. -/
theorem balanced_iff {left right : List Commitment} {excess bound : ℕ}
    (h : E.verifySum left right excess = true) (hleft : E.sum left ≤ bound) (hexcess : excess ≤ bound)
    (hsmall : (right.length + 1) * bound < 2 ^ 127) :
    (E.sum right + excess = E.sum left ∧ ∀ c ∈ right, E.value c ≤ bound) ↔
      (right.length = 1 → excess ≤ E.sum left) ∧ (1 < right.length → ∀ c ∈ right, E.value c ≤ bound) := by
  have hbound : bound < 2 ^ 127 := by
    refine lt_of_le_of_lt ?_ hsmall
    exact Nat.le_mul_of_pos_left bound (Nat.succ_pos _)
  constructor
  · rintro ⟨hsum, hvalues⟩
    exact ⟨fun _ => by omega, fun _ => hvalues⟩
  · rintro ⟨hsingle, hseveral⟩
    -- the values are small, so the sums are, and those that agree are equal
    have heq (hvalues : ∀ c ∈ right, E.value c ≤ bound) : E.sum right + excess = E.sum left := by
      have hright := sum_le hvalues
      rw [Nat.add_mul, Nat.one_mul] at hsmall
      exact eq_of_verifySum h (by omega) (by omega)
    have hvalues : ∀ c ∈ right, E.value c ≤ bound := by
      by_cases hmany : 1 < right.length
      · exact hseveral hmany
      · intro c hc
        have hpos := List.length_pos_of_mem hc
        obtain ⟨d, rfl⟩ := List.length_eq_one_iff.mp (show right.length = 1 by omega)
        obtain rfl := List.mem_singleton.mp hc
        have hvalue := (value_of_verifySum h (by omega) (by omega)).1 (hsingle rfl)
        omega
    exact ⟨heq hvalues, hvalues⟩

end CommitmentScheme
