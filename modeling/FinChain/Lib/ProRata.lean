import Mathlib.Algebra.Order.Ring.Int
import Mathlib.Tactic.Linarith
import Mathlib.Tactic.Ring

/-!
# Shares of a fund

A fund of `F` is shared out among claims of `S` at first: a claim of `a` is paid `a * F / S`, rounded
down, and leaves. However the claims are split up and in whatever order they come, the fund covers
those that are left (`ProRata.payment_le`), and what is left over at the end is less than the number
of payments (`ProRata.remainder_lt`).

The invariant compares the fund with the claims at the fixed price, without a division: the fund is
ahead of the claims by the roundings, and a rounding is at most `S - 1`.
-/

/-- What `fund` and `claims` are after `n` payments. -/
structure ProRata (S F : ℤ) (n : ℕ) (fund claims : ℤ) : Prop where
  fund_nonneg : 0 ≤ fund
  covered : claims * F ≤ fund * S
  ahead : fund * S - claims * F ≤ n * (S - 1)
  first : n = 0 → claims = S

namespace ProRata

variable {S F fund claims a : ℤ} {n : ℕ}

theorem start (hF : 0 ≤ F) : ProRata S F 0 F S where
  fund_nonneg := hF
  covered := by rw [mul_comm]
  ahead := by
    rw [mul_comm F S, sub_self, Nat.cast_zero, zero_mul]
  first _ := rfl

/-- A claim of no more than what is left can be paid. -/
theorem payment_le (h : ProRata S F n fund claims) (hS : 0 < S) (hF : 0 ≤ F) (ha : a ≤ claims) :
    a * F / S ≤ fund := by
  refine Int.le_of_mul_le_mul_right ?_ hS
  calc a * F / S * S ≤ a * F := Int.ediv_mul_le _ hS.ne'
    _ ≤ claims * F := mul_le_mul_of_nonneg_right ha hF
    _ ≤ fund * S := h.covered

theorem pay (h : ProRata S F n fund claims) (hS : 0 < S) (hpaid : a * F / S ≤ fund) :
    ProRata S F (n + 1) (fund - a * F / S) (claims - a) := by
  have hdown : a * F / S * S ≤ a * F := Int.ediv_mul_le _ hS.ne'
  have hup : a * F < (a * F / S + 1) * S := Int.lt_ediv_add_one_mul_self _ hS
  refine ⟨sub_nonneg.mpr hpaid, ?_, ?_, fun hn => absurd hn (Nat.succ_ne_zero n)⟩
  · have hcovered := h.covered
    linarith [sub_mul claims a F, sub_mul fund (a * F / S) S]
  · have hahead := h.ahead
    push_cast
    linarith [sub_mul claims a F, sub_mul fund (a * F / S) S, add_mul (a * F / S) 1 S,
      add_mul (n : ℤ) 1 (S - 1)]

/-- When no claims are left, less than the number of payments is left over. -/
theorem remainder_lt (h : ProRata S F n fund claims) (hS : 0 < S) (hzero : claims = 0) :
    fund < n := by
  have hn : n ≠ 0 := by
    intro hn
    rw [h.first hn] at hzero
    exact hS.ne' hzero
  have hahead := h.ahead
  rw [hzero, zero_mul, sub_zero] at hahead
  have hpos : (0 : ℤ) < n := by
    exact_mod_cast Nat.pos_of_ne_zero hn
  have hlt : fund * S < n * S := by
    linarith [mul_sub (n : ℤ) S 1]
  exact lt_of_mul_lt_mul_right hlt hS.le

end ProRata
