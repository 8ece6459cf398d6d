import Mathlib.Data.Char
import Mathlib.Data.Nat.Digits.Lemmas
import Mathlib.Tactic.Ring

/-!
# Decimal notation

`value` reads a list of digits, and `digits` writes a number without leading zeros. Text that is written is read
again (`value_digits`), and it has a first digit that is not zero and that counts with the power of ten of the digits behind
it (`digits_eq_cons`). All else follows from how values add up (`value_append`) and from how large the value
of some digits can be (`value_lt`).
-/

namespace Decimal

/-- The number that a digit stands for. -/
def digitValue (c : Char) : ℕ := c.toNat - '0'.toNat

/-- The number that is written in decimal notation, with any number of leading zeros. -/
def value (l : List Char) : ℕ := l.foldl (fun n c => 10 * n + digitValue c) 0

/-- A number in decimal notation, without leading zeros. -/
def digits (n : ℕ) : List Char := if n = 0 then ['0'] else (Nat.digits 10 n).reverse.map Nat.digitChar

/-- A text of digits only. -/
def AllDigits (l : List Char) : Prop := ∀ c ∈ l, c.isDigit = true

theorem AllDigits.append {l l' : List Char} (h : AllDigits l) (h' : AllDigits l') : AllDigits (l ++ l') := fun c hc =>
  (List.mem_append.mp hc).elim (h c) (h' c)

theorem AllDigits.of_cons {c : Char} {l : List Char} (h : AllDigits (c :: l)) : c.isDigit = true ∧ AllDigits l :=
  ⟨h c List.mem_cons_self, fun c hc => h c (List.mem_cons_of_mem _ hc)⟩

theorem allDigits_replicate (n : ℕ) : AllDigits (List.replicate n '0') := fun c hc => by
  rw [List.eq_of_mem_replicate hc]
  rfl

theorem digitValue_lt {c : Char} (h : c.isDigit = true) : digitValue c < 10 := by
  have hle : c.toNat ≤ '9'.toNat := by
    simp only [Char.isDigit, Bool.and_eq_true, decide_eq_true_eq] at h
    exact h.2
  have h9 : '9'.toNat = 57 := rfl
  have h0 : '0'.toNat = 48 := rfl
  rw [digitValue, h0]
  omega

/-! ### Values -/

theorem foldl_eq (l : List Char) (n : ℕ) :
    l.foldl (fun n c => 10 * n + digitValue c) n = n * 10 ^ l.length + value l := by
  induction l generalizing n with
  | nil => simp [value]
  | cons c l ih =>
    rw [value, List.foldl_cons, List.foldl_cons, ih, ih (10 * 0 + digitValue c), List.length_cons]
    ring

theorem value_nil : value [] = 0 := rfl

theorem value_cons (c : Char) (l : List Char) : value (c :: l) = digitValue c * 10 ^ l.length + value l := by
  rw [value, List.foldl_cons, foldl_eq, Nat.mul_zero, Nat.zero_add]

/-- The digits in front count with the power of ten of the digits behind them. -/
theorem value_append (l l' : List Char) : value (l ++ l') = value l * 10 ^ l'.length + value l' := by
  rw [value, List.foldl_append, foldl_eq]
  rfl

theorem value_replicate (n : ℕ) : value (List.replicate n '0') = 0 := by
  induction n with
  | zero => rfl
  | succ n ih =>
    rw [List.replicate_succ, value_cons, ih, show digitValue '0' = 0 from rfl, Nat.zero_mul]

theorem value_lt {l : List Char} (h : AllDigits l) : value l < 10 ^ l.length := by
  induction l with
  | nil => exact Nat.one_pos
  | cons c l ih =>
    obtain ⟨hc, hl⟩ := h.of_cons
    rw [value_cons, List.length_cons, pow_succ]
    calc digitValue c * 10 ^ l.length + value l
        < digitValue c * 10 ^ l.length + 10 ^ l.length := Nat.add_lt_add_left (ih hl) _
      _ = (digitValue c + 1) * 10 ^ l.length := by ring
      _ ≤ 10 * 10 ^ l.length := Nat.mul_le_mul_right _ (digitValue_lt hc)
      _ = 10 ^ l.length * 10 := Nat.mul_comm _ _

/-! ### Writing -/

theorem digitValue_digitChar {d : ℕ} (h : d < 10) : digitValue (Nat.digitChar d) = d := by
  interval_cases d <;> rfl

theorem isDigit_digitChar {d : ℕ} (h : d < 10) : (Nat.digitChar d).isDigit = true := by
  interval_cases d <;> rfl

theorem digits_ne_nil (n : ℕ) : digits n ≠ [] := by
  rw [digits]
  split
  · simp
  · simpa [Nat.digits_ne_nil_iff_ne_zero]

theorem allDigits_digits (n : ℕ) : AllDigits (digits n) := by
  intro c hc
  rw [digits] at hc
  split at hc
  · rw [List.mem_singleton.mp hc]
    rfl
  · obtain ⟨d, hd, rfl⟩ := List.mem_map.mp hc
    exact isDigit_digitChar (Nat.digits_lt_base (by decide) (List.mem_reverse.mp hd))

theorem value_reverse_map {ds : List ℕ} (h : ∀ d ∈ ds, d < 10) :
    value (ds.reverse.map Nat.digitChar) = Nat.ofDigits 10 ds := by
  induction ds with
  | nil => rfl
  | cons d ds ih =>
    have hds : ∀ d ∈ ds, d < 10 := fun d hd => h d (List.mem_cons_of_mem _ hd)
    have hd : digitValue (Nat.digitChar d) = d := digitValue_digitChar (h d List.mem_cons_self)
    rw [List.reverse_cons, List.map_append, value_append, ih hds, Nat.ofDigits_cons, List.map_singleton, value_cons,
      value_nil, hd]
    simp [Nat.mul_comm, Nat.add_comm]

/-- A number that is written is read again. -/
theorem value_digits (n : ℕ) : value (digits n) = n := by
  rw [digits]
  split
  · rename_i h
    rw [h]
    rfl
  · rw [value_reverse_map fun d hd => Nat.digits_lt_base (by decide) hd, Nat.ofDigits_digits]

/-- The first digit of a number is not zero. -/
theorem digits_eq_cons {n : ℕ} (hn : 0 < n) : ∃ c l, digits n = c :: l ∧ AllDigits l ∧ 0 < digitValue c ∧
    digitValue c < 10 ∧ n = digitValue c * 10 ^ l.length + value l := by
  have hne : n ≠ 0 := Nat.ne_of_gt hn
  have hds : Nat.digits 10 n ≠ [] := Nat.digits_ne_nil_iff_ne_zero.mpr hne
  -- the first digit in writing is the last one of the list, which has the lowest digit first
  have hlast : (Nat.digits 10 n).getLast hds < 10 := Nat.digits_lt_base (by decide) (List.getLast_mem hds)
  have hsplit : digits n = Nat.digitChar ((Nat.digits 10 n).getLast hds) ::
      (Nat.digits 10 n).dropLast.reverse.map Nat.digitChar := by
    rw [digits, if_neg hne, ← List.map_cons, ← List.reverse_concat,
      List.dropLast_append_getLast hds]
  have hall := allDigits_digits n
  have hvalue := value_digits n
  rw [hsplit] at hall hvalue
  rw [value_cons] at hvalue
  refine ⟨_, _, hsplit, hall.of_cons.2, ?_, ?_, hvalue.symm⟩
  · rw [digitValue_digitChar hlast]
    exact Nat.pos_of_ne_zero (Nat.getLast_digit_ne_zero 10 hne)
  · rw [digitValue_digitChar hlast]
    exact hlast

/-- A number between a power of ten and its double begins with a one. What is behind it has the width of the power. -/
theorem digits_pow_add {w n : ℕ} (hn : n < 10 ^ w) :
    ∃ c l, digits (10 ^ w + n) = c :: l ∧ AllDigits l ∧ l.length = w ∧ value l = n := by
  have hpos : 0 < 10 ^ w + n := Nat.add_pos_left (Nat.pow_pos (by decide)) n
  obtain ⟨c, l, hdigits, hall, hc, hc10, hsum⟩ := digits_eq_cons hpos
  have hl := value_lt hall
  have hw : l.length = w := by
    have hlow : 10 ^ l.length ≤ 10 ^ w + n := by
      rw [hsum]
      exact (Nat.le_mul_of_pos_left _ hc).trans (Nat.le_add_right _ _)
    have hhigh : 10 ^ w + n < 10 ^ (l.length + 1) := by
      have := value_lt (allDigits_digits (10 ^ w + n))
      rwa [value_digits, hdigits, List.length_cons] at this
    have hle : l.length < w + 1 := by
      apply (Nat.pow_lt_pow_iff_right (show 1 < 10 by decide)).mp
      rw [pow_succ]
      omega
    have hge : w < l.length + 1 := by
      apply (Nat.pow_lt_pow_iff_right (show 1 < 10 by decide)).mp
      omega
    omega
  rw [hw] at hsum hl
  have hone : digitValue c = 1 := by
    have hlt : digitValue c * 10 ^ w < 2 * 10 ^ w := by omega
    have := Nat.lt_of_mul_lt_mul_right hlt
    omega
  rw [hone, Nat.one_mul] at hsum
  exact ⟨c, l, hdigits, hall, hw, (Nat.add_left_cancel hsum).symm⟩

end Decimal
