import Mathlib.Algebra.Order.Ring.Int
import Mathlib.Tactic.NormNum

/-!
# Integer arithmetic that notices when it goes wrong

A computation with integers of fixed widths goes wrong when a result does not fit its type, when a
negative number is converted to an unsigned type, or when it divides by zero. A program is written
once, with `narrow` wherever the source converts a number or forms a result, and run in one of two
ways: `trapping` stops at the first number that does not fit, and `exact` computes with integers that
always fit. When the trapping run does not trap, the exact one has the same outcome (`Agrees`), and
so has a run in machine integers (`Matches`).
-/

namespace Machine

inductive IntType
  | int32
  | uint32
  | int64
  | uint64
  | uint128
  deriving DecidableEq, Repr

namespace IntType

/-- The least number of a type. -/
def least : IntType → ℤ
  | .int32 => -2 ^ 31
  | .int64 => -2 ^ 63
  | _ => 0

/-- The numbers of a type are below this. -/
def bound : IntType → ℤ
  | .int32 => 2 ^ 31
  | .uint32 => 2 ^ 32
  | .int64 => 2 ^ 63
  | .uint64 => 2 ^ 64
  | .uint128 => 2 ^ 128

def Contains (t : IntType) (x : ℤ) : Prop := t.least ≤ x ∧ x < t.bound

instance (t : IntType) (x : ℤ) : Decidable (t.Contains x) := inferInstanceAs (Decidable (_ ∧ _))

end IntType

/-- How a computation ends that does not return. -/
inductive Stop (ε : Type)
  /-- The program throws an exception. -/
  | thrown (e : ε)
  /-- The arithmetic has gone wrong. -/
  | trapped
  deriving DecidableEq, Repr

/-- How numbers are computed. -/
inductive Arithmetic
  | trapping
  | exact

variable {ε α β : Type}

/-- A number as a value of the type. -/
def Arithmetic.narrow : Arithmetic → IntType → ℤ → Except (Stop ε) ℤ
  | .trapping, t, x => if t.Contains x then .ok x else .error .trapped
  | .exact, _, x => .ok x

/-- Division of numbers that are not negative. -/
def quotient (x y : ℤ) : Except (Stop ε) ℤ := if y = 0 then .error .trapped else .ok (x / y)

/-- Division that rounds to zero. -/
def tquotient (x y : ℤ) : Except (Stop ε) ℤ := if y = 0 then .error .trapped else .ok (x.tdiv y)

/-- Throw `e` unless `p` holds. -/
def throwUnless (e : ε) (p : Prop) [Decidable p] : Except (Stop ε) Unit :=
  if p then .ok () else .error (.thrown e)

/-! ### Running a computation -/

section Run

theorem narrow_of_contains {A : Arithmetic} {t : IntType} {x : ℤ} (h : t.Contains x) :
    (A.narrow t x : Except (Stop ε) ℤ) = .ok x := by
  cases A with
  | trapping => exact if_pos h
  | exact => rfl

theorem narrow_trapping_of_not {t : IntType} {x : ℤ} (h : ¬ t.Contains x) :
    (Arithmetic.trapping.narrow t x : Except (Stop ε) ℤ) = .error .trapped := if_neg h

theorem narrow_trapping_eq_ok {t : IntType} {x y : ℤ} :
    (Arithmetic.trapping.narrow t x : Except (Stop ε) ℤ) = .ok y ↔ t.Contains x ∧ x = y := by
  by_cases h : t.Contains x
  · rw [narrow_of_contains h, and_iff_right h]
    exact ⟨Except.ok.inj, congrArg _⟩
  · rw [narrow_trapping_of_not h]
    exact iff_of_false (fun heq => by cases heq) fun hand => h hand.1

theorem throwUnless_eq_ok {e : ε} {p : Prop} [Decidable p] {u : Unit} :
    (throwUnless e p) = .ok u ↔ p := by
  unfold throwUnless
  split
  · next h => exact iff_of_true rfl h
  · next h => exact iff_of_false (fun heq => by cases heq) h

theorem ok_bind (a : α) (f : α → Except (Stop ε) β) : (Except.ok a >>= f) = f a := rfl

theorem error_bind (e : Stop ε) (f : α → Except (Stop ε) β) : (Except.error e >>= f) = .error e := rfl

theorem narrow_bind {A : Arithmetic} {t : IntType} {x : ℤ} (h : t.Contains x)
    (f : ℤ → Except (Stop ε) β) : (A.narrow t x >>= f) = f x := by
  rw [narrow_of_contains h, ok_bind]

theorem narrow_trapping_bind_of_not {t : IntType} {x : ℤ} (h : ¬ t.Contains x)
    (f : ℤ → Except (Stop ε) β) : (Arithmetic.trapping.narrow t x >>= f) = .error .trapped := by
  rw [narrow_trapping_of_not h, error_bind]

theorem quotient_bind {x y : ℤ} (h : y ≠ 0) (f : ℤ → Except (Stop ε) β) :
    (quotient x y >>= f) = f (x / y) := by
  rw [quotient, if_neg h, ok_bind]

theorem tquotient_bind {x y : ℤ} (h : y ≠ 0) (f : ℤ → Except (Stop ε) β) :
    (tquotient x y >>= f) = f (x.tdiv y) := by
  rw [tquotient, if_neg h, ok_bind]

theorem throwUnless_bind {e : ε} {p : Prop} [Decidable p] (h : p) (f : Unit → Except (Stop ε) β) :
    (throwUnless e p >>= f) = f () := by
  rw [throwUnless, if_pos h, ok_bind]

theorem throwUnless_bind_of_not {e : ε} {p : Prop} [Decidable p] (h : ¬ p)
    (f : Unit → Except (Stop ε) β) : (throwUnless e p >>= f) = .error (.thrown e) := by
  rw [throwUnless, if_neg h, error_bind]

end Run

/-! ### Agreement -/

/-- If `r` does not trap, `r'` has the same outcome. -/
def Agrees (r r' : Except (Stop ε) α) : Prop := r ≠ .error .trapped → r' = r

theorem Agrees.refl (r : Except (Stop ε) α) : Agrees r r := fun _ => rfl

theorem Agrees.bind {r r' : Except (Stop ε) α} {f f' : α → Except (Stop ε) β} (h : Agrees r r')
    (hf : ∀ a, Agrees (f a) (f' a)) : Agrees (r >>= f) (r' >>= f') := by
  intro hnot
  have hr : r ≠ .error .trapped := by
    rintro rfl
    exact hnot rfl
  rw [h hr]
  cases r with
  | ok a => exact hf a hnot
  | error e => rfl

theorem Agrees.ite {p : Prop} [Decidable p] {r r' x x' : Except (Stop ε) α} (h : Agrees r r')
    (hx : Agrees x x') : Agrees (if p then r else x) (if p then r' else x') := by
  split
  · exact h
  · exact hx

theorem agrees_narrow (A : Arithmetic) (t : IntType) (x : ℤ) :
    Agrees (Arithmetic.trapping.narrow t x : Except (Stop ε) ℤ) (A.narrow t x) := by
  intro hnot
  by_cases h : t.Contains x
  · rw [narrow_of_contains h, narrow_of_contains h]
  · exact absurd (narrow_trapping_of_not h) hnot

/-- If `r` does not trap, the program `r'`, which computes without traps, has the same outcome. -/
inductive Matches : Except (Stop ε) α → Except ε α → Prop
  | ok (a : α) : Matches (.ok a) (.ok a)
  | thrown (e : ε) : Matches (.error (.thrown e)) (.error e)
  | trapped (r' : Except ε α) : Matches (.error .trapped) r'

theorem Matches.bind {r : Except (Stop ε) α} {r' : Except ε α} {f : α → Except (Stop ε) β}
    {f' : α → Except ε β} (h : Matches r r') (hf : ∀ a, Matches (f a) (f' a)) :
    Matches (r >>= f) (r' >>= f') := by
  cases h with
  | ok a => exact hf a
  | thrown e => exact .thrown e
  | trapped r' => exact .trapped _

/-- A step that the other program does not see. -/
theorem Matches.bind_ok {r : Except (Stop ε) α} {a : α} {f : α → Except (Stop ε) β} {r' : Except ε β}
    (h : Matches r (.ok a)) (hf : Matches (f a) r') : Matches (r >>= f) r' := by
  cases h with
  | ok => exact hf
  | trapped => exact .trapped r'

theorem Matches.of_assoc {δ : Type} {r : Except (Stop ε) δ} {m : Except ε α} {g : α → Except ε β}
    {k : β → Except ε δ} (h : Matches r ((m >>= g) >>= k)) :
    Matches r (m >>= fun a => g a >>= k) := by
  rwa [bind_assoc] at h

/-- A number that fits. -/
theorem Matches.narrow_bind {t : IntType} {x : ℤ} {f : ℤ → Except (Stop ε) β} {r' : Except ε β}
    (h : t.Contains x → Matches (f x) r') : Matches (Arithmetic.trapping.narrow t x >>= f) r' := by
  by_cases hx : t.Contains x
  · rw [Machine.narrow_bind hx]
    exact h hx
  · rw [narrow_trapping_bind_of_not hx]
    exact .trapped r'

theorem Matches.quotient_bind {x y : ℤ} {f : ℤ → Except (Stop ε) β} {r' : Except ε β}
    (h : y ≠ 0 → Matches (f (x / y)) r') : Matches (quotient x y >>= f) r' := by
  by_cases hy : y = 0
  · rw [quotient, if_pos hy]
    exact .trapped r'
  · rw [Machine.quotient_bind hy]
    exact h hy

theorem Matches.tquotient_bind {x y : ℤ} {f : ℤ → Except (Stop ε) β} {r' : Except ε β}
    (h : y ≠ 0 → Matches (f (x.tdiv y)) r') : Matches (tquotient x y >>= f) r' := by
  by_cases hy : y = 0
  · rw [tquotient, if_pos hy]
    exact .trapped r'
  · rw [Machine.tquotient_bind hy]
    exact h hy

theorem Matches.eq_ok {r : Except (Stop ε) α} {r' : Except ε α} (h : Matches r r') {a : α}
    (hr : r = .ok a) : r' = .ok a := by
  subst hr
  cases h
  rfl

theorem Matches.eq_thrown {r : Except (Stop ε) α} {r' : Except ε α} (h : Matches r r') {e : ε}
    (hr : r = .error (.thrown e)) : r' = .error e := by
  subst hr
  cases h
  rfl

end Machine
