import Mathlib.Data.List.Basic
import Mathlib.Data.List.Nodup
import Mathlib.Data.Nat.ModEq

/-!
# Shuffling a list and going around it

`shuffleFrom` is the loop of Fisher and Yates on a vector: each position in turn is exchanged with one that is chosen
among itself and those behind it. An exchange reads and writes two elements of the vector and has no result if one of
them is outside. If the choices are inside, the loop has a result, and it is a permutation
(`shuffleFrom_perm`).

Who goes around a list without duplicates, by the remainders of consecutive numbers, meets each element exactly
once in a round, wherever he starts (`existsUnique_rotation`).
-/

namespace RoundRobin

variable {α : Type}

/-- `std::swap( v[i], v[j] )`. -/
def swapAt (l : List α) (i j : ℕ) : Option (List α) := do
  let a ← l[i]?
  let b ← l[j]?
  return (l.set i b).set j a

/-- The loop over the positions from `i` on, of which some number is left. -/
def shuffleFrom (choice : ℕ → ℕ) : ℕ → ℕ → List α → Option (List α)
  | 0, _, l => some l
  | left + 1, i, l => do
    let l ← swapAt l i (choice i)
    shuffleFrom choice left (i + 1) l

theorem swapAt_perm {l : List α} {i j : ℕ} (hi : i < l.length) (hj : j < l.length) :
    ∃ l', swapAt l i j = some l' ∧ l'.Perm l := by
  refine ⟨(l.set i l[j]).set j l[i], ?_, List.set_set_perm hi hj⟩
  simp [swapAt, List.getElem?_eq_getElem hi, List.getElem?_eq_getElem hj]

/-- **The loop permutes the list**, by induction on the positions that are left. -/
theorem shuffleFrom_perm {choice : ℕ → ℕ} : ∀ (left i : ℕ) (l : List α), i + left = l.length →
    (∀ k, i ≤ k → k < l.length → choice k < l.length) →
      ∃ l', shuffleFrom choice left i l = some l' ∧ l'.Perm l
  | 0, _, l, _, _ => ⟨l, rfl, .refl l⟩
  | left + 1, i, l, hlength, hchoice => by
    have hi : i < l.length := by omega
    obtain ⟨l₁, hswap, hperm⟩ := swapAt_perm hi (hchoice i le_rfl hi)
    have hsame := hperm.length_eq
    have hchoice' : ∀ k, i + 1 ≤ k → k < l₁.length → choice k < l₁.length :=
      fun k hk hlt => hsame ▸ hchoice k (by omega) (by omega)
    obtain ⟨l', hrest, hperm'⟩ := shuffleFrom_perm left (i + 1) l₁ (by omega) hchoice'
    refine ⟨l', ?_, hperm'.trans hperm⟩
    show (swapAt l i (choice i)).bind _ = _
    rw [hswap]
    exact hrest

/-- **A round meets each element once.** -/
theorem existsUnique_rotation {l : List α} (hnodup : l.Nodup) (a : ℕ) {x : α} (hx : x ∈ l) :
    ∃! i, i < l.length ∧ l[(a + i) % l.length]? = some x := by
  obtain ⟨k, hk, rfl⟩ := List.getElem_of_mem hx
  have hpos : 0 < l.length := by omega
  have hlt := Nat.mod_lt a hpos
  -- the number of steps from the start to the place of the element
  refine ⟨(k + (l.length - a % l.length)) % l.length, ⟨Nat.mod_lt _ hpos, ?_⟩, ?_⟩
  · have hplace : (a + (k + (l.length - a % l.length)) % l.length) % l.length = k := by
      calc (a + (k + (l.length - a % l.length)) % l.length) % l.length
          = (a % l.length + (k + (l.length - a % l.length))) % l.length := by
            rw [Nat.add_mod, Nat.mod_mod, ← Nat.add_mod, Nat.mod_add_mod]
        _ = (k + l.length) % l.length := by
            congr 1
            omega
        _ = k := by rw [Nat.add_mod_right, Nat.mod_eq_of_lt hk]
    rw [hplace, List.getElem?_eq_getElem hk]
  · rintro i ⟨hi, heq⟩
    have hi' : (a + i) % l.length < l.length := Nat.mod_lt _ hpos
    rw [List.getElem?_eq_getElem hi', Option.some.injEq] at heq
    have hplace : (a + i) % l.length = k := (List.Nodup.getElem_inj_iff hnodup).mp heq
    -- two numbers of steps that lead to the same place differ by rounds
    have hmod : a + i ≡ a + (k + (l.length - a % l.length)) [MOD l.length] := by
      show (a + i) % l.length = _ % l.length
      rw [hplace]
      calc k = (k + l.length) % l.length := by rw [Nat.add_mod_right, Nat.mod_eq_of_lt hk]
        _ = (a % l.length + (k + (l.length - a % l.length))) % l.length := by
            congr 1
            omega
        _ = (a + (k + (l.length - a % l.length))) % l.length := Nat.mod_add_mod _ _ _
    have hsteps := Nat.ModEq.add_left_cancel' a hmod
    rw [← Nat.mod_eq_of_lt hi]
    exact hsteps

end RoundRobin
