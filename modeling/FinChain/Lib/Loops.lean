import FinChain.Lib.Exec
import Mathlib.Data.List.Induction

/-!
# Loops without a bound

A loop is given by its body: from the loop variables `k` the body either goes on with other variables
(`Sum.inl`) or ends the loop with a result (`Sum.inr`). `Ends body k s r` says that the loop, run
without any bound on the number of its rounds, comes to an end with `r`, which may be an exception. There
is no such `r` for a loop that goes on for ever.

A definition that takes fuel unrolls such a loop (`Unrolls`), and what it computes is what the loop ends
with, if every round that goes on decreases a rank and the fuel is at least the rank at the start
(`Unrolls.ends_of_rank`).

A loop over a list whose steps may fail comes to its end if and only if every step fits the state that it finds
(`Steps.returns_iff`).
-/

namespace Exec

variable {ε σ κ α : Type}

/-- The loop ends, and this is what it ends with. -/
inductive Ends (body : κ → EStateM ε σ (κ ⊕ α)) : κ → σ → EStateM.Result ε σ α → Prop
  | done {k : κ} {s s' : σ} {a : α} (h : body k s = .ok (.inr a) s') : Ends body k s (.ok a s')
  | thrown {k : κ} {s s' : σ} {e : ε} (h : body k s = .error e s') : Ends body k s (.error e s')
  | again {k k' : κ} {s s₁ : σ} {r : EStateM.Result ε σ α} (h : body k s = .ok (.inl k') s₁)
      (hrest : Ends body k' s₁ r) : Ends body k s r

/-- One unit of fuel is one round of the loop. -/
def Unrolls (loop : ℕ → κ → EStateM ε σ α) (body : κ → EStateM ε σ (κ ⊕ α)) : Prop :=
  ∀ n k, loop (n + 1) k = body k >>= Sum.elim (loop n) pure

section Rules

variable {loop : ℕ → κ → EStateM ε σ α} {body : κ → EStateM ε σ (κ ⊕ α)} {I : κ → σ → Prop}
  {k : κ} {s s' : σ} {a : α} {n : ℕ}

/-- A loop whose rounds decrease a rank comes to its end. -/
theorem ends_of_rank (rank : κ → σ → ℕ)
    (hstep : ∀ {k s k' s'}, body k s = .ok (.inl k') s' → rank k' s' < rank k s) (k : κ) (s : σ) :
    ∃ r, Ends body k s r := by
  induction hn : rank k s using Nat.strongRecOn generalizing k s with
  | ind n ih =>
    subst hn
    cases hbody : body k s with
    | error e s₁ => exact ⟨_, .thrown hbody⟩
    | ok next s₁ =>
      cases next with
      | inr a => exact ⟨_, .done hbody⟩
      | inl k' =>
        obtain ⟨r, hr⟩ := ih _ (hstep hbody) k' s₁ rfl
        exact ⟨r, .again hbody hr⟩

/-- What the rounds preserve holds in the round that throws. -/
theorem Ends.thrown_of {J : ε → σ → Prop} {e : ε}
    (hstep : ∀ {k s k' s'}, I k s → body k s = .ok (.inl k') s' → I k' s')
    (hlast : ∀ {k s e s'}, I k s → body k s = .error e s' → J e s') (hI : I k s)
    (h : Ends body k s (.error e s')) : J e s' := by
  generalize hr : EStateM.Result.error e s' = r at h
  induction h with
  | done _ => cases hr
  | thrown hbody =>
    cases hr
    exact hlast hI hbody
  | again hbody _ ih => exact ih (hstep hI hbody) hr

/-- **The rule of ranks.** If the rank decreases in every round that goes on, fuel up to the rank is
enough to come to the end of the loop. -/
theorem Unrolls.ends_of_rank (hunrolls : Unrolls loop body) (rank : κ → σ → ℕ)
    (hstep : ∀ {k s k' s'}, I k s → body k s = .ok (.inl k') s' → I k' s' ∧ rank k' s' < rank k s)
    (hlast : ∀ {k s}, I k s → rank k s = 0 → Ends body k s (loop 0 k s)) (hI : I k s)
    (hn : rank k s ≤ n) : Ends body k s (loop n k s) := by
  induction n generalizing k s with
  | zero => exact hlast hI (Nat.le_zero.mp hn)
  | succ n ih =>
    rw [hunrolls, bind_apply]
    cases hbody : body k s with
    | error e s₁ => exact .thrown hbody
    | ok next s₁ =>
      cases next with
      | inr a => exact .done hbody
      | inl k' =>
        obtain ⟨hI', hless⟩ := hstep hI hbody
        exact .again hbody (ih hI' (Nat.le_of_lt_succ (Nat.lt_of_lt_of_le hless hn)))

end Rules

/-! ### Steps over a list -/

/-- What is known of the steps: when they succeed, and what holds of the items so far and the state. -/
structure Steps (step : σ → α → Except ε σ) (Inv : List α → σ → Prop) (Fits : σ → α → Prop) : Prop where
  returns : ∀ {done s} a, Inv done s → ((∃ s', step s a = .ok s') ↔ Fits s a)
  keeps : ∀ {done s a s'}, Inv done s → step s a = .ok s' → Inv (done ++ [a]) s'

section Steps

variable {step : σ → α → Except ε σ} {Inv : List α → σ → Prop} {Fits : σ → α → Prop} {l : List α} {s₀ s s' : σ}

theorem foldlM_concat_eq_ok {a : α} : (l ++ [a]).foldlM step s₀ = .ok s' ↔
    ∃ s, l.foldlM step s₀ = .ok s ∧ step s a = .ok s' := by
  rw [List.foldlM_append, except_bind_eq_ok]
  simp only [List.foldlM_cons, List.foldlM_nil, bind_pure]

/-- What holds after all steps. -/
theorem Steps.inv (h : Steps step Inv Fits) (h₀ : Inv [] s₀) (hrun : l.foldlM step s₀ = .ok s) : Inv l s := by
  induction l using List.reverseRecOn generalizing s with
  | nil =>
    cases hrun
    exact h₀
  | append_singleton l a ih =>
    obtain ⟨s₁, hrun₁, hstep⟩ := foldlM_concat_eq_ok.mp hrun
    exact h.keeps (ih hrun₁) hstep

/-- **The rule of steps that may fail.** -/
theorem Steps.returns_iff (h : Steps step Inv Fits) (h₀ : Inv [] s₀) : (∃ s, l.foldlM step s₀ = .ok s) ↔
    ∀ before a after, l = before ++ a :: after → ∀ s, before.foldlM step s₀ = .ok s → Fits s a := by
  induction l using List.reverseRecOn with
  | nil => exact iff_of_true ⟨s₀, rfl⟩ fun before a after hl => absurd hl (by simp)
  | append_singleton l a ih =>
    simp only [foldlM_concat_eq_ok]
    constructor
    · rintro ⟨s', s, hrun, hstep⟩ before b after hl s₁ hrun₁
      -- the step is the last one, or one before
      rcases List.eq_nil_or_concat after with rfl | ⟨after, c, rfl⟩
      · obtain ⟨rfl, hab⟩ := List.append_inj' hl rfl
        cases hab
        rw [hrun] at hrun₁
        cases hrun₁
        exact (h.returns _ (h.inv h₀ hrun)).mp ⟨s', hstep⟩
      · have hl' : l ++ [a] = (before ++ b :: after) ++ [c] := by simpa using hl
        exact ih.mp ⟨s, hrun⟩ before b after (List.append_inj' hl' rfl).1 s₁ hrun₁
    · intro hfits
      obtain ⟨s, hrun⟩ := ih.mpr fun before b after hl => hfits before b (after ++ [a]) (by simp [hl])
      obtain ⟨s', hstep⟩ := (h.returns a (h.inv h₀ hrun)).mpr (hfits l a [] rfl s hrun)
      exact ⟨s', s, hrun, hstep⟩

end Steps

end Exec
