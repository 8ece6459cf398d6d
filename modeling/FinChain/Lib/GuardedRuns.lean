import Mathlib.Data.List.Basic

/-!
# Guarded runs

A program may only be defined as long as everything it asks for is there. What it asks for is recorded in its
state. A second program, which is always defined, has an answer for the rest as well. The first one is guarded by
the second if it does the same until something is asked for that is not there, and is undefined from then on
(`Guarded`). Then it is known when the first program returns, and what: if and only if all that the second one
asks for is there (`Guarded.eq_iff`).
-/

/-- Programs that may be undefined. -/
abbrev MaybeM (σ : Type) := StateT σ Option

namespace MaybeM

variable {σ ι α β : Type}

theorem bind_apply (x : MaybeM σ α) (f : α → MaybeM σ β) (s : σ) :
    (x >>= f) s = (x s).bind fun r => f r.1 r.2 := rfl

theorem pure_apply (a : α) (s : σ) : (pure a : MaybeM σ α) s = some (a, s) := rfl

/-- How a program asks, and what is there. -/
structure Asking (σ ι : Type) where
  /-- What holds of the states. -/
  Inv : σ → Prop
  asked : σ → List ι
  There : ι → Prop

variable (A : Asking σ ι)

/-- Everything that was asked for is there. -/
def Asking.Fine (s : σ) : Prop := ∀ i ∈ A.asked s, A.There i

/-- `f` is `g`, as long as everything that is asked for is there. -/
structure Guarded (f g : MaybeM σ α) : Prop where
  returns : ∀ s, A.Inv s → ∃ a s', g s = some (a, s') ∧ A.Inv s' ∧ A.asked s ⊆ A.asked s'
  guarded : ∀ s, A.Inv s → A.Fine s → ∀ a s', g s = some (a, s') →
    (A.Fine s' → f s = some (a, s')) ∧ (¬ A.Fine s' → f s = none)

variable {A}

theorem guarded_pure (a : α) : Guarded A (pure a : MaybeM σ α) (pure a) where
  returns s hs := ⟨a, s, rfl, hs, List.Subset.refl _⟩
  guarded s _ hfine a' s' h := by
    obtain ⟨rfl, rfl⟩ := Prod.mk.inj (Option.some.inj h)
    exact ⟨fun _ => rfl, fun hnot => absurd hfine hnot⟩

theorem guarded_silent {g : MaybeM σ α} (h : ∀ s, A.Inv s →
    ∃ a s', g s = some (a, s') ∧ A.Inv s' ∧ A.asked s' = A.asked s) : Guarded A g g where
  returns s hs := by
    obtain ⟨a, s', hg, hs', hasked⟩ := h s hs
    exact ⟨a, s', hg, hs', hasked ▸ List.Subset.refl _⟩
  guarded s hs hfine a s' hg := by
    obtain ⟨a₁, s₁, hg₁, -, hasked⟩ := h s hs
    rw [hg] at hg₁
    obtain ⟨-, rfl⟩ := Prod.mk.inj (Option.some.inj hg₁)
    refine ⟨fun _ => hg, fun hnot => absurd ?_ hnot⟩
    unfold Asking.Fine
    rwa [hasked]

/-- One program after the other. What the second one is guarded by does not matter once the first one has
asked for something that is not there. -/
theorem Guarded.bind {f g : MaybeM σ α} {f' g' : α → MaybeM σ β} (h : Guarded A f g)
    (h' : ∀ a, Guarded A (f' a) (g' a)) : Guarded A (f >>= f') (g >>= g') where
  returns s hs := by
    obtain ⟨a, s₁, hg, hs₁, hasked⟩ := h.returns s hs
    obtain ⟨b, s₂, hg', hs₂, hasked'⟩ := (h' a).returns s₁ hs₁
    refine ⟨b, s₂, ?_, hs₂, List.Subset.trans hasked hasked'⟩
    rw [bind_apply, hg]
    exact hg'
  guarded s hs hfine b s₂ hrun := by
    obtain ⟨a, s₁, hg, hs₁, -⟩ := h.returns s hs
    rw [bind_apply, hg] at hrun
    change g' a s₁ = some (b, s₂) at hrun
    obtain ⟨b', s₂', hg', -, hasked'⟩ := (h' a).returns s₁ hs₁
    rw [hrun] at hg'
    obtain ⟨-, rfl⟩ := Prod.mk.inj (Option.some.inj hg')
    obtain ⟨hsame, hnone⟩ := h.guarded s hs hfine a s₁ hg
    by_cases hfine₁ : A.Fine s₁
    · rw [bind_apply, hsame hfine₁]
      exact (h' a).guarded s₁ hs₁ hfine₁ b s₂ hrun
    · -- what was asked for stays asked for
      have hnot : ¬ A.Fine s₂ := fun hfine₂ => hfine₁ fun i hi => hfine₂ i (hasked' hi)
      rw [bind_apply, hnone hfine₁]
      exact ⟨fun hfine₂ => absurd hfine₂ hnot, fun _ => rfl⟩

theorem Guarded.ite {p : Prop} [Decidable p] {f g f' g' : MaybeM σ α} (h : Guarded A f g)
    (h' : Guarded A f' g') : Guarded A (if p then f else f') (if p then g else g') := by
  split
  · exact h
  · exact h'

/-- **When the program is the one that guards it.** -/
theorem Guarded.eq_iff {f g : MaybeM σ α} (h : Guarded A f g) {s : σ} (hs : A.Inv s) (hfine : A.Fine s) :
    f s = g s ↔ ∀ a s', g s = some (a, s') → A.Fine s' := by
  obtain ⟨a, s', hg, -, -⟩ := h.returns s hs
  obtain ⟨hsame, hnone⟩ := h.guarded s hs hfine a s' hg
  constructor
  · intro heq a₁ s₁ hg₁
    rw [hg] at hg₁ heq
    obtain ⟨-, rfl⟩ := Prod.mk.inj (Option.some.inj hg₁)
    by_contra hnot
    rw [hnone hnot] at heq
    cases heq
  · intro hall
    rw [hsame (hall a s' hg), hg]

end MaybeM
