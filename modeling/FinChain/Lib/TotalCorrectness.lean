import FinChain.Lib.Exec

/-!
# Programs that return

`Achieves x Q s` says that the run of `x` from `s` returns, with a value and a state that are as `Q`
says. A run is put together step by step with the rules below; the state that a step leaves behind is
known by what the step before it achieves.
-/

namespace Exec

variable {ε σ α β : Type}

/-- The run of `x` from `s` returns, and `Q` holds of its value and of the state at its end. -/
def Achieves (x : EStateM ε σ α) (Q : α → σ → Prop) (s : σ) : Prop :=
  ∃ a s', x s = .ok a s' ∧ Q a s'

section Rules

variable {x : EStateM ε σ α} {f : α → EStateM ε σ β} {Q Q' : α → σ → Prop} {P : β → σ → Prop} {s : σ}

theorem Achieves.mono (h : Achieves x Q s) (hQ : ∀ a s', Q a s' → Q' a s') : Achieves x Q' s := by
  obtain ⟨a, s', hx, hq⟩ := h
  exact ⟨a, s', hx, hQ a s' hq⟩

theorem achieves_pure {a : α} (h : Q a s) : Achieves (pure a : EStateM ε σ α) Q s :=
  ⟨a, s, rfl, h⟩

theorem achieves_update {g : σ → σ} {Q : Unit → σ → Prop} (h : Q () (g s)) :
    Achieves (update g : EStateM ε σ Unit) Q s :=
  ⟨(), g s, rfl, h⟩

theorem Achieves.bind (hx : Achieves x Q s) (hf : ∀ a s', Q a s' → Achieves (f a) P s') :
    Achieves (x >>= f) P s := by
  obtain ⟨a, s₁, hx, hq⟩ := hx
  obtain ⟨b, s', hfx, hp⟩ := hf a s₁ hq
  exact ⟨b, s', bind_eq_ok.mpr ⟨a, s₁, hx, hfx⟩, hp⟩

theorem achieves_get_bind {f : σ → EStateM ε σ β} (h : Achieves (f s) P s) :
    Achieves (get >>= f) P s := by
  obtain ⟨b, s', hf, hp⟩ := h
  exact ⟨b, s', hf, hp⟩

theorem achieves_require_bind {e : ε} {o : Option α} {a : α} (ho : o = some a)
    (h : Achieves (f a) P s) : Achieves (require e o >>= f) P s := by
  obtain ⟨b, s', hf, hp⟩ := h
  exact ⟨b, s', require_bind_eq_ok.mpr ⟨a, ho, hf⟩, hp⟩

theorem achieves_lift_bind {r : Except ε α} {a : α} (hr : r = .ok a) (h : Achieves (f a) P s) :
    Achieves (lift r >>= f) P s := by
  obtain ⟨b, s', hf, hp⟩ := h
  exact ⟨b, s', lift_bind_eq_ok.mpr ⟨a, hr, hf⟩, hp⟩

theorem achieves_assert_bind {e : ε} {p : Prop} [Decidable p] {f : Unit → EStateM ε σ β} (hp : p)
    (h : Achieves (f ()) P s) : Achieves (assert e p >>= f) P s := by
  obtain ⟨b, s', hf, hP⟩ := h
  exact ⟨b, s', assert_bind_eq_ok.mpr ⟨hp, hf⟩, hP⟩

theorem achieves_ite {p : Prop} [Decidable p] {y : EStateM ε σ α} (hx : p → Achieves x Q s)
    (hy : ¬ p → Achieves y Q s) : Achieves (if p then x else y) Q s := by
  split
  · next hp => exact hx hp
  · next hp => exact hy hp

end Rules

end Exec
