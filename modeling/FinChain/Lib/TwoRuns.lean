import FinChain.Lib.Exec

/-!
# Two runs of a program

A program that reads only a part of its state does the same on states that agree on this part.
`Related R x y` says that `x` and `y`, run from states related by `R`, both return the same value
or both throw the same exception, and leave related states behind. The rules follow the
combinators of the program.

A program that leaves out checks of another one returns where the other one does. `Follows R x y` says
that `y` does what `x` does as long as `x` returns; nothing is said of `y` where `x` throws.

A program may also take detours that another one on a smaller state does not have. `Simulates I J E x y`
says that from states related by `I` the two return or throw together; where they return, the states
are related by `J`. What is left behind by exceptions is not compared: of the state of `x` it is only
known that `E` holds, which is what a handler needs that puts everything back.
-/

namespace Exec

variable {ε σ α β : Type}

/-- Both runs end in the same way, in related states. -/
inductive SameEnd (R : σ → σ → Prop) : EStateM.Result ε σ α → EStateM.Result ε σ α → Prop
  | ok (a : α) {s t : σ} : R s t → SameEnd R (.ok a s) (.ok a t)
  | error (e : ε) {s t : σ} : R s t → SameEnd R (.error e s) (.error e t)

/-- From related states `x` and `y` end in the same way. -/
def Related (R : σ → σ → Prop) (x y : EStateM ε σ α) : Prop :=
  ∀ s t, R s t → SameEnd R (x s) (y t)

theorem SameEnd.mono {R R' : σ → σ → Prop} (h : ∀ s t, R s t → R' s t)
    {r r' : EStateM.Result ε σ α} (hr : SameEnd R r r') : SameEnd R' r r' := by
  cases hr with
  | ok a hst => exact .ok a (h _ _ hst)
  | error e hst => exact .error e (h _ _ hst)

theorem SameEnd.of_error {R : σ → σ → Prop} {r' : EStateM.Result ε σ α} {e : ε} {s : σ}
    (h : SameEnd R (.error e s) r') : ∃ t, r' = .error e t ∧ R s t := by
  cases h with
  | error e hst => exact ⟨_, rfl, hst⟩

theorem SameEnd.of_ok {R : σ → σ → Prop} {r' : EStateM.Result ε σ α} {a : α} {s : σ}
    (h : SameEnd R (.ok a s) r') : ∃ t, r' = .ok a t ∧ R s t := by
  cases h with
  | ok a hst => exact ⟨_, rfl, hst⟩

section Rules

variable {R : σ → σ → Prop}

theorem related_pure (a : α) : Related R (pure a : EStateM ε σ α) (pure a) :=
  fun _ _ h => .ok a h

theorem related_throw (e : ε) : Related R (throw e : EStateM ε σ α) (throw e) :=
  fun _ _ h => .error e h

theorem related_update {g g' : σ → σ} (h : ∀ s t, R s t → R (g s) (g' t)) :
    Related R (update g : EStateM ε σ Unit) (update g') :=
  fun s t hst => .ok () (h s t hst)

/-- The same check, read off either state. -/
theorem related_assert (e : ε) {p q : Prop} [Decidable p] [Decidable q] (h : p ↔ q) :
    Related R (assert e p : EStateM ε σ Unit) (assert e q) := by
  unfold assert
  by_cases hp : p
  · rw [if_pos hp, if_pos (h.mp hp)]
    exact related_pure ()
  · rw [if_neg hp, if_neg fun hq => hp (h.mpr hq)]
    exact related_throw e

theorem related_bind {x y : EStateM ε σ α} {f f' : α → EStateM ε σ β} (hx : Related R x y)
    (hf : ∀ a, Related R (f a) (f' a)) : Related R (x >>= f) (y >>= f') := by
  intro s t hst
  rw [bind_apply, bind_apply]
  cases hrun : x s with
  | ok a s₁ =>
    obtain ⟨t₁, hy, h₁⟩ := (hrun ▸ hx s t hst).of_ok
    rw [hy]
    exact hf a s₁ t₁ h₁
  | error e s₁ =>
    obtain ⟨t₁, hy, h₁⟩ := (hrun ▸ hx s t hst).of_error
    rw [hy]
    exact .error e h₁

/-- A program that first reads its state. -/
theorem related_get_bind {f f' : σ → EStateM ε σ β}
    (hf : ∀ s t, R s t → Related R (f s) (f' t)) :
    Related R (get >>= f) (get >>= f') := by
  intro s t hst
  rw [get_bind, get_bind]
  exact hf s t hst s t hst

theorem related_tryCatch {x y : EStateM ε σ α} {handle handle' : ε → EStateM ε σ α}
    (hx : Related R x y) (hh : ∀ e, Related R (handle e) (handle' e)) :
    Related R (tryCatch x handle) (tryCatch y handle') := by
  intro s t hst
  rw [tryCatch_apply, tryCatch_apply]
  cases hrun : x s with
  | ok a s₁ =>
    obtain ⟨t₁, hy, h₁⟩ := (hrun ▸ hx s t hst).of_ok
    rw [hy]
    exact .ok a h₁
  | error e s₁ =>
    obtain ⟨t₁, hy, h₁⟩ := (hrun ▸ hx s t hst).of_error
    rw [hy]
    exact hh e s₁ t₁ h₁

theorem related_forM {γ : Type} {f : γ → EStateM ε σ PUnit} (hf : ∀ c, Related R (f c) (f c))
    (l : List γ) : Related R (l.forM f) (l.forM f) := by
  induction l with
  | nil => exact related_pure _
  | cons c l ih =>
    change Related R (f c >>= fun _ => l.forM f) (f c >>= fun _ => l.forM f)
    exact related_bind (hf c) fun _ => ih

/-- A change of the state after which a closer relation holds. -/
theorem related_update_bind {Q : σ → σ → Prop} {g g' : σ → σ} {f f' : Unit → EStateM ε σ β}
    (h : ∀ s t, R s t → Q (g s) (g' t)) (hf : Related Q (f ()) (f' ()))
    (hR : ∀ s t, Q s t → R s t) :
    Related R (update g >>= f) (update g' >>= f') := by
  intro s t hst
  rw [update_bind, update_bind]
  exact (hf _ _ (h s t hst)).mono hR

/-! ### Programs with fewer checks -/

/-- From related states, where `x` returns so does `y`, with the same value and in a related state. -/
def Follows (R : σ → σ → Prop) (x y : EStateM ε σ α) : Prop :=
  ∀ s t, R s t → ∀ a s', x s = .ok a s' → ∃ t', y t = .ok a t' ∧ R s' t'

theorem follows_pure (a : α) : Follows R (pure a : EStateM ε σ α) (pure a) := by
  intro s t hst a' s' h
  obtain ⟨rfl, rfl⟩ := pure_eq_ok.mp h
  exact ⟨t, rfl, hst⟩

theorem follows_throw (e : ε) (y : EStateM ε σ α) : Follows R (throw e) y := by
  intro s t _ a s' h
  cases h

theorem follows_update {g g' : σ → σ} (h : ∀ s t, R s t → R (g s) (g' t)) :
    Follows R (update g : EStateM ε σ Unit) (update g') := by
  intro s t hst a s' hrun
  obtain rfl := update_eq_ok.mp hrun
  exact ⟨g' t, rfl, h s t hst⟩

theorem follows_bind {x y : EStateM ε σ α} {f f' : α → EStateM ε σ β} (hx : Follows R x y)
    (hf : ∀ a, Follows R (f a) (f' a)) : Follows R (x >>= f) (y >>= f') := by
  intro s t hst b s' h
  obtain ⟨a, s₁, hrun, hrest⟩ := bind_eq_ok.mp h
  obtain ⟨t₁, hrun', h₁⟩ := hx s t hst a s₁ hrun
  obtain ⟨t', hrest', h'⟩ := hf a s₁ t₁ h₁ b s' hrest
  exact ⟨t', bind_eq_ok.mpr ⟨a, t₁, hrun', hrest'⟩, h'⟩

theorem follows_get_bind {f f' : σ → EStateM ε σ β} (hf : ∀ s t, R s t → Follows R (f s) (f' t)) :
    Follows R (get >>= f) (get >>= f') := by
  intro s t hst b s' h
  rw [get_bind] at h ⊢
  exact hf s t hst s t hst b s' h

/-- A check that follows from the one of the other program. -/
theorem follows_assert (e : ε) {p q : Prop} [Decidable p] [Decidable q] (h : p → q) :
    Follows R (assert e p : EStateM ε σ Unit) (assert e q) := by
  intro s t hst a s' hrun
  obtain ⟨hp, rfl⟩ := assert_eq_ok.mp hrun
  exact ⟨t, assert_eq_ok.mpr ⟨h hp, rfl⟩, hst⟩

/-- A program whose handler throws returns only what its body returns. -/
theorem follows_tryCatch {x y : EStateM ε σ α} {handle handle' : ε → EStateM ε σ α}
    (hx : Follows R x y) (hh : ∀ e s a s', handle e s ≠ .ok a s') :
    Follows R (tryCatch x handle) (tryCatch y handle') := by
  intro s t hst a s' h
  rcases tryCatch_eq_ok.mp h with hrun | ⟨e, s₁, -, hhandle⟩
  · obtain ⟨t', hrun', h'⟩ := hx s t hst a s' hrun
    exact ⟨t', tryCatch_eq_ok.mpr (.inl hrun'), h'⟩
  · exact absurd hhandle (hh e s₁ a s')

theorem follows_forM {γ : Type} {f f' : γ → EStateM ε σ PUnit} {l : List γ}
    (hf : ∀ c ∈ l, Follows R (f c) (f' c)) : Follows R (l.forM f) (l.forM f') := by
  induction l with
  | nil => exact follows_pure _
  | cons c l ih =>
    change Follows R (f c >>= fun _ => l.forM f) (f' c >>= fun _ => l.forM f')
    exact follows_bind (hf c List.mem_cons_self) fun _ =>
      ih fun c' hc' => hf c' (List.mem_cons_of_mem c hc')

end Rules

/-! ### Programs on different states -/

/-- From related states both return, the same and in related states, or both throw. -/
def Simulates {ε' τ : Type} (I J : σ → τ → Prop) (E : σ → Prop) (x : EStateM ε σ α)
    (y : EStateM ε' τ α) : Prop :=
  ∀ s t, I s t → (∃ a s' t', x s = .ok a s' ∧ y t = .ok a t' ∧ J s' t') ∨
    ∃ e s' e' t', x s = .error e s' ∧ y t = .error e' t' ∧ E s'

section Simulation

variable {ε' τ : Type} {I J K : σ → τ → Prop} {E : σ → Prop}

theorem simulates_pure (a : α) :
    Simulates I I E (pure a : EStateM ε σ α) (pure a : EStateM ε' τ α) :=
  fun s t h => .inl ⟨a, s, t, rfl, rfl, h⟩

theorem simulates_assert (hE : ∀ s t, I s t → E s) (e : ε) (e' : ε') (p : Prop) [Decidable p] :
    Simulates I I E (assert e p : EStateM ε σ Unit) (assert e' p : EStateM ε' τ Unit) := by
  intro s t hst
  unfold assert
  by_cases hp : p
  · rw [if_pos hp, if_pos hp]
    exact .inl ⟨(), s, t, rfl, rfl, hst⟩
  · rw [if_neg hp, if_neg hp]
    exact .inr ⟨e, s, e', t, rfl, rfl, hE s t hst⟩

theorem simulates_bind {x : EStateM ε σ α} {y : EStateM ε' τ α} {f : α → EStateM ε σ β}
    {g : α → EStateM ε' τ β} (hx : Simulates I J E x y) (hf : ∀ a, Simulates J K E (f a) (g a)) :
    Simulates I K E (x >>= f) (y >>= g) := by
  intro s t hst
  rcases hx s t hst with ⟨a, s₁, t₁, hs, ht, h₁⟩ | ⟨e, s₁, e', t₁, hs, ht, h₁⟩
  · rw [bind_apply, bind_apply, hs, ht]
    exact hf a s₁ t₁ h₁
  · refine .inr ⟨e, s₁, e', t₁, ?_, ?_, h₁⟩
    · rw [bind_apply, hs]
    · rw [bind_apply, ht]

/-- Programs that first read their states. -/
theorem simulates_get_bind {f : σ → EStateM ε σ β} {g : τ → EStateM ε' τ β}
    (h : ∀ s t, I s t → Simulates I J E (f s) (g t)) :
    Simulates I J E (get >>= f) (get >>= g) := by
  intro s t hst
  rw [get_bind, get_bind]
  exact h s t hst s t hst

theorem simulates_forM {γ : Type} {f : γ → EStateM ε σ PUnit} {g : γ → EStateM ε' τ PUnit}
    (h : ∀ c, Simulates I I E (f c) (g c)) (l : List γ) : Simulates I I E (l.forM f) (l.forM g) := by
  induction l with
  | nil => exact simulates_pure _
  | cons c l ih =>
    change Simulates I I E (f c >>= fun _ => l.forM f) (g c >>= fun _ => l.forM g)
    exact simulates_bind (h c) fun _ => ih

end Simulation

end Exec
