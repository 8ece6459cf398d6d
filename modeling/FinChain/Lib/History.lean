import FinChain.Lib.Exec

/-!
# Triples relative to a history

A state may carry a record of what has happened so far, and a property may hold only of the runs
whose record is good. The record is never shortened, so a run that ends with a good record had a
good one all along.

`Leads G I J E x`: started in a state with `I`, a run of `x` that ends with a good record (`G`)
returns in a state with `J` or throws in a state with `E`. Every program considered is shown never
to make a bad record good again, which is what the rule for sequences needs.
-/

namespace Exec

variable {ε σ α β : Type}

/-- A good record after the step was good before it. -/
def GoodBefore (G : σ → Prop) (s s' : σ) : Prop := G s' → G s

theorem GoodBefore.frame (G : σ → Prop) : Frame (GoodBefore G) where
  refl _ := id
  trans h₁ h₂ := h₁ ∘ h₂

/-- From states with `I`, runs with a good record return in states with `J` and throw in states
with `E`. -/
structure Leads (G I : σ → Prop) (J : α → σ → Prop) (E : σ → Prop) (x : EStateM ε σ α) : Prop where
  keeps : Keeps (GoodBefore G) x
  ok : ∀ {s a s'}, I s → x s = .ok a s' → G s' → J a s'
  error : ∀ {s e s'}, I s → x s = .error e s' → G s' → E s'

section Rules

variable {G I E : σ → Prop}

theorem leads_pure {J : α → σ → Prop} {a : α} (h : ∀ s, I s → J a s) :
    Leads G I J E (pure a : EStateM ε σ α) where
  keeps := (GoodBefore.frame G).keeps_pure a
  ok hs hok _ := by
    cases hok
    exact h _ hs
  error _ herr _ := by
    cases herr

theorem leads_throw {J : α → σ → Prop} {e : ε} (h : ∀ s, I s → E s) :
    Leads G I J E (throw e : EStateM ε σ α) where
  keeps := (GoodBefore.frame G).keeps_throw e
  ok _ hok _ := by
    cases hok
  error hs herr _ := by
    cases herr
    exact h _ hs

theorem leads_assert {J : Unit → σ → Prop} {e : ε} {p : Prop} [Decidable p]
    (h : ∀ s, I s → J () s) (h' : ∀ s, I s → E s) :
    Leads G I J E (assert e p : EStateM ε σ Unit) := by
  unfold assert
  split
  · exact leads_pure h
  · exact leads_throw h'

theorem leads_update {J : Unit → σ → Prop} {f : σ → σ} (hG : ∀ s, G (f s) → G s)
    (h : ∀ s, I s → G (f s) → J () (f s)) : Leads G I J E (update f : EStateM ε σ Unit) where
  keeps := keeps_update hG
  ok hs hok hg := by
    cases hok
    exact h _ hs hg
  error _ herr _ := by
    cases herr

theorem leads_bind {J : α → σ → Prop} {K : β → σ → Prop} {x : EStateM ε σ α}
    {f : α → EStateM ε σ β} (hx : Leads G I J E x) (hf : ∀ a, Leads G (J a) K E (f a)) :
    Leads G I K E (x >>= f) where
  keeps := (GoodBefore.frame G).keeps_bind hx.keeps fun a => (hf a).keeps
  ok hs hok hg := by
    obtain ⟨a, s₁, h₁, h₂⟩ := bind_eq_ok.mp hok
    exact (hf a).ok (hx.ok hs h₁ ((hf a).keeps.of_ok h₂ hg)) h₂ hg
  error hs herr hg := by
    rcases bind_eq_error.mp herr with h₁ | ⟨a, s₁, h₁, h₂⟩
    · exact hx.error hs h₁ hg
    · exact (hf a).error (hx.ok hs h₁ ((hf a).keeps.of_error h₂ hg)) h₂ hg

/-- A program that first reads its state. -/
theorem leads_get_bind {K : β → σ → Prop} {f : σ → EStateM ε σ β}
    (hf : ∀ s, Leads G (fun t => t = s ∧ I t) K E (f s)) : Leads G I K E (get >>= f) where
  keeps := (GoodBefore.frame G).keeps_bind (GoodBefore.frame G).keeps_get fun s => (hf s).keeps
  ok hs hok hg := by
    rw [get_bind] at hok
    exact (hf _).ok ⟨rfl, hs⟩ hok hg
  error hs herr hg := by
    rw [get_bind] at herr
    exact (hf _).error ⟨rfl, hs⟩ herr hg

theorem leads_tryCatch {J : α → σ → Prop} {E' : σ → Prop} {x : EStateM ε σ α}
    {handle : ε → EStateM ε σ α} (hx : Leads G I J E x) (hh : ∀ e, Leads G E J E' (handle e)) :
    Leads G I J E' (tryCatch x handle) where
  keeps := (GoodBefore.frame G).keeps_tryCatch hx.keeps fun e => (hh e).keeps
  ok hs hok hg := by
    rcases tryCatch_eq_ok.mp hok with h₁ | ⟨e, s₁, h₁, h₂⟩
    · exact hx.ok hs h₁ hg
    · exact (hh e).ok (hx.error hs h₁ ((hh e).keeps.of_ok h₂ hg)) h₂ hg
  error hs herr hg := by
    obtain ⟨e₁, s₁, h₁, h₂⟩ := tryCatch_eq_error.mp herr
    exact (hh e₁).error (hx.error hs h₁ ((hh e₁).keeps.of_error h₂ hg)) h₂ hg

theorem leads_forM {γ : Type} {f : γ → EStateM ε σ PUnit}
    (hf : ∀ c, Leads G I (fun _ => I) E (f c)) (l : List γ) :
    Leads G I (fun _ => I) E (l.forM f) := by
  induction l with
  | nil => exact leads_pure fun _ h => h
  | cons c l ih =>
    change Leads G I (fun _ => I) E (f c >>= fun _ => l.forM f)
    exact leads_bind (hf c) fun _ => ih

theorem Leads.weaken {J J' : α → σ → Prop} {I' E' : σ → Prop} {x : EStateM ε σ α}
    (hx : Leads G I J E x) (hI : ∀ s, I' s → I s) (hJ : ∀ a s, J a s → J' a s)
    (hE : ∀ s, E s → E' s) : Leads G I' J' E' x where
  keeps := hx.keeps
  ok hs hok hg := hJ _ _ (hx.ok (hI _ hs) hok hg)
  error hs herr hg := hE _ (hx.error (hI _ hs) herr hg)

/-- A fact that is not about the state stays. -/
theorem Leads.and_const {J : α → σ → Prop} {x : EStateM ε σ α} (hx : Leads G I J E x) (φ : Prop) :
    Leads G (fun s => I s ∧ φ) (fun a s => J a s ∧ φ) (fun s => E s ∧ φ) x where
  keeps := hx.keeps
  ok hs hok hg := ⟨hx.ok hs.1 hok hg, hs.2⟩
  error hs herr hg := ⟨hx.error hs.1 herr hg, hs.2⟩

/-- What holds for some value of a parameter before the program may be looked at for each value.
The parameter has a value in any case, so that the record is seen to be kept. -/
theorem leads_exists {ι : Type} {J : α → σ → Prop} {A : ι → σ → Prop} {x : EStateM ε σ α}
    (default : σ → ι) (h : ∀ i, Leads G (A i) J E x) : Leads G (fun s => ∃ i, A i s) J E x where
  keeps s := (h (default s)).keeps s
  ok hs hok hg := by
    obtain ⟨i, hi⟩ := hs
    exact (h i).ok hi hok hg
  error hs herr hg := by
    obtain ⟨i, hi⟩ := hs
    exact (h i).error hi herr hg

theorem leads_or {J : α → σ → Prop} {I' : σ → Prop} {x : EStateM ε σ α} (h : Leads G I J E x)
    (h' : Leads G I' J E x) : Leads G (fun s => I s ∨ I' s) J E x where
  keeps := h.keeps
  ok hs hok hg := hs.elim (fun hs => h.ok hs hok hg) fun hs => h'.ok hs hok hg
  error hs herr hg := hs.elim (fun hs => h.error hs herr hg) fun hs => h'.error hs herr hg

/-- Whether it returns or throws. -/
theorem Leads.final {J : α → σ → Prop} {x : EStateM ε σ α} (hx : Leads G I J E x) {s : σ}
    (hs : I s) (hJ : ∀ a t, J a t → E t) (hg : G (Exec.final x s)) : E (Exec.final x s) := by
  cases hrun : x s with
  | ok a s' =>
    rw [final_of_ok hrun] at hg ⊢
    exact hJ a s' (hx.ok hs hrun hg)
  | error e s' =>
    rw [final_of_error hrun] at hg ⊢
    exact hx.error hs hrun hg

end Rules

end Exec
