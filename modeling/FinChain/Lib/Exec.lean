import Mathlib.Data.List.Basic

/-!
# Programs with state and exceptions

Reasoning about `EStateM ε σ`: a program returns a value or throws, and in both cases leaves a
state behind; catching an exception does not bring the state back. Two kinds of rules are
collected here.

* *Inversion*: `bind_eq_ok`, `bind_eq_error`, `tryCatch_eq_ok`, ... say what the parts of a
  program did when the whole returned or threw. A run of a long program is taken apart with
  them step by step.
* *Frames*: `Keeps R x` says that every run of `x`, whatever its outcome, ends in a state that is
  `R`-related to the one it started in. For a reflexive and transitive `R` this is preserved by
  all the ways of combining programs (`Frame.keeps_bind`, `Frame.keeps_tryCatch`, ...), so it has
  to be looked at only where the state is really changed.
-/

namespace Exec

variable {ε σ α β : Type}

/-- The state a run of `x` from `s` leaves behind, whether it returns or throws. -/
def final (x : EStateM ε σ α) (s : σ) : σ :=
  match x s with
  | .ok _ s' => s'
  | .error _ s' => s'

/-- The exception a run of `x` from `s` ends with. -/
def thrown (x : EStateM ε σ α) (s : σ) : Option ε :=
  match x s with
  | .ok _ _ => none
  | .error e _ => some e

/-- Throw `e` unless `p` holds. -/
def assert (e : ε) (p : Prop) [Decidable p] : EStateM ε σ Unit :=
  if p then pure () else throw e

/-- Change the state. -/
def update (g : σ → σ) : EStateM ε σ Unit :=
  fun s => .ok () (g s)

/-- Lift the outcome of a pure function that may fail. -/
def lift : Except ε α → EStateM ε σ α
  | .ok a => pure a
  | .error e => throw e

/-- Fail with `e` unless `p` holds. -/
def check (e : ε) (p : Prop) [Decidable p] : Except ε Unit :=
  if p then .ok () else .error e

/-- The value, or throw `e` if there is none. -/
def require (e : ε) : Option α → EStateM ε σ α
  | some a => pure a
  | none => throw e

theorem final_of_ok {x : EStateM ε σ α} {s s' : σ} {a : α} (h : x s = .ok a s') :
    final x s = s' := by
  simp only [final, h]

/-- What a computation that returns has computed, from its value alone. -/
theorem ok_final_of_run' {x : EStateM ε σ α} {s : σ} {a : α} (h : x.run' s = some a) :
    x s = .ok a (final x s) := by
  delta EStateM.run' EStateM.run at h
  unfold final
  cases hx : x s with
  | ok b s' =>
    rw [hx] at h
    rw [Option.some.inj h]
  | error e s' =>
    rw [hx] at h
    cases h

theorem error_final_of_thrown {x : EStateM ε σ α} {s : σ} {e : ε} (h : thrown x s = some e) :
    x s = .error e (final x s) := by
  unfold thrown at h
  unfold final
  cases hx : x s with
  | ok a s' =>
    rw [hx] at h
    cases h
  | error e' s' =>
    rw [hx] at h
    rw [Option.some.inj h]

theorem final_of_error {x : EStateM ε σ α} {s s' : σ} {e : ε} (h : x s = .error e s') :
    final x s = s' := by
  simp only [final, h]

/-! ### Inversion -/

section Inversion

variable {x : EStateM ε σ α} {f : α → EStateM ε σ β} {s s' : σ} {a : α} {b : β} {e : ε}

theorem pure_apply (a : α) (s : σ) : (pure a : EStateM ε σ α) s = .ok a s := rfl

theorem throw_apply (e : ε) (s : σ) : (throw e : EStateM ε σ α) s = .error e s := rfl

theorem bind_apply (x : EStateM ε σ α) (f : α → EStateM ε σ β) (s : σ) :
    (x >>= f) s = match x s with
      | .ok a s' => f a s'
      | .error e s' => .error e s' := rfl

theorem bind_eq_ok : (x >>= f) s = .ok b s' ↔ ∃ a s₁, x s = .ok a s₁ ∧ f a s₁ = .ok b s' := by
  rw [bind_apply]
  cases hx : x s with
  | ok a s₁ =>
    refine ⟨fun h => ⟨a, s₁, rfl, h⟩, ?_⟩
    rintro ⟨a', s₂, heq, h⟩
    cases heq
    exact h
  | error e s₁ =>
    refine ⟨fun h => (by cases h), ?_⟩
    rintro ⟨a', s₂, heq, -⟩
    cases heq

theorem bind_eq_error : (x >>= f) s = .error e s' ↔
    x s = .error e s' ∨ ∃ a s₁, x s = .ok a s₁ ∧ f a s₁ = .error e s' := by
  rw [bind_apply]
  cases hx : x s with
  | ok a s₁ =>
    refine ⟨fun h => .inr ⟨a, s₁, rfl, h⟩, ?_⟩
    rintro (h | ⟨a', s₂, heq, h⟩)
    · cases h
    · cases heq
      exact h
  | error e' s₁ =>
    constructor
    · intro h
      cases h
      exact .inl rfl
    · rintro (h | ⟨a', s₂, heq, -⟩)
      · cases h
        rfl
      · cases heq

theorem final_bind_of_ok (h : x s = .ok a s') : final (x >>= f) s = final (f a) s' := by
  unfold final
  rw [bind_apply, h]

theorem thrown_eq_none : thrown x s = none ↔ ∃ a s', x s = .ok a s' := by
  unfold thrown
  cases x s with
  | ok a s' => simp
  | error e s' => simp

theorem tryCatch_apply (x : EStateM ε σ α) (handle : ε → EStateM ε σ α) (s : σ) :
    (tryCatch x handle) s = match x s with
      | .ok a s' => .ok a s'
      | .error e s' => handle e s' := by
  change EStateM.tryCatch x handle s = _
  unfold EStateM.tryCatch
  cases x s with
  | ok a s' => rfl
  | error e s' => rfl

theorem tryCatch_eq_ok {handle : ε → EStateM ε σ α} : (tryCatch x handle) s = .ok a s' ↔
    x s = .ok a s' ∨ ∃ e s₁, x s = .error e s₁ ∧ handle e s₁ = .ok a s' := by
  rw [tryCatch_apply]
  cases hx : x s with
  | ok a s₁ => simp
  | error e s₁ => simp

theorem tryCatch_eq_error {handle : ε → EStateM ε σ α} : (tryCatch x handle) s = .error e s' ↔
    ∃ e₁ s₁, x s = .error e₁ s₁ ∧ handle e₁ s₁ = .error e s' := by
  rw [tryCatch_apply]
  cases hx : x s with
  | ok a s₁ => simp
  | error e s₁ => simp

theorem assert_eq_ok {p : Prop} [Decidable p] {u : Unit} :
    (assert e p : EStateM ε σ Unit) s = .ok u s' ↔ p ∧ s' = s := by
  unfold assert
  split
  · next hp => simp [pure_apply, hp, eq_comm]
  · next hp => simp [throw_apply, hp]

theorem get_bind (f : σ → EStateM ε σ β) (s : σ) : (get >>= f) s = f s s := rfl

theorem update_bind (g : σ → σ) (f : Unit → EStateM ε σ β) (s : σ) :
    (update g >>= f) s = f () (g s) := rfl

theorem pure_bind_apply (a : α) (f : α → EStateM ε σ β) (s : σ) : (pure a >>= f) s = f a s := rfl

theorem assert_bind_eq_ok {p : Prop} [Decidable p] {f : Unit → EStateM ε σ β} :
    (assert e p >>= f) s = .ok b s' ↔ p ∧ f () s = .ok b s' := by
  unfold assert
  split
  · next hp => simp [pure_bind_apply, hp]
  · next hp => simp [bind_apply, throw_apply, hp]

theorem assert_bind_eq_error {p : Prop} [Decidable p] {f : Unit → EStateM ε σ β} {e' : ε} :
    (assert e p >>= f) s = .error e' s' ↔
      (¬ p ∧ e' = e ∧ s' = s) ∨ (p ∧ f () s = .error e' s') := by
  unfold assert
  split
  · next hp => simp [pure_bind_apply, hp]
  · next hp => simp [bind_apply, throw_apply, hp, eq_comm]

theorem assert_congr {p q : Prop} [Decidable p] [Decidable q] (h : p ↔ q) :
    (assert e p : EStateM ε σ Unit) = assert e q :=
  if_congr h rfl rfl

/-- Two checks that throw the same are one. -/
theorem assert_bind_assert {p q : Prop} [Decidable p] [Decidable q] {f : Unit → EStateM ε σ β} :
    (assert e p >>= fun _ => assert e q >>= f) = (assert e (p ∧ q) >>= f) := by
  unfold assert
  by_cases hp : p
  · rw [if_pos hp, pure_bind, if_congr (and_iff_right hp) rfl rfl]
  · have hpq : ¬ (p ∧ q) := fun h => hp h.1
    rw [if_neg hp, if_neg hpq]
    rfl

theorem lift_bind_eq_ok {r : Except ε α} :
    (lift r >>= f) s = .ok b s' ↔ ∃ a, r = .ok a ∧ f a s = .ok b s' := by
  cases r with
  | ok a => simp [lift, pure_bind_apply]
  | error e => simp [lift, bind_apply, throw_apply]

theorem lift_bind_eq_error {r : Except ε α} : (lift r >>= f) s = .error e s' ↔
    (r = .error e ∧ s' = s) ∨ ∃ a, r = .ok a ∧ f a s = .error e s' := by
  cases r with
  | ok a => simp [lift, pure_bind_apply]
  | error e => simp [lift, bind_apply, throw_apply, eq_comm]

theorem except_bind_eq_ok {r : Except ε α} {g : α → Except ε β} :
    (r >>= g) = .ok b ↔ ∃ a, r = .ok a ∧ g a = .ok b := by
  cases r with
  | ok a => simp [bind, Except.bind]
  | error e => simp [bind, Except.bind]

theorem check_bind_eq_ok {p : Prop} [Decidable p] {g : Unit → Except ε β} :
    (check e p >>= g) = .ok b ↔ p ∧ g () = .ok b := by
  unfold check
  split
  · next hp => simp [hp, bind, Except.bind]
  · next hp => simp [hp, bind, Except.bind]

theorem check_eq_ok {p : Prop} [Decidable p] : check e p = .ok () ↔ p := by
  unfold check
  split
  · next hp => simp [hp]
  · next hp => simp [hp]

theorem require_bind_eq_ok {o : Option α} :
    (require e o >>= f) s = .ok b s' ↔ ∃ a, o = some a ∧ f a s = .ok b s' := by
  cases o with
  | none => simp [require, bind_apply, throw_apply]
  | some a => simp [require, pure_bind_apply]

/-- The first part only reads the state. -/
theorem bind_eq_ok_of_read (hx : ∀ {a s₁}, x s = .ok a s₁ → s₁ = s)
    (h : (x >>= f) s = .ok b s') : ∃ a, x s = .ok a s ∧ f a s = .ok b s' := by
  obtain ⟨a, s₁, ha, h⟩ := bind_eq_ok.mp h
  cases hx ha
  exact ⟨a, ha, h⟩

theorem update_bind_eq_ok {g : σ → σ} {f : Unit → EStateM ε σ β} :
    (update g >>= f) s = .ok b s' ↔ f () (g s) = .ok b s' := by
  rw [update_bind]

theorem pure_eq_ok {a' : α} : (pure a : EStateM ε σ α) s = .ok a' s' ↔ a = a' ∧ s = s' := by
  simp [pure_apply]

theorem update_eq_ok {g : σ → σ} {u : Unit} :
    (update g : EStateM ε σ Unit) s = .ok u s' ↔ s' = g s := by
  simp [update, eq_comm]

end Inversion

/-! ### Frames -/

/-- Every run of `x` ends in a state related to the one it started in. -/
def Keeps (R : σ → σ → Prop) (x : EStateM ε σ α) : Prop :=
  ∀ s, R s (final x s)

/-- The relations that can be passed along a program. -/
structure Frame (R : σ → σ → Prop) : Prop where
  refl : ∀ s, R s s
  trans : ∀ {s₁ s₂ s₃}, R s₁ s₂ → R s₂ s₃ → R s₁ s₃

theorem Keeps.of_ok {R : σ → σ → Prop} {x : EStateM ε σ α} (h : Keeps R x) {s s' : σ} {a : α}
    (hx : x s = .ok a s') : R s s' := by
  have := h s
  rwa [final_of_ok hx] at this

theorem Keeps.of_error {R : σ → σ → Prop} {x : EStateM ε σ α} (h : Keeps R x) {s s' : σ} {e : ε}
    (hx : x s = .error e s') : R s s' := by
  have := h s
  rwa [final_of_error hx] at this

/-- Equality of a part of the state is a frame. -/
theorem Frame.eq {τ : Type} (π : σ → τ) : Frame fun s s' => π s' = π s where
  refl _ := rfl
  trans h₁ h₂ := h₂.trans h₁

section Rules

variable {R : σ → σ → Prop} (hR : Frame R)
include hR

theorem Frame.keeps_pure (a : α) : Keeps R (pure a : EStateM ε σ α) :=
  fun s => hR.refl s

theorem Frame.keeps_throw (e : ε) : Keeps R (throw e : EStateM ε σ α) :=
  fun s => hR.refl s

theorem Frame.keeps_get : Keeps R (get : EStateM ε σ σ) :=
  fun s => hR.refl s

theorem Frame.keeps_assert (e : ε) (p : Prop) [Decidable p] :
    Keeps R (assert e p : EStateM ε σ Unit) := by
  unfold assert
  split
  · exact hR.keeps_pure ()
  · exact hR.keeps_throw e

theorem Frame.keeps_require (e : ε) (o : Option α) : Keeps R (require e o : EStateM ε σ α) := by
  cases o with
  | some a => exact hR.keeps_pure a
  | none => exact hR.keeps_throw e

theorem Frame.keeps_lift (r : Except ε α) : Keeps R (lift r : EStateM ε σ α) := by
  cases r with
  | ok a => exact hR.keeps_pure a
  | error e => exact hR.keeps_throw e

theorem Frame.keeps_bind {x : EStateM ε σ α} {f : α → EStateM ε σ β} (hx : Keeps R x)
    (hf : ∀ a, Keeps R (f a)) : Keeps R (x >>= f) := by
  intro s
  unfold final
  rw [bind_apply]
  cases h : x s with
  | ok a s₁ => exact hR.trans (hx.of_ok h) (hf a s₁)
  | error e s₁ => exact hx.of_error h

theorem Frame.keeps_tryCatch {x : EStateM ε σ α} {handle : ε → EStateM ε σ α} (hx : Keeps R x)
    (hh : ∀ e, Keeps R (handle e)) : Keeps R (tryCatch x handle) := by
  intro s
  unfold final
  rw [tryCatch_apply]
  cases h : x s with
  | ok a s₁ => exact hx.of_ok h
  | error e s₁ => exact hR.trans (hx.of_error h) (hh e s₁)

theorem Frame.keeps_forM {γ : Type} {f : γ → EStateM ε σ PUnit} (hf : ∀ c, Keeps R (f c))
    (l : List γ) : Keeps R (l.forM f) := by
  induction l with
  | nil => exact hR.keeps_pure _
  | cons c l ih =>
    change Keeps R (f c >>= fun _ => l.forM f)
    exact hR.keeps_bind (hf c) fun _ => ih

end Rules

theorem keeps_update {R : σ → σ → Prop} {g : σ → σ} (h : ∀ s, R s (g s)) :
    Keeps R (update g : EStateM ε σ Unit) :=
  fun s => h s

/-- Every run of `x` that returns ends in a state related to the one it started in. -/
def KeepsOk (R : σ → σ → Prop) (x : EStateM ε σ α) : Prop :=
  ∀ s a s', x s = .ok a s' → R s s'

theorem Keeps.keepsOk {R : σ → σ → Prop} {x : EStateM ε σ α} (h : Keeps R x) : KeepsOk R x :=
  fun _ _ _ hx => h.of_ok hx

theorem Frame.keepsOk_bind {R : σ → σ → Prop} (hR : Frame R) {x : EStateM ε σ α}
    {f : α → EStateM ε σ β} (hx : KeepsOk R x) (hf : ∀ a, KeepsOk R (f a)) : KeepsOk R (x >>= f) := by
  intro s b s' h
  obtain ⟨a, s₁, hfirst, hrest⟩ := bind_eq_ok.mp h
  exact hR.trans (hx s a s₁ hfirst) (hf a s₁ b s' hrest)

theorem keepsOk_update {R : σ → σ → Prop} {g : σ → σ} (h : ∀ s, R s (g s)) :
    KeepsOk R (update g : EStateM ε σ Unit) := (keeps_update h).keepsOk

theorem Frame.keepsOk_get {R : σ → σ → Prop} (hR : Frame R) :
    KeepsOk R (get : EStateM ε σ σ) := hR.keeps_get.keepsOk

theorem Frame.keepsOk_assert {R : σ → σ → Prop} (hR : Frame R) (e : ε) (p : Prop) [Decidable p] :
    KeepsOk R (assert e p : EStateM ε σ Unit) := (hR.keeps_assert e p).keepsOk

theorem Frame.keepsOk_require {R : σ → σ → Prop} (hR : Frame R) (e : ε) (o : Option α) :
    KeepsOk R (require e o : EStateM ε σ α) := (hR.keeps_require e o).keepsOk

theorem Frame.keepsOk_lift {R : σ → σ → Prop} (hR : Frame R) (r : Except ε α) :
    KeepsOk R (lift r : EStateM ε σ α) := (hR.keeps_lift r).keepsOk

theorem Frame.keepsOk_pure {R : σ → σ → Prop} (hR : Frame R) (a : α) :
    KeepsOk R (pure a : EStateM ε σ α) := (hR.keeps_pure a).keepsOk

section Sequences

variable {R : σ → σ → Prop} (hR : Frame R) {f : α → EStateM ε σ β}
include hR

theorem Frame.keepsOk_get_bind {f : σ → EStateM ε σ β} (hf : ∀ s, KeepsOk R (f s)) :
    KeepsOk R (get >>= f) :=
  hR.keepsOk_bind hR.keepsOk_get hf

theorem Frame.keepsOk_assert_bind {e : ε} {p : Prop} [Decidable p] {f : Unit → EStateM ε σ β}
    (hf : KeepsOk R (f ())) : KeepsOk R (assert e p >>= f) :=
  hR.keepsOk_bind (hR.keepsOk_assert e p) fun _ => hf

theorem Frame.keepsOk_require_bind {e : ε} {o : Option α} (hf : ∀ a, KeepsOk R (f a)) :
    KeepsOk R (require e o >>= f) :=
  hR.keepsOk_bind (hR.keepsOk_require e o) hf

theorem Frame.keepsOk_lift_bind {r : Except ε α} (hf : ∀ a, KeepsOk R (f a)) :
    KeepsOk R (lift r >>= f) :=
  hR.keepsOk_bind (hR.keepsOk_lift r) hf

end Sequences

theorem keepsOk_ite {R : σ → σ → Prop} {p : Prop} [Decidable p] {x y : EStateM ε σ α}
    (hx : KeepsOk R x) (hy : KeepsOk R y) : KeepsOk R (if p then x else y) := by
  split
  · exact hx
  · exact hy

theorem Frame.keepsOk_forM_of_mem {R : σ → σ → Prop} (hR : Frame R) {γ : Type}
    {f : γ → EStateM ε σ PUnit} {l : List γ} (hf : ∀ c ∈ l, KeepsOk R (f c)) :
    KeepsOk R (l.forM f) := by
  induction l with
  | nil => exact hR.keepsOk_pure _
  | cons c l ih =>
    change KeepsOk R (f c >>= fun _ => l.forM f)
    exact hR.keepsOk_bind (hf c List.mem_cons_self) fun _ =>
      ih fun c' hc' => hf c' (List.mem_cons_of_mem c hc')

theorem Frame.keepsOk_forM {R : σ → σ → Prop} (hR : Frame R) {γ : Type}
    {f : γ → EStateM ε σ PUnit} (hf : ∀ c, KeepsOk R (f c)) (l : List γ) : KeepsOk R (l.forM f) :=
  hR.keepsOk_forM_of_mem fun c _ => hf c

/-! ### Properties of programs -/

/-- A property of programs that passes along the ways of combining them. -/
structure Passing (P : ∀ α : Type, EStateM ε σ α → Prop) : Prop where
  pure : ∀ {α : Type} (a : α), P α (pure a)
  throw : ∀ {α : Type} (e : ε), P α (throw e)
  get : P σ get
  bind : ∀ {α β : Type} {x : EStateM ε σ α} {f : α → EStateM ε σ β}, P α x → (∀ a, P β (f a)) →
    P β (x >>= f)

/-- What every run keeps, whatever its outcome. -/
theorem Frame.passing {R : σ → σ → Prop} (hR : Frame R) :
    Passing fun α (x : EStateM ε σ α) => Keeps R x where
  pure a := hR.keeps_pure a
  throw e := hR.keeps_throw e
  get := hR.keeps_get
  bind hx hf := hR.keeps_bind hx hf

/-- What every run keeps that returns. -/
theorem Frame.passingOk {R : σ → σ → Prop} (hR : Frame R) :
    Passing fun α (x : EStateM ε σ α) => KeepsOk R x where
  pure a := hR.keepsOk_pure a
  throw e := (hR.keeps_throw e).keepsOk
  get := hR.keepsOk_get
  bind hx hf := hR.keepsOk_bind hx hf

namespace Passing

variable {P : ∀ α : Type, EStateM ε σ α → Prop} (hP : Passing P) {f : α → EStateM ε σ β}
include hP

theorem assert (e : ε) (p : Prop) [Decidable p] : P Unit (assert e p) := by
  unfold Exec.assert
  split
  · exact hP.pure ()
  · exact hP.throw e

theorem require (e : ε) (o : Option α) : P α (require e o) := by
  cases o with
  | some a => exact hP.pure a
  | none => exact hP.throw e

theorem lift (r : Except ε α) : P α (lift r) := by
  cases r with
  | ok a => exact hP.pure a
  | error e => exact hP.throw e

theorem get_bind {f : σ → EStateM ε σ β} (hf : ∀ s, P β (f s)) : P β (MonadState.get >>= f) :=
  hP.bind hP.get hf

theorem assert_bind {e : ε} {p : Prop} [Decidable p] {f : Unit → EStateM ε σ β} (hf : P β (f ())) :
    P β (Exec.assert e p >>= f) :=
  hP.bind (hP.assert e p) fun _ => hf

theorem require_bind {e : ε} {o : Option α} (hf : ∀ a, P β (f a)) : P β (Exec.require e o >>= f) :=
  hP.bind (hP.require e o) hf

theorem lift_bind {r : Except ε α} (hf : ∀ a, P β (f a)) : P β (Exec.lift r >>= f) :=
  hP.bind (hP.lift r) hf

theorem ite {p : Prop} [Decidable p] {x y : EStateM ε σ α} (hx : P α x) (hy : P α y) :
    P α (if p then x else y) := by
  split
  · exact hx
  · exact hy

end Passing

/-! ### Exceptions -/

/-- Every exception `x` throws is of the given kind. -/
def Raises (E : ε → Prop) (x : EStateM ε σ α) : Prop :=
  ∀ s e s', x s = .error e s' → E e

section Raises

variable {E : ε → Prop}

theorem raises_pure (a : α) : Raises E (pure a : EStateM ε σ α) := by
  intro s e s' h
  cases h

theorem raises_throw {e : ε} (he : E e) : Raises E (throw e : EStateM ε σ α) := by
  intro s e' s' h
  cases h
  exact he

theorem raises_get : Raises E (get : EStateM ε σ σ) := by
  intro s e s' h
  cases h

theorem raises_update (g : σ → σ) : Raises E (update g : EStateM ε σ Unit) := by
  intro s e s' h
  cases h

theorem raises_assert {e : ε} (he : E e) (p : Prop) [Decidable p] :
    Raises E (assert e p : EStateM ε σ Unit) := by
  unfold assert
  split
  · exact raises_pure ()
  · exact raises_throw he

theorem raises_lift {r : Except ε α} (hr : ∀ e, r = .error e → E e) :
    Raises E (lift r : EStateM ε σ α) := by
  cases r with
  | ok a => exact raises_pure a
  | error e => exact raises_throw (hr e rfl)

theorem raises_require {e : ε} (he : E e) (o : Option α) :
    Raises E (require e o : EStateM ε σ α) := by
  cases o with
  | none => exact raises_throw he
  | some a => exact raises_pure a

theorem raises_bind {x : EStateM ε σ α} {f : α → EStateM ε σ β} (hx : Raises E x)
    (hf : ∀ a, Raises E (f a)) : Raises E (x >>= f) := by
  intro s e s' h
  rcases bind_eq_error.mp h with h | ⟨a, s₁, -, h⟩
  · exact hx s e s' h
  · exact hf a s₁ e s' h

/-- A handler only sees exceptions of the kind its body throws. -/
theorem raises_tryCatch {x : EStateM ε σ α} {handle : ε → EStateM ε σ α} (hx : Raises E x)
    (hh : ∀ e, E e → Raises E (handle e)) : Raises E (tryCatch x handle) := by
  intro s e s' h
  obtain ⟨e₁, s₁, hthrow, h⟩ := tryCatch_eq_error.mp h
  exact hh e₁ (hx s e₁ s₁ hthrow) s₁ e s' h

theorem raises_forM_of_mem {γ : Type} {f : γ → EStateM ε σ PUnit} {l : List γ}
    (hf : ∀ c ∈ l, Raises E (f c)) : Raises E (l.forM f) := by
  induction l with
  | nil => exact raises_pure _
  | cons c l ih =>
    change Raises E (f c >>= fun _ => l.forM f)
    exact raises_bind (hf c List.mem_cons_self) fun _ => ih fun c' hc' => hf c' (List.mem_cons_of_mem c hc')

theorem raises_forM {γ : Type} {f : γ → EStateM ε σ PUnit} (hf : ∀ c, Raises E (f c))
    (l : List γ) : Raises E (l.forM f) :=
  raises_forM_of_mem fun c _ => hf c

end Raises

/-- An exception of the given kind leaves the state as it was: it is thrown before any change. -/
def LeavesAt (E : ε → Prop) (x : EStateM ε σ α) : Prop :=
  ∀ s e s', x s = .error e s' → E e → s' = s

section LeavesAt

variable {E : ε → Prop}

theorem leavesAt_of_raises {x : EStateM ε σ α} (h : Raises (fun e => ¬ E e) x) : LeavesAt E x :=
  fun s e s' hx he => absurd he (h s e s' hx)

theorem leavesAt_bind {x : EStateM ε σ α} {f : α → EStateM ε σ β}
    (hx : Keeps (fun s s' => s' = s) x) (hf : ∀ a, LeavesAt E (f a)) : LeavesAt E (x >>= f) := by
  intro s e s' h he
  rcases bind_eq_error.mp h with h | ⟨a, s₁, hok, h⟩
  · exact hx.of_error h
  · have hread : s₁ = s := hx.of_ok hok
    rw [hread] at h
    exact hf a s e s' h he

end LeavesAt

end Exec
