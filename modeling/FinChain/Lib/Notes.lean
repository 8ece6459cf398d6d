import FinChain.Lib.Exec

/-!
# History variables

A program that keeps a record of what it does has a list of notes beside its state. No step of the program
reads the notes, so without them it is the program it was before (`Erases`), and the notes are a
property of its runs. `silent` makes a program out of one that takes no notes, and `note` takes one.

What the notes of a run are like follows from the parts of the program: `Adds x s P` says that the notes
that a run of `x` from `s` takes are as `P` says, whatever was noted before. For a property that passes
to what two programs note one after the other (`Joins`) there is a rule for each way to compose
programs.
-/

namespace Exec

/-- A state, and what has been noted so far, the newest first. -/
structure Recorded (σ ι : Type) where
  state : σ
  notes : List ι

variable {ε σ ι α β : Type}

/-- A program that takes no notes. -/
def silent (x : EStateM ε σ α) : EStateM ε (Recorded σ ι) α := fun r =>
  match x r.state with
  | .ok a s' => .ok a ⟨s', r.notes⟩
  | .error e s' => .error e ⟨s', r.notes⟩

/-- Take a note. -/
def note (i : ι) : EStateM ε (Recorded σ ι) Unit :=
  update fun r => { r with notes := i :: r.notes }

/-- The result of a run without the notes. -/
def forget : EStateM.Result ε (Recorded σ ι) α → EStateM.Result ε σ α
  | .ok a r => .ok a r.state
  | .error e r => .error e r.state

/-- Without the notes, `x` is `y`. -/
def Erases (x : EStateM ε (Recorded σ ι) α) (y : EStateM ε σ α) : Prop :=
  ∀ r, forget (x r) = y r.state

/-! ### Without the notes -/

section Erases

variable {x : EStateM ε (Recorded σ ι) α} {y : EStateM ε σ α}

theorem silent_eq_ok {a : α} {r r' : Recorded σ ι} :
    silent y r = .ok a r' ↔ y r.state = .ok a r'.state ∧ r'.notes = r.notes := by
  unfold silent
  cases hy : y r.state with
  | ok b s' =>
    constructor
    · intro h
      cases h
      exact ⟨rfl, rfl⟩
    · rintro ⟨h, hnotes⟩
      cases h
      rw [← hnotes]
  | error e s' =>
    constructor
    · intro h
      cases h
    · rintro ⟨h, -⟩
      cases h

section Inversion

variable {b : β} {r r' : Recorded σ ι}

theorem silent_bind_eq_ok {f : α → EStateM ε (Recorded σ ι) β} : (silent y >>= f) r = .ok b r' ↔
    ∃ a s₁, y r.state = .ok a s₁ ∧ f a ⟨s₁, r.notes⟩ = .ok b r' := by
  rw [bind_eq_ok]
  constructor
  · rintro ⟨a, ⟨s₁, notes₁⟩, hy, hf⟩
    obtain ⟨hstate, hnotes⟩ := silent_eq_ok.mp hy
    obtain rfl : notes₁ = r.notes := hnotes
    exact ⟨a, s₁, hstate, hf⟩
  · rintro ⟨a, s₁, hy, hf⟩
    exact ⟨a, ⟨s₁, r.notes⟩, silent_eq_ok.mpr ⟨hy, rfl⟩, hf⟩

theorem silent_require_bind_eq_ok {e : ε} {o : Option α} {f : α → EStateM ε (Recorded σ ι) β} :
    (silent (require e o) >>= f) r = .ok b r' ↔ ∃ a, o = some a ∧ f a r = .ok b r' := by
  rw [silent_bind_eq_ok]
  cases o with
  | none => simp [require, throw_apply]
  | some a => simp [require, pure_apply]

theorem silent_lift_bind_eq_ok {o : Except ε α} {f : α → EStateM ε (Recorded σ ι) β} :
    (silent (lift o) >>= f) r = .ok b r' ↔ ∃ a, o = .ok a ∧ f a r = .ok b r' := by
  rw [silent_bind_eq_ok]
  cases o with
  | error e => simp [lift, throw_apply]
  | ok a => simp [lift, pure_apply]

theorem silent_get_bind {f : σ → EStateM ε (Recorded σ ι) β} : (silent get >>= f) r = f r.state r := rfl

theorem note_bind {i : ι} {f : Unit → EStateM ε (Recorded σ ι) β} :
    (note i >>= f) r = f () ⟨r.state, i :: r.notes⟩ := rfl

end Inversion

theorem erases_silent (y : EStateM ε σ α) : Erases (silent y : EStateM ε (Recorded σ ι) α) y := by
  intro r
  unfold silent
  cases y r.state with
  | ok a s' => rfl
  | error e s' => rfl

theorem erases_pure (a : α) : Erases (pure a : EStateM ε (Recorded σ ι) α) (pure a) := fun _ => rfl

theorem Erases.bind {f : α → EStateM ε (Recorded σ ι) β} {g : α → EStateM ε σ β} (hx : Erases x y)
    (hf : ∀ a, Erases (f a) (g a)) : Erases (x >>= f) (y >>= g) := by
  intro r
  rw [bind_apply, bind_apply, ← hx r]
  cases x r with
  | ok a r' => exact hf a r'
  | error e r' => rfl

theorem erases_silent_bind {f : α → EStateM ε (Recorded σ ι) β} {g : α → EStateM ε σ β}
    (hf : ∀ a, Erases (f a) (g a)) : Erases (silent y >>= f) (y >>= g) :=
  (erases_silent y).bind hf

theorem erases_note_bind {i : ι} {f : Unit → EStateM ε (Recorded σ ι) α} (hf : Erases (f ()) y) :
    Erases (note i >>= f) y :=
  fun r => hf { r with notes := i :: r.notes }

theorem erases_ite {p : Prop} [Decidable p] {x' : EStateM ε (Recorded σ ι) α} {y' : EStateM ε σ α}
    (h : Erases x y) (h' : Erases x' y') :
    Erases (if p then x else x') (if p then y else y') := by
  split
  · exact h
  · exact h'

theorem Erases.ok {a : α} {r r' : Recorded σ ι} (h : Erases x y) (hx : x r = .ok a r') :
    y r.state = .ok a r'.state := by
  rw [← h r, hx]
  rfl

/-- A run can be noted. -/
theorem Erases.exists_ok {a : α} {s s' : σ} (h : Erases x y) (hy : y s = .ok a s') (notes : List ι) :
    ∃ notes', x ⟨s, notes⟩ = .ok a ⟨s', notes'⟩ := by
  have heq := h ⟨s, notes⟩
  rw [show y (⟨s, notes⟩ : Recorded σ ι).state = .ok a s' from hy] at heq
  cases hx : x ⟨s, notes⟩ with
  | ok b r =>
    rw [hx] at heq
    cases heq
    exact ⟨r.notes, rfl⟩
  | error e r =>
    rw [hx] at heq
    cases heq

end Erases

/-! ### What is noted -/

section Adds

/-- What a run of `x` from `s` notes. -/
def Adds (x : EStateM ε (Recorded σ ι) α) (s : σ) (P : List ι → Prop) : Prop :=
  ∀ notes a r, x ⟨s, notes⟩ = .ok a r → ∃ new, r.notes = new ++ notes ∧ P new

/-- A property that passes to what is noted one after the other. -/
structure Joins (P : List ι → Prop) : Prop where
  nil : P []
  append : ∀ {l l'}, P l → P l' → P (l ++ l')

variable {x : EStateM ε (Recorded σ ι) α} {y : EStateM ε σ α} {s : σ} {P : List ι → Prop}

theorem adds_silent (h : P []) : Adds (silent y) s P := by
  intro notes a r hy
  exact ⟨[], (silent_eq_ok.mp hy).2, h⟩

theorem adds_pure (h : P []) (a : α) : Adds (pure a : EStateM ε (Recorded σ ι) α) s P := by
  intro notes b r hr
  obtain ⟨-, rfl⟩ := pure_eq_ok.mp hr
  exact ⟨[], rfl, h⟩

/-- What is noted next comes before what was noted. -/
theorem adds_note_bind {i : ι} {f : Unit → EStateM ε (Recorded σ ι) α}
    (h : Adds (f ()) s fun new => P (new ++ [i])) : Adds (note i >>= f) s P := by
  intro notes a r hr
  obtain ⟨new, hnotes, hnew⟩ := h (i :: notes) a r hr
  exact ⟨new ++ [i], by rw [hnotes, List.append_assoc]; rfl, hnew⟩

theorem adds_silent_bind {f : α → EStateM ε (Recorded σ ι) β}
    (hf : ∀ a s', y s = .ok a s' → Adds (f a) s' P) : Adds (silent y >>= f) s P := by
  intro notes b r h
  obtain ⟨a, ⟨s₁, notes₁⟩, hfirst, hrest⟩ := bind_eq_ok.mp h
  obtain ⟨hy, hnotes⟩ := silent_eq_ok.mp hfirst
  obtain rfl : notes₁ = notes := hnotes
  exact hf a s₁ hy notes₁ b r hrest

section Read

variable {f : α → EStateM ε (Recorded σ ι) β}

theorem adds_get_bind {f : σ → EStateM ε (Recorded σ ι) β} (hf : Adds (f s) s P) :
    Adds (silent get >>= f) s P := by
  refine adds_silent_bind fun a s' h => ?_
  cases h
  exact hf

theorem adds_require_bind {e : ε} {o : Option α} (hf : ∀ a, o = some a → Adds (f a) s P) :
    Adds (silent (require e o) >>= f) s P := by
  refine adds_silent_bind fun a s' h => ?_
  cases o with
  | none => cases h
  | some a' =>
    obtain ⟨rfl, rfl⟩ := pure_eq_ok.mp h
    exact hf a' rfl

theorem adds_lift_bind {o : Except ε α} (hf : ∀ a, o = .ok a → Adds (f a) s P) :
    Adds (silent (lift o) >>= f) s P := by
  refine adds_silent_bind fun a s' h => ?_
  cases o with
  | error e => cases h
  | ok a' =>
    obtain ⟨rfl, rfl⟩ := pure_eq_ok.mp h
    exact hf a' rfl

theorem adds_assert_bind {e : ε} {p : Prop} [Decidable p] {f : Unit → EStateM ε (Recorded σ ι) β}
    (hf : p → Adds (f ()) s P) : Adds (silent (assert e p) >>= f) s P := by
  refine adds_silent_bind fun a s' h => ?_
  obtain ⟨hp, rfl⟩ := assert_eq_ok.mp h
  exact hf hp

end Read

theorem Joins.bind (hP : Joins P) {f : α → EStateM ε (Recorded σ ι) β} (hxy : Erases x y)
    (hx : Adds x s P) (hf : ∀ a s', y s = .ok a s' → Adds (f a) s' P) : Adds (x >>= f) s P := by
  intro notes b r h
  obtain ⟨a, ⟨s₁, notes₁⟩, hx₁, h⟩ := bind_eq_ok.mp h
  obtain ⟨new, rfl, hnew⟩ := hx notes a _ hx₁
  obtain ⟨new', hnotes, hnew'⟩ := hf a s₁ (hxy.ok hx₁) _ b r h
  exact ⟨new' ++ new, by rw [hnotes, List.append_assoc], hP.append hnew' hnew⟩

theorem Adds.ite {p : Prop} [Decidable p] {x' : EStateM ε (Recorded σ ι) α} (h : p → Adds x s P)
    (h' : ¬ p → Adds x' s P) : Adds (if p then x else x') s P := by
  by_cases hp : p
  · rw [if_pos hp]
    exact h hp
  · rw [if_neg hp]
    exact h' hp

end Adds

end Exec
