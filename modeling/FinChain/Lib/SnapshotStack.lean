import Mathlib.Data.List.Basic

/-!
# A stack of snapshots

The abstract account of nested, undoable sessions over an arbitrary state type `σ`: opening a
session saves a copy of the current state, undoing it brings the copy back, merging it forgets
the copy and keeps the changes. Committing ends a session without forgetting its copy, which
`popCommit` can still bring back later. The newest copy is the head of `saved`.

Opening a session first drops the oldest copies beyond `maxSize`; nothing here relates that
bound to the number of sessions still open.

The main result is `run_nested`: over a run of events that opens and closes its own sessions in
a well-nested way, the copies saved before the run are untouched, so the copy a session saved
when it was opened is the one found when it is closed.
-/

universe u

/-- A state, the copies saved by its sessions (newest first), the number of sessions that are
still open and the bound on the number of copies. -/
structure SnapshotStack (σ : Type u) where
  current : σ
  saved : List σ
  active : ℕ
  maxSize : ℕ

namespace SnapshotStack

variable {σ : Type u}

/-- Open a session. -/
def start (a : SnapshotStack σ) : SnapshotStack σ :=
  { a with saved := a.current :: a.saved.take a.maxSize, active := a.active + 1 }

/-- Change the state. Without any copy to fall back on, the state before the change is saved. -/
def change (a : SnapshotStack σ) (s : σ) : SnapshotStack σ :=
  match a.saved with
  | [] => { a with current := s, saved := [a.current] }
  | _ :: _ => { a with current := s }

/-- Undo the innermost open session. -/
def undo (a : SnapshotStack σ) : Option (SnapshotStack σ) :=
  match a.saved with
  | [] => none
  | s :: ss =>
    if a.active = 0 then none
    else some { a with current := s, saved := ss, active := a.active - 1 }

/-- Merge the innermost open session into the one around it. A session whose copy is the only
one can be merged only when no other session is open. -/
def merge (a : SnapshotStack σ) : Option (SnapshotStack σ) :=
  match a.saved with
  | [] => none
  | [_] => if a.active = 1 then some { a with saved := [], active := 0 } else none
  | _ :: s :: ss =>
    if a.active = 0 then none else some { a with saved := s :: ss, active := a.active - 1 }

/-- End the innermost open session, keeping its copy. -/
def commit (a : SnapshotStack σ) : Option (SnapshotStack σ) :=
  if a.active = 0 then none else some { a with active := a.active - 1 }

/-- Bring back the copy of the last committed session. -/
def popCommit (a : SnapshotStack σ) : Option (SnapshotStack σ) :=
  match a.saved with
  | [] => none
  | s :: ss => if a.active = 0 then some { a with current := s, saved := ss } else none

/-! ### Well-nested runs -/

/-- What an event does to the nesting of sessions. -/
inductive Bracket
  | opening
  | plain
  | closing
  deriving DecidableEq, Repr

/-- `nested k l`: read with `k` sessions open, `l` closes only sessions opened by itself or by
those `k`, and leaves none open. `nested 0 l` says that `l` is well nested. -/
def nested : ℕ → List Bracket → Bool
  | 0, [] => true
  | _ + 1, [] => false
  | k, .opening :: l => nested (k + 1) l
  | k, .plain :: l => nested k l
  | 0, .closing :: _ => false
  | k + 1, .closing :: l => nested k l

/-- A well-nested run can be put in front of any other. -/
theorem nested_append : ∀ {l₁ : List Bracket} {k : ℕ} (j : ℕ) (l₂ : List Bracket),
    nested k l₁ = true → nested (k + j) (l₁ ++ l₂) = nested j l₂
  | [], 0, j, l₂, _ => by rw [Nat.zero_add, List.nil_append]
  | [], _ + 1, _, _, h => absurd h (by simp [nested])
  | .opening :: l, k, j, l₂, h => by
    rw [List.cons_append, nested, Nat.add_right_comm]
    exact nested_append j l₂ (by rwa [nested] at h)
  | .plain :: l, k, j, l₂, h => by
    rw [List.cons_append, nested]
    exact nested_append j l₂ (by rwa [nested] at h)
  | .closing :: l, 0, _, _, h => absurd h (by simp [nested])
  | .closing :: l, k + 1, j, l₂, h => by
    rw [List.cons_append, Nat.add_right_comm, nested]
    exact nested_append j l₂ (by rwa [nested] at h)

/-- The events of a run. A change is labelled with the state it leads to. -/
inductive Event (σ : Type u)
  | start
  | change (s : σ)
  | merge
  | undo

/-- The nesting of an event. -/
def Event.bracket : Event σ → Bracket
  | .start => .opening
  | .change _ => .plain
  | .merge => .closing
  | .undo => .closing

/-- One event. -/
def step (a : SnapshotStack σ) : Event σ → Option (SnapshotStack σ)
  | .start => some a.start
  | .change s => some (a.change s)
  | .merge => a.merge
  | .undo => a.undo

/-- A run of events. -/
def run (a : SnapshotStack σ) : List (Event σ) → Option (SnapshotStack σ)
  | [] => some a
  | e :: l => (a.step e).bind fun a' => a'.run l

/-- No copy is dropped in the run: whenever a session is opened, the copies fit the bound. -/
def Untrimmed (a : SnapshotStack σ) : List (Event σ) → Prop
  | [] => True
  | e :: l => (e.bracket = .opening → a.saved.length ≤ a.maxSize) ∧
      ∀ a', a.step e = some a' → a'.Untrimmed l

theorem start_saved_of_le {a : SnapshotStack σ} (h : a.saved.length ≤ a.maxSize) :
    a.start.saved = a.current :: a.saved := by
  simp only [start, List.take_of_length_le h]

theorem change_saved_of_ne_nil {a : SnapshotStack σ} (h : a.saved ≠ []) (s : σ) :
    (a.change s).saved = a.saved := by
  cases hs : a.saved with
  | nil => exact absurd hs h
  | cons t ts => simp only [change, hs]

@[simp] theorem change_active (a : SnapshotStack σ) (s : σ) : (a.change s).active = a.active := by
  unfold change
  split <;> rfl

@[simp] theorem change_maxSize (a : SnapshotStack σ) (s : σ) :
    (a.change s).maxSize = a.maxSize := by
  unfold change
  split <;> rfl

@[simp] theorem change_current (a : SnapshotStack σ) (s : σ) : (a.change s).current = s := by
  unfold change
  split <;> rfl

theorem undo_of_saved {a : SnapshotStack σ} {s : σ} {ss : List σ} {n : ℕ} (hs : a.saved = s :: ss)
    (hn : a.active = n + 1) : a.undo = some { a with current := s, saved := ss, active := n } := by
  simp [undo, hs, hn]

theorem commit_of_active {a : SnapshotStack σ} {n : ℕ} (hn : a.active = n + 1) :
    a.commit = some { a with active := n } := by
  simp [commit, hn]

theorem popCommit_eq_some {a a' : SnapshotStack σ} (h : a.popCommit = some a') :
    a.saved = a'.current :: a'.saved ∧ a.active = 0 ∧ a'.active = 0 ∧ a'.maxSize = a.maxSize := by
  unfold popCommit at h
  split at h
  · cases h
  · next s ss hs =>
    split at h
    · next hact =>
      obtain rfl := Option.some.inj h
      exact ⟨hs, hact, hact, rfl⟩
    · cases h

/-- Closing a session drops the newest copy, whichever way it is closed. -/
theorem closing_saved {a a' : SnapshotStack σ} {e : Event σ} (he : e.bracket = .closing)
    (h : a.step e = some a') :
    (∃ s, a.saved = s :: a'.saved) ∧ a.active = a'.active + 1 ∧ a'.maxSize = a.maxSize := by
  cases e with
  | start => exact absurd he (by simp [Event.bracket])
  | change s => exact absurd he (by simp [Event.bracket])
  | merge =>
    simp only [step, merge] at h
    split at h
    · cases h
    · next s hs =>
      split at h
      · next hact =>
        obtain rfl := Option.some.inj h
        exact ⟨⟨s, hs⟩, hact, rfl⟩
      · cases h
    · next s t ts hs =>
      split at h
      · cases h
      · next hact =>
        obtain rfl := Option.some.inj h
        exact ⟨⟨s, hs⟩, by simp only; omega, rfl⟩
  | undo =>
    simp only [step, undo] at h
    split at h
    · cases h
    · next s ss hs =>
      split at h
      · cases h
      · next hact =>
        obtain rfl := Option.some.inj h
        exact ⟨⟨s, hs⟩, by simp only; omega, rfl⟩

/-- **Well-nested runs keep the copies below them.** A run read with `k` sessions open on top of
the copies `base`, and which leaves none of them open, ends with exactly the copies `base`. -/
theorem run_nested {base : List σ} (hbase : base ≠ []) :
    ∀ (l : List (Event σ)) (k n : ℕ) (top : List σ) (a a' : SnapshotStack σ),
      nested k (l.map Event.bracket) = true → a.run l = some a' → a.Untrimmed l →
      a.saved = top ++ base → top.length = k → a.active = n + k →
      a'.saved = base ∧ a'.active = n := by
  intro l
  induction l with
  | nil =>
    intro k n top a a' hnest hrun _ hsaved htop hact
    obtain rfl : a = a' := Option.some.inj hrun
    cases k with
    | zero =>
      obtain rfl : top = [] := List.length_eq_zero_iff.mp htop
      exact ⟨hsaved, hact⟩
    | succ k => exact absurd hnest (by simp [nested])
  | cons e l ih =>
    intro k n top a a' hnest hrun htrim hsaved htop hact
    obtain ⟨hfit, hrest⟩ := htrim
    -- the induction hypothesis is used at the state the first event leads to
    cases hstep : a.step e with
    | none =>
      rw [run, hstep] at hrun
      cases hrun
    | some a₁ =>
      rw [run, hstep, Option.bind_some] at hrun
      have htrim₁ := hrest a₁ hstep
      cases hb : e.bracket with
      | opening =>
        cases e with
        | start =>
          obtain rfl : a.start = a₁ := Option.some.inj hstep
          refine ih (k + 1) n (a.current :: top) a.start a' ?_ hrun htrim₁ ?_ ?_ ?_
          · simpa [Event.bracket, nested] using hnest
          · rw [start_saved_of_le (hfit hb), hsaved, List.cons_append]
          · simp [htop]
          · change a.active + 1 = n + (k + 1)
            omega
        | change s => exact absurd hb (by simp [Event.bracket])
        | merge => exact absurd hb (by simp [Event.bracket])
        | undo => exact absurd hb (by simp [Event.bracket])
      | plain =>
        cases e with
        | change s =>
          obtain rfl : a.change s = a₁ := Option.some.inj hstep
          have hne : a.saved ≠ [] := by
            rw [hsaved]
            exact List.append_ne_nil_of_right_ne_nil _ hbase
          refine ih k n top (a.change s) a' ?_ hrun htrim₁ ?_ htop ?_
          · cases k <;> simpa [Event.bracket, nested] using hnest
          · rw [change_saved_of_ne_nil hne, hsaved]
          · rw [change_active, hact]
        | start => exact absurd hb (by simp [Event.bracket])
        | merge => exact absurd hb (by simp [Event.bracket])
        | undo => exact absurd hb (by simp [Event.bracket])
      | closing =>
        obtain ⟨⟨s, hs⟩, hact₁, -⟩ := closing_saved hb hstep
        cases k with
        | zero => exact absurd hnest (by simp [List.map_cons, hb, nested])
        | succ k =>
          cases top with
          | nil => exact absurd htop (by simp)
          | cons t ts =>
            rw [hsaved, List.cons_append] at hs
            refine ih k n ts a₁ a' ?_ hrun htrim₁ ?_ ?_ ?_
            · simpa [List.map_cons, hb, nested] using hnest
            · exact (List.cons.inj hs).2.symm
            · simpa using htop
            · omega

/-- **The copy of a session.** After a session was opened and a well-nested run took place in it,
the newest copy is the state at which the session was opened, and below it are the copies that
were there before. -/
theorem saved_of_session {a a' : SnapshotStack σ} {l : List (Event σ)}
    (hnest : nested 0 (l.map Event.bracket) = true) (hrun : a.run (.start :: l) = some a')
    (htrim : a.Untrimmed (.start :: l)) :
    a'.saved = a.current :: a.saved ∧ a'.active = a.active + 1 := by
  obtain ⟨hfit, hrest⟩ := htrim
  have hsaved := start_saved_of_le (hfit rfl)
  refine run_nested (List.cons_ne_nil _ _) l 0 (a.active + 1) [] a.start a' hnest hrun
    (hrest _ rfl) hsaved rfl rfl

/-- As long as nothing is dropped, every open session has its copy. -/
theorem run_active_le : ∀ (l : List (Event σ)) (a a' : SnapshotStack σ), a.run l = some a' →
    a.Untrimmed l → a.active ≤ a.saved.length → a'.active ≤ a'.saved.length
  | [], a, a', hrun, _, hle => by
    obtain rfl : a = a' := Option.some.inj hrun
    exact hle
  | e :: l, a, a', hrun, ⟨hfit, hrest⟩, hle => by
    obtain ⟨a₁, hstep, hrun⟩ := Option.bind_eq_some_iff.mp hrun
    refine run_active_le l a₁ a' hrun (hrest a₁ hstep) ?_
    cases e with
    | start =>
      obtain rfl : a.start = a₁ := Option.some.inj hstep
      rw [start_saved_of_le (hfit rfl)]
      exact Nat.succ_le_succ hle
    | change s =>
      obtain rfl : a.change s = a₁ := Option.some.inj hstep
      rw [change_active]
      refine Nat.le_trans hle ?_
      cases hs : a.saved with
      | nil => exact Nat.zero_le _
      | cons t ts =>
        have hne : a.saved ≠ [] := by
          rw [hs]
          exact List.cons_ne_nil t ts
        exact Nat.le_of_eq (by rw [change_saved_of_ne_nil hne, hs])
    | merge | undo =>
      obtain ⟨⟨s, hs⟩, hact, -⟩ := closing_saved rfl hstep
      rw [hs, List.length_cons] at hle
      omega

/-- Undoing a session after a well-nested run in it brings back the state at which it was
opened. -/
theorem undo_of_session {a a' : SnapshotStack σ} {l : List (Event σ)}
    (hnest : nested 0 (l.map Event.bracket) = true) (hrun : a.run (.start :: l) = some a')
    (htrim : a.Untrimmed (.start :: l)) :
    a'.undo = some { a' with current := a.current, saved := a.saved, active := a.active } := by
  obtain ⟨hsaved, hact⟩ := saved_of_session hnest hrun htrim
  simp [undo, hsaved, hact]

/-- A session can be merged after a well-nested run in it, unless other sessions are open and
have lost their copies. -/
theorem merge_of_session {a a' : SnapshotStack σ} {l : List (Event σ)}
    (hnest : nested 0 (l.map Event.bracket) = true) (hrun : a.run (.start :: l) = some a')
    (htrim : a.Untrimmed (.start :: l)) (hcopies : a.active ≤ a.saved.length) :
    a'.merge = some { a' with saved := a.saved, active := a.active } := by
  obtain ⟨hsaved, hact⟩ := saved_of_session hnest hrun htrim
  cases hs : a.saved with
  | nil =>
    rw [hs] at hcopies
    have h0 : a.active = 0 := Nat.le_zero.mp hcopies
    simp [merge, hsaved, hact, hs, h0]
  | cons s ss => simp [merge, hsaved, hact, hs]

end SnapshotStack
