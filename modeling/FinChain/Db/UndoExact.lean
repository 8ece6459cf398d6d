import FinChain.Db.UndoRefinement

/-!
# Undo is exact

Runs of an enabled undo database: sessions are opened, merged and undone, and objects are
created, modified and removed in between, at any nesting. `Refines.run` matches such a run with a
run of the stack of snapshots that opens and closes the same sessions, so what is true of copies
is true of change sets:

* `undo_of_session`: after a session and a well-nested run in it, `undo` brings back the store at
  which the session was started;
* `merge_of_session`: merging the session instead leaves the store as it is.

`undo_exact` states both for a session anywhere in a run, together with what merging a session
means for the session around it.
-/

namespace FinChain

open SnapshotStack (Bracket nested)

variable {V : Type}

namespace UndoDatabase

/-- The calls of a run. The callbacks of `create` and `modify` return. -/
inductive Event (V : Type)
  | startUndoSession
  | create (k : IndexKey) (constructor : ObjectId → V)
  | modify (id : ObjectId) (m : V → V)
  | remove (id : ObjectId)
  | merge
  | undo

/-- Which calls open and close a session. -/
def Event.bracket : Event V → Bracket
  | .startUndoSession => .opening
  | .create _ _ => .plain
  | .modify _ _ => .plain
  | .remove _ => .plain
  | .merge => .closing
  | .undo => .closing

/-- One call. -/
def exec (d : UndoDatabase V) : Event V → Except DbError (UndoDatabase V)
  | .startUndoSession => .ok d.startUndoSession
  | .create k c => d.create k c
  | .modify id m => d.modify id m
  | .remove id => d.remove id
  | .merge => d.merge
  | .undo => d.undo

/-- A run of calls; it ends at the first exception. -/
def run (d : UndoDatabase V) : List (Event V) → Except DbError (UndoDatabase V)
  | [] => .ok d
  | e :: l => match d.exec e with
    | .ok d' => d'.run l
    | .error err => .error err

/-- No call of the run drops a change set: whenever a session is started, the stack fits
`max_size`. -/
def NotTrimmed (d : UndoDatabase V) : List (Event V) → Prop
  | [] => True
  | e :: l => (e.bracket = .opening → d.stack.length ≤ d.maxSize) ∧
      ∀ d', d.exec e = .ok d' → d'.NotTrimmed l

theorem run_cons_ok {d d' : UndoDatabase V} {e : Event V} {l : List (Event V)}
    (h : d.run (e :: l) = .ok d') : ∃ d₁, d.exec e = .ok d₁ ∧ d₁.run l = .ok d' := by
  unfold run at h
  split at h
  · next d₁ hd₁ => exact ⟨d₁, hd₁, h⟩
  · cases h

theorem run_append {l₁ l₂ : List (Event V)} : ∀ {d d₁ : UndoDatabase V}, d.run l₁ = .ok d₁ →
    d.run (l₁ ++ l₂) = d₁.run l₂ := by
  induction l₁ with
  | nil =>
    intro d d₁ h
    obtain rfl : d = d₁ := Except.ok.inj h
    rfl
  | cons e l₁ ih =>
    intro d d₁ h
    obtain ⟨d', hd', hrun⟩ := run_cons_ok h
    rw [List.cons_append, run, hd']
    exact ih hrun

theorem NotTrimmed.cons {d d' : UndoDatabase V} {e : Event V} {l : List (Event V)}
    (hfit : e.bracket = .opening → d.stack.length ≤ d.maxSize) (he : d.exec e = .ok d')
    (h : d'.NotTrimmed l) : d.NotTrimmed (e :: l) := by
  refine ⟨hfit, fun d'' hd'' => ?_⟩
  obtain rfl := Except.ok.inj (he.symm.trans hd'')
  exact h

theorem NotTrimmed.append_iff {l₁ l₂ : List (Event V)} : ∀ {d d₁ : UndoDatabase V},
    d.run l₁ = .ok d₁ → (d.NotTrimmed (l₁ ++ l₂) ↔ d.NotTrimmed l₁ ∧ d₁.NotTrimmed l₂) := by
  induction l₁ with
  | nil =>
    intro d d₁ h
    obtain rfl : d = d₁ := Except.ok.inj h
    simp [NotTrimmed]
  | cons e l₁ ih =>
    intro d d₁ h
    obtain ⟨d', hd', hrun⟩ := run_cons_ok h
    simp only [List.cons_append, NotTrimmed, hd', Except.ok.injEq, forall_eq', ih hrun, and_assoc]

end UndoDatabase

open UndoDatabase

/-! ### Runs and snapshots -/

section Runs

variable {d d₁ : UndoDatabase V} {a : SnapshotStack (Store V)}

/-- One call is matched by one event that opens or closes a session just when the call does. -/
theorem Refines.exec (h : Refines d a) {e : Event V} (he : d.exec e = .ok d₁) :
    ∃ e' a₁, SnapshotStack.Event.bracket e' = e.bracket ∧ a.step e' = some a₁ ∧ Refines d₁ a₁ := by
  cases e with
  | startUndoSession =>
    obtain rfl := Except.ok.inj he
    exact ⟨.start, a.start, rfl, rfl, h.startUndoSession⟩
  | create k c => exact ⟨.change d₁.store, _, rfl, rfl, h.create he⟩
  | modify id m => exact ⟨.change d₁.store, _, rfl, rfl, h.modify he⟩
  | remove id => exact ⟨.change d₁.store, _, rfl, rfl, h.remove he⟩
  | merge =>
    obtain ⟨a₁, ha₁, href⟩ := h.merge_inv he
    exact ⟨.merge, a₁, rfl, ha₁, href⟩
  | undo =>
    obtain ⟨a₁, ha₁, href⟩ := h.undo_inv he
    exact ⟨.undo, a₁, rfl, ha₁, href⟩

/-- **Runs of the undo database are runs of the stack of snapshots**, session by session. -/
theorem Refines.run : ∀ {l : List (Event V)} {d d₁ : UndoDatabase V} {a : SnapshotStack (Store V)},
    Refines d a → d.run l = .ok d₁ → d.NotTrimmed l →
    ∃ l' a₁, l'.map SnapshotStack.Event.bracket = l.map Event.bracket ∧ a.run l' = some a₁ ∧
      a.Untrimmed l' ∧ Refines d₁ a₁ := by
  intro l
  induction l with
  | nil =>
    intro d d₁ a h hrun _
    obtain rfl : d = d₁ := Except.ok.inj hrun
    exact ⟨[], a, rfl, rfl, trivial, h⟩
  | cons e l ih =>
    intro d d₁ a h hrun htrim
    obtain ⟨d', hd', hrun⟩ := run_cons_ok hrun
    obtain ⟨hfit, hrest⟩ := htrim
    obtain ⟨e', a', hb, hstep, h'⟩ := h.exec hd'
    obtain ⟨l', a₁, hbs, harun, hatrim, h₁⟩ := ih h' hrun (hrest d' hd')
    refine ⟨e' :: l', a₁, ?_, ?_, ⟨?_, ?_⟩, h₁⟩
    · rw [List.map_cons, List.map_cons, hb, hbs]
    · rw [SnapshotStack.run, hstep]
      exact harun
    · intro hopen
      rw [← h.stack.length_eq, h.maxSize]
      exact hfit (hb ▸ hopen)
    · intro a'' ha''
      rw [hstep] at ha''
      obtain rfl := Option.some.inj ha''
      exact hatrim

end Runs

/-! ### Sessions -/

/-- The undo databases met in runs that drop nothing: they refine a stack of snapshots in which
every open session has its copy. -/
def Sound (d : UndoDatabase V) : Prop :=
  ∃ a, Refines d a ∧ a.active ≤ a.saved.length

theorem Sound.fresh {st : Store V} (h : st.WF) (n : ℕ) : Sound (UndoDatabase.fresh st n) :=
  ⟨_, Refines.fresh h n, Nat.zero_le _⟩

theorem Sound.run {d d₁ : UndoDatabase V} (h : Sound d) {l : List (Event V)}
    (hrun : d.run l = .ok d₁) (htrim : d.NotTrimmed l) : Sound d₁ := by
  obtain ⟨a, href, hle⟩ := h
  obtain ⟨l', a₁, -, harun, hatrim, href₁⟩ := href.run hrun htrim
  exact ⟨a₁, href₁, SnapshotStack.run_active_le l' a a₁ harun hatrim hle⟩

section Session

variable {d d₁ : UndoDatabase V} {body : List (Event V)}

/-- The run of a session, matched on snapshots. -/
private theorem Refines.session {a : SnapshotStack (Store V)} (h : Refines d a)
    (hnest : nested 0 (body.map Event.bracket) = true)
    (hrun : d.run (.startUndoSession :: body) = .ok d₁)
    (htrim : d.NotTrimmed (.startUndoSession :: body)) :
    ∃ l a₁, nested 0 (l.map SnapshotStack.Event.bracket) = true ∧
      a.run (.start :: l) = some a₁ ∧ a.Untrimmed (.start :: l) ∧ Refines d₁ a₁ := by
  obtain ⟨l', a₁, hbs, harun, hatrim, h₁⟩ := h.run hrun htrim
  -- the event that matches `start_undo_session` can only be `start`
  cases l' with
  | nil => exact absurd hbs (by simp)
  | cons e l' =>
    obtain ⟨he, htail⟩ := List.cons.inj hbs
    cases e with
    | start => exact ⟨l', a₁, by rw [htail]; exact hnest, harun, hatrim, h₁⟩
    | change s => exact absurd he (by simp [SnapshotStack.Event.bracket, Event.bracket])
    | merge => exact absurd he (by simp [SnapshotStack.Event.bracket, Event.bracket])
    | undo => exact absurd he (by simp [SnapshotStack.Event.bracket, Event.bracket])

/-- Undoing a session restores the store at which it was started. -/
theorem undo_of_session (h : Sound d) (hnest : nested 0 (body.map Event.bracket) = true)
    (hrun : d.run (.startUndoSession :: body) = .ok d₁)
    (htrim : d.NotTrimmed (.startUndoSession :: body)) :
    ∃ d₂, d₁.undo = .ok d₂ ∧ d₂.store = d.store := by
  obtain ⟨a, href, -⟩ := h
  obtain ⟨l, a₁, hl, harun, hatrim, href₁⟩ := href.session hnest hrun htrim
  obtain ⟨d₂, hd₂, href₂⟩ := href₁.undo (SnapshotStack.undo_of_session hl harun hatrim)
  exact ⟨d₂, hd₂, href₂.current.symm.trans href.current⟩

/-- Merging a session leaves the store as it is. -/
theorem merge_of_session (h : Sound d) (hnest : nested 0 (body.map Event.bracket) = true)
    (hrun : d.run (.startUndoSession :: body) = .ok d₁)
    (htrim : d.NotTrimmed (.startUndoSession :: body)) :
    ∃ d₂, d₁.merge = .ok d₂ ∧ d₂.store = d₁.store := by
  obtain ⟨a, href, hle⟩ := h
  obtain ⟨l, a₁, hl, harun, hatrim, href₁⟩ := href.session hnest hrun htrim
  obtain ⟨d₂, hd₂, href₂⟩ := href₁.merge (SnapshotStack.merge_of_session hl harun hatrim hle)
  exact ⟨d₂, hd₂, href₂.current.symm.trans href₁.current⟩

end Session

/-- **Undo is exact.** Whatever happened before a session was started and however the calls in
it are nested, undoing the session restores the store at which it was started. Merging it leaves
the store unchanged, and the session around it, started at `dₚ`, can still be undone after any
further well-nested calls, which restores the store of `dₚ`. -/
theorem undo_exact {st : Store V} (hwf : st.WF) (n : ℕ) {pre body : List (Event V)}
    {d d₁ : UndoDatabase V} (hpre : (fresh st n).run pre = .ok d)
    (hbody : d.run (.startUndoSession :: body) = .ok d₁)
    (hnest : nested 0 (body.map Event.bracket) = true)
    (htrim : (fresh st n).NotTrimmed (pre ++ .startUndoSession :: body)) :
    (∃ d₂, d₁.undo = .ok d₂ ∧ d₂.store = d.store) ∧
    ∃ d₂, d₁.merge = .ok d₂ ∧ d₂.store = d₁.store ∧
      ∀ pre' body' after dₚ d₃, pre = pre' ++ .startUndoSession :: body' →
        nested 0 (body'.map Event.bracket) = true → (fresh st n).run pre' = .ok dₚ →
        nested 0 (after.map Event.bracket) = true → d₂.run after = .ok d₃ →
        d₂.NotTrimmed after → ∃ d₄, d₃.undo = .ok d₄ ∧ d₄.store = dₚ.store := by
  obtain ⟨htrim₁, htrim₂⟩ := (NotTrimmed.append_iff hpre).mp htrim
  have hsound : Sound d := (Sound.fresh hwf n).run hpre htrim₁
  refine ⟨undo_of_session hsound hnest hbody htrim₂, ?_⟩
  obtain ⟨d₂, hmerge, hstore⟩ := merge_of_session hsound hnest hbody htrim₂
  refine ⟨d₂, hmerge, hstore, ?_⟩
  intro pre' body' after dₚ d₃ heq hbody' hpre' hafter hrun htrim₃
  subst heq
  obtain ⟨htrimₚ, htrim₁⟩ := (NotTrimmed.append_iff hpre').mp htrim₁
  rw [run_append hpre'] at hpre
  -- seen from the outer session, the inner one is a part of its body
  have hinner : d.run (.startUndoSession :: body ++ .merge :: after) = .ok d₃ := by
    rw [run_append hbody, run, show d₁.exec .merge = .ok d₂ from hmerge]
    exact hrun
  have hnested : nested 0
      ((body' ++ (.startUndoSession :: body ++ .merge :: after)).map Event.bracket) = true := by
    rw [List.map_append, SnapshotStack.nested_append 0 _ hbody', List.map_append]
    change nested (0 + 1) (body.map Event.bracket ++ .closing :: after.map Event.bracket) = true
    rw [SnapshotStack.nested_append 1 _ hnest]
    exact hafter
  refine undo_of_session ((Sound.fresh hwf n).run hpre' htrimₚ) hnested ?_ ?_
  · rw [← List.cons_append, run_append hpre]
    exact hinner
  · rw [← List.cons_append, NotTrimmed.append_iff hpre, NotTrimmed.append_iff hbody]
    exact ⟨htrim₁, htrim₂, .cons (by simp [Event.bracket]) hmerge htrim₃⟩

/-! ### Committed sessions -/

/-- Runs in sessions that are committed one after the other, as those of blocks are. The stores are
those at which the sessions were started, the last one first. -/
inductive Committed (d₀ : UndoDatabase V) : List (Store V) → UndoDatabase V → Prop
  | none : Committed d₀ [] d₀
  | session {stores d d₁ d₂ body} : Committed d₀ stores d →
      nested 0 (body.map Event.bracket) = true → d.run (.startUndoSession :: body) = .ok d₁ →
      d.NotTrimmed (.startUndoSession :: body) → d₁.commit = .ok d₂ →
      Committed d₀ (d.store :: stores) d₂

/-- `pop_commit`, again and again. -/
def popCommits : ℕ → UndoDatabase V → Except DbError (UndoDatabase V)
  | 0, d => .ok d
  | n + 1, d => d.popCommit >>= popCommits n

/-- No session is open, and there is a copy for each that was committed. -/
theorem Committed.refines {d₀ d : UndoDatabase V} {stores : List (Store V)}
    (h : Committed d₀ stores d) {a₀ : SnapshotStack (Store V)} (h₀ : Refines d₀ a₀)
    (hidle : a₀.active = 0) :
    ∃ a, Refines d a ∧ a.active = 0 ∧ a.saved = stores ++ a₀.saved := by
  induction h with
  | none => exact ⟨a₀, h₀, hidle, rfl⟩
  | session _ hnest hrun htrim hcommit ih =>
    obtain ⟨a, href, hact, hsaved⟩ := ih
    obtain ⟨l, a₁, hl, harun, hatrim, href₁⟩ := href.session hnest hrun htrim
    obtain ⟨hsaved₁, hact₁⟩ := SnapshotStack.saved_of_session hl harun hatrim
    obtain ⟨d', hd', href₂⟩ := href₁.commit (SnapshotStack.commit_of_active hact₁)
    rw [hcommit] at hd'
    obtain rfl := Except.ok.inj hd'
    refine ⟨_, href₂, hact, ?_⟩
    show a₁.saved = _
    rw [hsaved₁, hsaved, href.current, List.cons_append]

/-- Each `pop_commit` brings the next copy back. -/
theorem Refines.popCommits {older : List (Store V)} {st : Store V} : ∀ {newer : List (Store V)}
    {d : UndoDatabase V} {a : SnapshotStack (Store V)}, Refines d a → a.active = 0 →
    a.saved = newer ++ st :: older →
    ∃ d', FinChain.popCommits (newer.length + 1) d = .ok d' ∧ d'.store = st := by
  intro newer
  induction newer with
  | nil =>
    intro d a h hact hsaved
    have hpop : a.popCommit = some { a with current := st, saved := older } := by
      simp [SnapshotStack.popCommit, hsaved, hact]
    obtain ⟨d', hd', h'⟩ := h.popCommit hpop
    exact ⟨d', by rw [FinChain.popCommits, hd']; rfl, h'.current.symm⟩
  | cons s newer ih =>
    intro d a h hact hsaved
    have hpop : a.popCommit = some { a with current := s, saved := newer ++ st :: older } := by
      simp [SnapshotStack.popCommit, hsaved, hact]
    obtain ⟨d', hd', h'⟩ := h.popCommit hpop
    obtain ⟨d'', hd'', hstore⟩ := ih h' hact rfl
    exact ⟨d'', by rw [FinChain.popCommits, hd']; exact hd'', hstore⟩

/-- **Committed sessions are undone exactly.** After any number of sessions that were committed,
`pop_commit` can be called once for each of them, and brings back the stores at which they were
started, one after the other. -/
theorem committed_undone {st₀ st : Store V} (hwf : st₀.WF) (n : ℕ) {newer older : List (Store V)}
    {d : UndoDatabase V} (h : Committed (fresh st₀ n) (newer ++ st :: older) d) :
    ∃ d', popCommits (newer.length + 1) d = .ok d' ∧ d'.store = st := by
  obtain ⟨a, href, hact, hsaved⟩ := h.refines (Refines.fresh hwf n) rfl
  exact href.popCommits hact (hsaved.trans (List.append_nil _))

section Example

/-- One index, holding one object with the value 7. -/
private def accounts : IndexKey := ⟨1, 2⟩

private def oneObject : Store ℕ where
  objects id := if id = ⟨accounts, 0⟩ then some 7 else none
  nextId k := if k = accounts then 1 else 0

private theorem oneObject_wf : oneObject.WF := by
  intro id hid
  simp only [oneObject] at hid ⊢
  split at hid
  · next h =>
    subst h
    decide
  · exact absurd hid (by simp)

/-- An outer session creates an object. -/
private def outer : List (Event ℕ) :=
  [.startUndoSession, .create accounts fun _ => 5]

/-- An inner session changes the first object, in a session of its own, and removes the new
one. -/
private def inner : List (Event ℕ) :=
  [.startUndoSession, .modify ⟨accounts, 0⟩ (· + 1), .merge, .remove ⟨accounts, 1⟩]

theorem undo_exact_of_merged_sessions :
    ∃ d d₁, (fresh oneObject 8).run outer = .ok d ∧ d.run (.startUndoSession :: inner) = .ok d₁ ∧
      (∃ d₂, d₁.undo = .ok d₂ ∧ d₂.store = d.store) ∧
      ∃ d₂ d₃, d₁.merge = .ok d₂ ∧ d₂.undo = .ok d₃ ∧ d₃.store = oneObject := by
  have htrim : (fresh oneObject 8).NotTrimmed (outer ++ .startUndoSession :: inner) :=
    .cons (by decide) rfl <| .cons (by decide) rfl <| .cons (by decide) rfl <|
      .cons (by decide) rfl <| .cons (by decide) rfl <| .cons (by decide) rfl <|
      .cons (by decide) rfl trivial
  obtain ⟨d, d₁, hpre, hbody⟩ : ∃ d d₁, (fresh oneObject 8).run outer = .ok d ∧
      d.run (.startUndoSession :: inner) = .ok d₁ := ⟨_, _, rfl, rfl⟩
  obtain ⟨hundo, d₂, hmerge, -, hparent⟩ :=
    undo_exact oneObject_wf 8 hpre hbody (by decide) htrim
  obtain ⟨d₃, hd₃, hstore⟩ := hparent [] [.create accounts fun _ => 5] [] (fresh oneObject 8) d₂
    rfl (by decide) rfl (by decide) rfl trivial
  exact ⟨d, d₁, hpre, hbody, hundo, d₂, d₃, hmerge, hd₃, hstore⟩

/-- Two blocks are popped. -/
theorem committed_undone_two :
    ∃ st d, Committed (fresh oneObject 8) ([st] ++ [oneObject]) d ∧
      ∃ d', popCommits 2 d = .ok d' ∧ d'.store = oneObject := by
  have hfirst := Committed.session (.none : Committed (fresh oneObject 8) [] _) rfl
    (show _ = Except.ok _ from rfl : run _ [.startUndoSession, .create accounts fun _ => 5] = _)
    (.cons (by decide) rfl (.cons (by decide) rfl trivial)) rfl
  have hsecond := Committed.session hfirst rfl
    (show _ = Except.ok _ from rfl : run _ [.startUndoSession, .modify ⟨accounts, 0⟩ (· + 1)] = _)
    (.cons (by decide) rfl (.cons (by decide) rfl trivial)) rfl
  obtain ⟨st, d, h⟩ : ∃ st d, Committed (fresh oneObject 8) ([st] ++ [oneObject]) d :=
    ⟨_, _, hsecond⟩
  exact ⟨st, d, h, committed_undone oneObject_wf 8 h⟩

end Example

end FinChain
