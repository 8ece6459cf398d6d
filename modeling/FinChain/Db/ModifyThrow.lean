import FinChain.Db.UndoExact

/-!
# A modification that fails half way

`generic_index::modify` hands the callback to the multi-index container. When the callback throws,
or the changed object collides with another one on a unique key, the container erases the
element; in both cases an exception leaves `modify`. The undo database was told of the
modification before, so the newest change set holds the id of an object that is gone.

`undo` assumes that the objects it restores or removes are still there. After such a failure it
throws itself, whatever the session did before (`undo_of_modify_throws`), and since it is called
by the destructor of the session the exception that was being handled is never delivered.
-/

namespace FinChain

open UndoDatabase

variable {V : Type}

/-- `primary_index::modify` with a callback that may fail: `m v = none` when it throws on `v` or
leaves a value that collides with another object. The database after the call is returned also
when an exception propagates. -/
def UndoDatabase.modifyOrThrow (d : UndoDatabase V) (id : ObjectId) (m : V → Option V) :
    Except DbError Unit × UndoDatabase V :=
  match d.store.objects id with
  | none => (.error .unableToFindObject, d)
  | some v =>
    -- `save_undo` runs before the container is touched
    let d := d.onModify id v
    match m v with
    | some v' =>
      (.ok (), { d with store.objects := Function.update d.store.objects id (some v') })
    | none =>
      (.error .callback, { d with store.objects := Function.update d.store.objects id none })

/-- A session is ended by its destructor as if nothing had happened since it was started at the
store `st`: `undo` returns and restores `st`. -/
def LeavesNoTrace (d : UndoDatabase V) (st : Store V) : Prop :=
  ∃ d', d.undo = .ok d' ∧ d'.store = st

/-! ### `undo` needs the objects of the change set -/

/-- After `on_modify` the object is among the new or the updated ones. -/
theorem UndoState.mem_onModify (u : UndoState V) (id : ObjectId) (v : V) :
    id ∈ (u.onModify id v).newIds ∨ id ∈ (u.onModify id v).oldValues := by
  unfold onModify
  split
  · next hnew => exact .inl hnew
  · split
    · next hold => exact .inr hold
    · exact .inr ((AList.mem_insert _).mpr (.inl rfl))

/-- A modification neither adds nor removes objects. -/
theorem Store.modify_isSome {st st' : Store V} {i : ObjectId} {m : V → V}
    (h : st.modify i m = .ok st') (id : ObjectId) :
    (st'.objects id).isSome = (st.objects id).isSome := by
  obtain ⟨v, hv, rfl⟩ := Store.modify_ok h
  by_cases hid : id = i
  · subst hid
    simp only [Function.update_self, hv, Option.isSome_some]
  · simp only [Function.update_of_ne hid]

/-- The loops of `undo` throw when an object they restore or remove is missing. -/
theorem UndoState.revert_of_missing {u : UndoState V} {st : Store V} {id : ObjectId}
    (hmem : id ∈ u.newIds ∨ id ∈ u.oldValues) (hmiss : st.objects id = none) :
    ∃ e, u.revert st = .error e := by
  unfold revert
  cases h₁ : u.oldValues.entries.foldlM
      (fun (st : Store V) e => st.modify e.1 fun _ => e.2) st with
  | error e => exact ⟨e, rfl⟩
  | ok t₁ =>
    -- the first loop found every updated object, so the missing one is a new object
    have hold : id ∉ u.oldValues := by
      intro hold
      obtain ⟨v, hv⟩ := Option.isSome_iff_exists.mp (AList.lookup_isSome.mpr hold)
      have hsome := KeyedLoop.foldlM_keyed_inv (fun id (st : Store V) => st.objects id)
        (fun st e => st.modify e.1 fun _ => e.2) (fun _ _ o => o.isSome)
        (fun s s' i v hs => by
          obtain ⟨x, hx, rfl⟩ := Store.modify_ok hs
          exact ⟨by rw [hx]; rfl, fun k hk => Function.update_of_ne hk ..⟩)
        u.oldValues h₁ hv
      rw [hmiss] at hsome
      exact absurd hsome (by simp)
    have hmiss₁ : (t₁.objects id).isSome = false := by
      rw [KeyedLoop.foldlM_frame (fun st : Store V => (st.objects id).isSome)
        (fun st e => st.modify e.1 fun _ => e.2)
        (fun s s' e he => Store.modify_isSome he id) u.oldValues.entries h₁, hmiss]
      rfl
    obtain ⟨v, hv⟩ :=
      Option.isSome_iff_exists.mp (AList.lookup_isSome.mpr (hmem.resolve_right hold))
    cases h₂ : u.newIds.entries.foldlM (fun (st : Store V) e => st.remove e.1) t₁ with
    | error e =>
      simp only [bind, Except.bind] at h₂ ⊢
      exact ⟨e, by rw [h₂]⟩
    | ok t₂ =>
      have hsome := KeyedLoop.foldlM_keyed_inv (fun id (st : Store V) => st.objects id)
        (fun (st : Store V) (e : Sigma fun _ : ObjectId => Unit) => st.remove e.1)
        (fun _ _ o => o.isSome)
        (fun s s' i v hs => by
          obtain ⟨x, hx, rfl⟩ := Store.remove_ok hs
          exact ⟨by rw [hx]; rfl, fun k hk => Function.update_of_ne hk ..⟩)
        u.newIds h₂ hv
      rw [hmiss₁] at hsome
      exact absurd hsome (by simp)

/-! ### Sessions without inner sessions -/

/-- A hook leaves a newest change set behind. -/
theorem UndoDatabase.withBack_enabled (d : UndoDatabase V) (f : UndoState V → UndoState V)
    (hd : d.disabled = false) : (d.withBack f).disabled = false ∧ (d.withBack f).stack ≠ [] := by
  unfold withBack
  split
  · exact ⟨hd, List.cons_ne_nil _ _⟩
  · exact ⟨hd, List.cons_ne_nil _ _⟩

/-- Creations, modifications and removals keep the session: the undo database stays enabled and
there is a newest change set to record them in. -/
theorem UndoDatabase.exec_plain {d d' : UndoDatabase V} {e : Event V} (he : e.bracket = .plain)
    (h : d.exec e = .ok d') (hd : d.disabled = false) :
    d'.disabled = false ∧ d'.stack ≠ [] := by
  cases e with
  | startUndoSession => exact absurd he (by simp [Event.bracket])
  | merge => exact absurd he (by simp [Event.bracket])
  | undo => exact absurd he (by simp [Event.bracket])
  | create k c =>
    simp only [exec, create, bind, Except.bind] at h
    split at h
    · cases h
    · obtain rfl := Except.ok.inj h
      simp only [onCreate, hd, Bool.false_eq_true, if_false]
      exact withBack_enabled _ _ rfl
  | modify id m =>
    simp only [exec, modify] at h
    split at h
    · cases h
    · simp only [bind, Except.bind] at h
      split at h
      · cases h
      · obtain rfl := Except.ok.inj h
        simp only [onModify, hd, Bool.false_eq_true, if_false]
        exact withBack_enabled _ _ hd
  | remove id =>
    simp only [exec, remove] at h
    split at h
    · cases h
    · simp only [bind, Except.bind] at h
      split at h
      · cases h
      · obtain rfl := Except.ok.inj h
        simp only [onRemove, hd, Bool.false_eq_true, if_false]
        exact withBack_enabled _ _ hd

theorem UndoDatabase.run_plain : ∀ {l : List (Event V)} {d d' : UndoDatabase V},
    (∀ e ∈ l, e.bracket = .plain) → d.run l = .ok d' → d.disabled = false → d.stack ≠ [] →
    d'.disabled = false ∧ d'.stack ≠ []
  | [], d, d', _, hrun, hd, hs => by
    obtain rfl : d = d' := Except.ok.inj hrun
    exact ⟨hd, hs⟩
  | e :: l, d, d', hplain, hrun, hd, hs => by
    obtain ⟨d₁, hd₁, hrun⟩ := run_cons_ok hrun
    obtain ⟨he, hl⟩ := List.forall_mem_cons.mp hplain
    obtain ⟨hd', hs'⟩ := exec_plain he hd₁ hd
    exact run_plain hl hrun hd' hs'

/-- **A failed modification cannot be undone.** Whatever objects were created, modified and
removed in a session, once a callback of `modify` has thrown the destructor of the session throws
as well. -/
theorem undo_of_modify_throws (d : UndoDatabase V) (henabled : d.disabled = false)
    {body : List (Event V)} (hplain : ∀ e ∈ body, e.bracket = .plain) {d₁ : UndoDatabase V}
    (hbody : d.run (.startUndoSession :: body) = .ok d₁) {id : ObjectId} {v : V}
    (hv : d₁.store.objects id = some v) {m : V → Option V} (hthrow : m v = none) :
    (d₁.modifyOrThrow id m).1 = .error .callback ∧
      (∃ e, (d₁.modifyOrThrow id m).2.undo = .error e) ∧
      ¬ LeavesNoTrace (d₁.modifyOrThrow id m).2 d.store := by
  obtain ⟨d', hd', hbody⟩ := run_cons_ok hbody
  obtain rfl : d.startUndoSession = d' := Except.ok.inj hd'
  obtain ⟨hd₁, hs₁⟩ := run_plain hplain hbody henabled (List.cons_ne_nil _ _)
  obtain ⟨u, us, hstack⟩ := List.exists_cons_of_ne_nil hs₁
  have hmod : d₁.modifyOrThrow id m = (.error .callback,
      { d₁ with
        stack := u.onModify id v :: us
        store.objects := Function.update d₁.store.objects id none }) := by
    simp only [modifyOrThrow, hv, hthrow, onModify, hd₁, Bool.false_eq_true, if_false, withBack,
      hstack]
  have hundo : ∃ e, (d₁.modifyOrThrow id m).2.undo = .error e := by
    have hmiss : ({ d₁.store with objects := Function.update d₁.store.objects id none } :
        Store V).objects id = none := Function.update_self ..
    obtain ⟨e, he⟩ := UndoState.revert_of_missing (u.mem_onModify id v) hmiss
    rw [hmod]
    simp only [undo, hd₁, Bool.false_eq_true, if_false]
    split
    · exact ⟨_, rfl⟩
    · refine ⟨e, ?_⟩
      simp only [bind, Except.bind, he]
  refine ⟨by rw [hmod], hundo, ?_⟩
  rintro ⟨d₂, hd₂, -⟩
  obtain ⟨e, he⟩ := hundo
  rw [he] at hd₂
  cases hd₂

section Example

private def lockedBalances : IndexKey := ⟨2, 5⟩

/-- One balance object, with the number of its locks as its value. -/
private def oneBalance : Store ℕ where
  objects id := if id = ⟨lockedBalances, 0⟩ then some 50 else none
  nextId k := if k = lockedBalances then 1 else 0

/-- `add_lock_balance`: at most 50 locks. -/
private def addLockBalance (n : ℕ) : Option ℕ :=
  if n < 50 then some (n + 1) else none

/-- The session of a transaction that locks a balance once more. -/
theorem undo_of_modify_throws_at_limit :
    oneBalance.objects ⟨lockedBalances, 0⟩ = some 50 ∧
      ¬ LeavesNoTrace ((fresh oneBalance 8).startUndoSession.modifyOrThrow
        ⟨lockedBalances, 0⟩ addLockBalance).2 oneBalance :=
  ⟨rfl, (undo_of_modify_throws (fresh oneBalance 8) rfl (List.forall_mem_nil _) rfl rfl rfl).2.2⟩

/-- Sessions that end with a failed modification do leave a trace. -/
theorem not_leavesNoTrace_of_modify_throws :
    ¬ ∀ (st : Store ℕ), st.WF → ∀ (body : List (Event ℕ)), (∀ e ∈ body, e.bracket = .plain) →
      ∀ d₁, (fresh st 8).run (.startUndoSession :: body) = .ok d₁ →
      ∀ id v (m : ℕ → Option ℕ), d₁.store.objects id = some v → m v = none →
        LeavesNoTrace (d₁.modifyOrThrow id m).2 st := by
  intro h
  have hwf : oneBalance.WF := by
    intro id hid
    simp only [oneBalance] at hid ⊢
    split at hid
    · next h =>
      subst h
      decide
    · exact absurd hid (by simp)
  obtain ⟨d', hd', -⟩ := h oneBalance hwf [] (by simp) _ rfl ⟨lockedBalances, 0⟩ 50 addLockBalance
    rfl rfl
  have herr : ((fresh oneBalance 8).startUndoSession.modifyOrThrow ⟨lockedBalances, 0⟩
      addLockBalance).2.undo = .error .unableToFindObject := rfl
  rw [herr] at hd'
  cases hd'

end Example

end FinChain
