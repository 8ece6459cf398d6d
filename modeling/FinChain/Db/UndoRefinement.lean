import FinChain.Lib.KeyedLoop
import FinChain.Lib.SnapshotStack
import FinChain.Db.UndoDatabase

/-!
# The undo database refines a stack of snapshots

A change set is a compressed difference between two stores. `Represents u s₀ s₁` says that `u`
is the difference from `s₀` to `s₁`: for each object it is in exactly one of the relations the
comment in `merge` names (new, updated, deleted, untouched), and it holds the next id of every
index that has grown. The three facts about it are

* `Represents.create`, `Represents.modify`, `Represents.remove`: the hooks extend the
  difference by one operation;
* `Represents.merge`: `merge` composes two differences, all sixteen combinations of the table;
* `Represents.revert`: the loops of `undo` lead from `s₁` back to `s₀` and cannot fail.

`Refines d a` lifts this to the stack: `d` holds one change set for each copy of the abstract
`SnapshotStack`. Every operation of the undo database is then matched by the one of the same
name on snapshots (`Refines.create` to `Refines.popCommit`), including the dropping of the oldest
entries by `start_undo_session` and the entry pushed when the stack is empty.
-/

namespace FinChain

variable {V : Type}

/-! ### One object -/

/-- The relation of one object to a change set, given by its entries in `new_ids`, `old_values`
and `removed`, and its states in the store before and after. -/
inductive Relates : Option Unit → Option V → Option V → Option V → Option V → Prop
  | new (v : V) : Relates (some ()) none none none (some v)
  | upd (was v : V) : Relates none (some was) none (some was) (some v)
  | del (was : V) : Relates none none (some was) (some was) none
  | nop (o : Option V) : Relates none none none o o

/-- The change set `u` is the difference from `s₀` to `s₁`. -/
structure Represents (u : UndoState V) (s₀ s₁ : Store V) : Prop where
  object : ∀ id, Relates (u.newIds.lookup id) (u.oldValues.lookup id) (u.removed.lookup id)
    (s₀.objects id) (s₁.objects id)
  nextId : ∀ k, s₀.nextId k = (u.oldIndexNextIds.lookup k).getD (s₁.nextId k)
  /-- Next ids only grow. -/
  nextId_le : ∀ k, s₀.nextId k ≤ s₁.nextId k
  /-- A created object has an id that was still free for use. -/
  fresh : ∀ id, id ∈ u.newIds → s₀.nextId id.index ≤ id.inst
  wf : s₀.WF

/-- The empty change set is the difference from a store to itself. -/
theorem Represents.refl {st : Store V} (h : st.WF) : Represents {} st st where
  object id := .nop (st.objects id)
  nextId _ := rfl
  nextId_le _ := le_rfl
  fresh _ hid := absurd hid (AList.notMem_empty _)
  wf := h

/-! ### The hooks -/

section Hooks

variable {u : UndoState V} {s₀ s₁ s₂ : Store V}

/-- An object that is absent now and whose id was not yet in use at `s₀` is untouched. -/
private theorem Represents.nop_of_absent (h : Represents u s₀ s₁) {id : ObjectId}
    (habs : s₁.objects id = none) (hfree : s₀.nextId id.index ≤ id.inst) :
    u.newIds.lookup id = none ∧ u.oldValues.lookup id = none ∧ u.removed.lookup id = none ∧
      s₀.objects id = none := by
  have hobj := h.object id
  have hnone : s₀.objects id = none := h.wf.next_free id.index hfree
  rw [habs, hnone] at hobj
  generalize u.newIds.lookup id = n, u.oldValues.lookup id = o, u.removed.lookup id = r at hobj
  cases hobj
  exact ⟨rfl, rfl, rfl, hnone⟩

/-- `on_create` extends the difference by the creation of an object. -/
theorem Represents.create (h : Represents u s₀ s₁) {k : IndexKey} {c : ObjectId → V}
    (hc : s₁.create k c = .ok s₂) : Represents (u.onCreate (s₁.getNextId k)) s₀ s₂ := by
  obtain ⟨habs, hobj, hnext⟩ := Store.create_ok hc
  set i := s₁.getNextId k with hi
  have hik : i.index = k := rfl
  have hinst : i.inst = s₁.nextId k := rfl
  obtain ⟨-, hold, hrem, hs₀⟩ := h.nop_of_absent habs (h.nextId_le k)
  refine ⟨fun id => ?_, fun k' => ?_, fun k' => ?_, fun id hid => ?_, h.wf⟩
  · by_cases hid : id = i
    · subst hid
      simp only [UndoState.onCreate, AList.lookup_insert]
      rw [hold, hrem, hs₀, hobj, Function.update_self]
      exact .new _
    · simp only [UndoState.onCreate, AList.lookup_insert_ne hid]
      rw [hobj, Function.update_of_ne hid]
      exact h.object id
  · -- the first creation in an index records the next id it had before
    rw [h.nextId k', hnext]
    simp only [UndoState.onCreate, hik]
    by_cases hk : k' = k
    · subst hk
      split
      · next hmem =>
        obtain ⟨n, hn⟩ := Option.isSome_iff_exists.mp (AList.lookup_isSome.mpr hmem)
        rw [hn, Option.getD_some, Option.getD_some]
      · next hmem =>
        rw [AList.lookup_insert, AList.lookup_eq_none.mpr hmem, Option.getD_none, Option.getD_some,
          hinst]
    · rw [Function.update_of_ne hk]
      split
      · rfl
      · rw [AList.lookup_insert_ne hk]
  · rw [hnext]
    by_cases hk : k' = k
    · subst hk
      rw [Function.update_self]
      exact Nat.le_succ_of_le (h.nextId_le k')
    · rw [Function.update_of_ne hk]
      exact h.nextId_le k'
  · rcases (AList.mem_insert _).mp hid with rfl | hid
    · exact h.nextId_le k
    · exact h.fresh id hid

/-- `on_modify` extends the difference by a modification. -/
theorem Represents.modify (h : Represents u s₀ s₁) {i : ObjectId} {v : V} {m : V → V}
    (hv : s₁.objects i = some v) (hm : s₁.modify i m = .ok s₂) :
    Represents (u.onModify i v) s₀ s₂ := by
  obtain ⟨v', hv', rfl⟩ := Store.modify_ok hm
  obtain rfl : v = v' := Option.some.inj (hv.symm.trans hv')
  have hkey : (u.onModify i v).newIds = u.newIds ∧
      (u.onModify i v).oldIndexNextIds = u.oldIndexNextIds ∧
      (u.onModify i v).removed = u.removed := by
    unfold UndoState.onModify
    split <;> [skip; split] <;> exact ⟨rfl, rfl, rfl⟩
  refine ⟨fun id => ?_, fun k => ?_, h.nextId_le, fun id hid => ?_, h.wf⟩
  · rw [hkey.1, hkey.2.2]
    have hobj := h.object id
    by_cases hid : id = i
    · subst hid
      simp only [Function.update_self]
      rw [hv] at hobj
      unfold UndoState.onModify
      split
      · next hnew =>
        -- a new object needs no old value
        rw [← AList.lookup_isSome] at hnew
        generalize u.newIds.lookup id = n, u.oldValues.lookup id = o, u.removed.lookup id = r,
          s₀.objects id = o₀ at hobj hnew ⊢
        cases hobj with
        | new => exact .new _
        | upd => exact absurd hnew (by simp)
        | nop => exact absurd hnew (by simp)
      · next hnew =>
        split
        · next hupd =>
          rw [← AList.lookup_isSome] at hupd
          generalize u.newIds.lookup id = n, u.oldValues.lookup id = o, u.removed.lookup id = r,
            s₀.objects id = o₀ at hobj hupd ⊢
          cases hobj with
          | new => exact absurd hupd (by simp)
          | upd was => exact .upd was _
          | nop => exact absurd hupd (by simp)
        · next hupd =>
          rw [← AList.lookup_eq_none] at hnew hupd
          simp only [AList.lookup_insert]
          rw [hnew, hupd] at hobj
          rw [hnew]
          generalize u.removed.lookup id = r, s₀.objects id = o₀ at hobj ⊢
          cases hobj
          exact .upd v _
    · have hold : (u.onModify i v).oldValues.lookup id = u.oldValues.lookup id := by
        unfold UndoState.onModify
        split
        · rfl
        · split
          · rfl
          · exact AList.lookup_insert_ne hid
      rw [hold]
      simp only [Function.update_of_ne hid]
      exact hobj
  · rw [hkey.2.1]
    exact h.nextId k
  · rw [hkey.1] at hid
    exact h.fresh id hid

/-- `on_remove` extends the difference by a removal. -/
theorem Represents.remove (h : Represents u s₀ s₁) {i : ObjectId} {v : V}
    (hv : s₁.objects i = some v) (hr : s₁.remove i = .ok s₂) :
    Represents (u.onRemove i v) s₀ s₂ := by
  obtain ⟨v', hv', rfl⟩ := Store.remove_ok hr
  have hnext : (u.onRemove i v).oldIndexNextIds = u.oldIndexNextIds := by
    unfold UndoState.onRemove
    split
    · rfl
    · split
      · rfl
      · split <;> rfl
  have hnew : ∀ id, id ∈ (u.onRemove i v).newIds → id ∈ u.newIds := by
    intro id hid
    unfold UndoState.onRemove at hid
    split at hid
    · exact (AList.mem_erase.mp hid).2
    · split at hid
      · exact hid
      · split at hid <;> exact hid
  refine ⟨fun id => ?_, fun k => ?_, h.nextId_le, fun id hid => h.fresh id (hnew id hid), h.wf⟩
  · have hobj := h.object id
    by_cases hid : id = i
    · subst hid
      simp only [Function.update_self]
      rw [hv] at hobj
      unfold UndoState.onRemove
      split
      · next hmem =>
        -- an object created in this session leaves no trace
        rw [← AList.lookup_isSome] at hmem
        simp only [AList.lookup_erase]
        generalize u.newIds.lookup id = n, u.oldValues.lookup id = o, u.removed.lookup id = r,
          s₀.objects id = o₀ at hobj hmem ⊢
        cases hobj with
        | new => exact .nop none
        | upd => exact absurd hmem (by simp)
        | nop => exact absurd hmem (by simp)
      · next hmem =>
        rw [← AList.lookup_eq_none] at hmem
        split
        · next x hx =>
          simp only [AList.lookup_erase, AList.lookup_insert]
          rw [hmem, hx] at hobj
          rw [hmem]
          generalize u.removed.lookup id = r, s₀.objects id = o₀ at hobj ⊢
          cases hobj
          exact .del x
        · next hx =>
          rw [hmem, hx] at hobj
          have hrem : u.removed.lookup id = none ∧ s₀.objects id = some v := by
            generalize u.removed.lookup id = r, s₀.objects id = o₀ at hobj ⊢
            cases hobj
            exact ⟨rfl, rfl⟩
          rw [if_neg (AList.lookup_eq_none.mp hrem.1)]
          simp only [AList.lookup_insert]
          rw [hmem, hx, hrem.2]
          exact .del v
    · have hframe : (u.onRemove i v).newIds.lookup id = u.newIds.lookup id ∧
          (u.onRemove i v).oldValues.lookup id = u.oldValues.lookup id ∧
          (u.onRemove i v).removed.lookup id = u.removed.lookup id := by
        unfold UndoState.onRemove
        split
        · exact ⟨AList.lookup_erase_ne hid, rfl, rfl⟩
        · split
          · exact ⟨rfl, AList.lookup_erase_ne hid, AList.lookup_insert_ne hid⟩
          · split
            · exact ⟨rfl, rfl, rfl⟩
            · exact ⟨rfl, rfl, AList.lookup_insert_ne hid⟩
      rw [hframe.1, hframe.2.1, hframe.2.2]
      simp only [Function.update_of_ne hid]
      exact hobj
  · rw [hnext]
    exact h.nextId k

end Hooks

/-! ### Merging two change sets -/

/-- The entries of one object in a change set. -/
private def entries (id : ObjectId) (u : UndoState V) : Option Unit × Option V × Option V :=
  (u.newIds.lookup id, u.oldValues.lookup id, u.removed.lookup id)

/-- What the loop over `old_values` does to an object that is updated. -/
private def addUpd (v : V) (t : Option Unit × Option V × Option V) :
    Option Unit × Option V × Option V :=
  if t.1.isSome ∨ t.2.1.isSome then t else (t.1, some v, t.2.2)

/-- What the loop over `removed` does to an object that is deleted. -/
private def addDel (v : V) (t : Option Unit × Option V × Option V) :
    Option Unit × Option V × Option V :=
  if t.1.isSome then (none, t.2) else (t.1, none, some (t.2.1.getD v))

private theorem entries_mergeOldValue (u : UndoState V) (i : ObjectId) (v : V) :
    entries i (u.mergeOldValue ⟨i, v⟩) = addUpd v (entries i u) := by
  unfold UndoState.mergeOldValue addUpd entries
  simp only [← AList.lookup_isSome]
  split
  · next h => rw [if_pos (Or.inl h)]
  · next h =>
    split
    · next h' => rw [if_pos (Or.inr h')]
    · next h' => rw [if_neg (by simp [h, h'])]; simp

private theorem entries_mergeOldValue_ne (u : UndoState V) (i : ObjectId) (v : V) (id : ObjectId)
    (h : id ≠ i) : entries id (u.mergeOldValue ⟨i, v⟩) = entries id u := by
  unfold UndoState.mergeOldValue entries
  split
  · rfl
  · split
    · rfl
    · simp only [AList.lookup_insert_ne h]

private theorem entries_mergeRemoved (u : UndoState V) (i : ObjectId) (v : V) :
    entries i (u.mergeRemoved ⟨i, v⟩) = addDel v (entries i u) := by
  unfold UndoState.mergeRemoved addDel entries
  simp only [← AList.lookup_isSome]
  split
  · next h => simp only [AList.lookup_erase]
  · next h =>
    split
    · next x hx => simp only [AList.lookup_erase, AList.lookup_insert, hx, Option.getD_some]
    · next hx => simp only [AList.lookup_insert, hx, Option.getD_none]

private theorem entries_mergeRemoved_ne (u : UndoState V) (i : ObjectId) (v : V) (id : ObjectId)
    (h : id ≠ i) : entries id (u.mergeRemoved ⟨i, v⟩) = entries id u := by
  unfold UndoState.mergeRemoved entries
  split
  · simp only [AList.lookup_erase_ne h]
  · split
    · simp only [AList.lookup_insert_ne h, AList.lookup_erase_ne h]
    · simp only [AList.lookup_insert_ne h]

private theorem entries_mergeIndexNextId (u : UndoState V) (e : Sigma fun _ : IndexKey => ℕ)
    (id : ObjectId) : entries id (u.mergeIndexNextId e) = entries id u := by
  unfold UndoState.mergeIndexNextId
  split <;> rfl

/-- The entries of an object after `merge`, from its entries in the two change sets. -/
private theorem entries_merge (a b : UndoState V) (id : ObjectId) :
    entries id (a.merge b) =
      let t := (b.oldValues.lookup id).elim (entries id a) fun v => addUpd v (entries id a)
      let t := (b.newIds.lookup id).elim t fun _ => (some (), t.2)
      (b.removed.lookup id).elim t fun v => addDel v t := by
  dsimp only [UndoState.merge]
  have h₁ := KeyedLoop.foldl_keyed entries UndoState.mergeOldValue (fun _ v t => addUpd v t)
    entries_mergeOldValue (fun u i v id h => entries_mergeOldValue_ne u i v id h) b.oldValues a id
  generalize b.oldValues.entries.foldl UndoState.mergeOldValue a = u₁ at h₁ ⊢
  have h₂ := KeyedLoop.foldl_keyed entries UndoState.mergeNewId (fun _ _ t => (some (), t.2))
    (fun u i _ => by simp [entries, UndoState.mergeNewId])
    (fun u i _ id h => by simp only [entries, UndoState.mergeNewId, AList.lookup_insert_ne h])
    b.newIds u₁ id
  generalize b.newIds.entries.foldl UndoState.mergeNewId u₁ = u₂ at h₂ ⊢
  have h₃ := KeyedLoop.foldl_frame (entries id) UndoState.mergeIndexNextId
    (fun u e => entries_mergeIndexNextId u e id) b.oldIndexNextIds.entries u₂
  generalize b.oldIndexNextIds.entries.foldl UndoState.mergeIndexNextId u₂ = u₃ at h₃ ⊢
  have h₄ := KeyedLoop.foldl_keyed entries UndoState.mergeRemoved (fun _ v t => addDel v t)
    entries_mergeRemoved (fun u i v id h => entries_mergeRemoved_ne u i v id h) b.removed u₃ id
  rw [h₄, h₃, h₂, h₁]

/-- The next id recorded for an index after `merge`: the older one wins. -/
private theorem nextIds_merge (a b : UndoState V) (k : IndexKey) :
    (a.merge b).oldIndexNextIds.lookup k =
      (a.oldIndexNextIds.lookup k).or (b.oldIndexNextIds.lookup k) := by
  dsimp only [UndoState.merge]
  have h₁ := KeyedLoop.foldl_frame (fun u : UndoState V => u.oldIndexNextIds)
    UndoState.mergeOldValue
    (fun u e => by unfold UndoState.mergeOldValue; split <;> [rfl; (split <;> rfl)])
    b.oldValues.entries a
  generalize b.oldValues.entries.foldl UndoState.mergeOldValue a = u₁ at h₁ ⊢
  have h₂ := KeyedLoop.foldl_frame (fun u : UndoState V => u.oldIndexNextIds)
    UndoState.mergeNewId (fun u e => rfl) b.newIds.entries u₁
  generalize b.newIds.entries.foldl UndoState.mergeNewId u₁ = u₂ at h₂ ⊢
  have h₃ := KeyedLoop.foldl_keyed (fun k (u : UndoState V) => u.oldIndexNextIds.lookup k)
    UndoState.mergeIndexNextId (fun _ n o => o.or (some n))
    (fun u k n => by
      unfold UndoState.mergeIndexNextId
      split
      · next h =>
        obtain ⟨x, hx⟩ := Option.isSome_iff_exists.mp (AList.lookup_isSome.mpr h)
        rw [hx, Option.some_or]
      · next h => rw [AList.lookup_insert, AList.lookup_eq_none.mpr h, Option.none_or])
    (fun u k n k' hk => by
      unfold UndoState.mergeIndexNextId
      split
      · rfl
      · exact AList.lookup_insert_ne hk)
    b.oldIndexNextIds u₂ k
  generalize b.oldIndexNextIds.entries.foldl UndoState.mergeIndexNextId u₂ = u₃ at h₃ ⊢
  have h₄ := KeyedLoop.foldl_frame (fun u : UndoState V => u.oldIndexNextIds)
    UndoState.mergeRemoved
    (fun u e => by unfold UndoState.mergeRemoved; split <;> [rfl; (split <;> rfl)])
    b.removed.entries u₃
  rw [h₄, h₃, h₂, h₁]
  cases b.oldIndexNextIds.lookup k with
  | none => rw [Option.or_none, Option.elim_none]
  | some n => rfl

/-- **`merge` composes two differences.** The combinations the table marks N/A cannot occur: an
object that is new in the second change set has an id that was still free before the first. -/
theorem Represents.merge {a b : UndoState V} {s₀ s₁ s₂ : Store V} (ha : Represents a s₀ s₁)
    (hb : Represents b s₁ s₂) : Represents (a.merge b) s₀ s₂ := by
  refine ⟨fun id => ?_, fun k => ?_, fun k => le_trans (ha.nextId_le k) (hb.nextId_le k),
    fun id hid => ?_, ha.wf⟩
  · have hA := ha.object id
    have hB := hb.object id
    have hmerge := entries_merge a b id
    -- an object that is new in `b` is absent before `a`
    have hnew : b.newIds.lookup id = some () → s₀.objects id = none := by
      intro h
      have hmem : id ∈ b.newIds := AList.lookup_isSome.mp (by rw [h]; rfl)
      exact ha.wf.next_free id.index (le_trans (ha.nextId_le _) (hb.fresh id hmem))
    rw [show entries id a = (a.newIds.lookup id, a.oldValues.lookup id, a.removed.lookup id)
      from rfl] at hmerge
    rw [show (a.merge b).newIds.lookup id = (entries id (a.merge b)).1 from rfl,
      show (a.merge b).oldValues.lookup id = (entries id (a.merge b)).2.1 from rfl,
      show (a.merge b).removed.lookup id = (entries id (a.merge b)).2.2 from rfl, hmerge]
    generalize a.newIds.lookup id = n, a.oldValues.lookup id = o, a.removed.lookup id = r,
      b.newIds.lookup id = n', b.oldValues.lookup id = o', b.removed.lookup id = r',
      s₀.objects id = x₀, s₁.objects id = x₁, s₂.objects id = x₂ at hA hB hnew ⊢
    cases hB with
    | new v =>
      obtain rfl := hnew rfl
      cases hA with
      | nop => exact .new v
    | upd was v =>
      cases hA with
      | new => exact .new v
      | upd was' => exact .upd was' v
      | nop => exact .upd was v
    | del was =>
      cases hA with
      | new => exact .nop none
      | upd was' => exact .del was'
      | nop => exact .del was
    | nop => exact hA
  · rw [nextIds_merge, ha.nextId k, hb.nextId k]
    cases a.oldIndexNextIds.lookup k with
    | none => rw [Option.none_or, Option.getD_none]
    | some n => rfl
  · by_cases hb' : id ∈ b.newIds
    · exact le_trans (ha.nextId_le _) (hb.fresh id hb')
    · refine ha.fresh id ?_
      -- an id that is new after the merge but not in `b` was new in `a`
      have hn : b.newIds.lookup id = none := AList.lookup_eq_none.mpr hb'
      have hmerge := congrArg Prod.fst (entries_merge a b id)
      rw [← AList.lookup_isSome] at hid ⊢
      rw [show (entries id (a.merge b)).1 = (a.merge b).newIds.lookup id from rfl, hn] at hmerge
      rw [hmerge] at hid
      revert hid
      rw [show entries id a = (a.newIds.lookup id, a.oldValues.lookup id, a.removed.lookup id)
        from rfl]
      cases a.newIds.lookup id with
      | some _ => intro _; rfl
      | none =>
        cases b.oldValues.lookup id <;> cases b.removed.lookup id <;>
          simp [addUpd, addDel, apply_ite]

/-! ### Reverting a change set -/

/-- **The loops of `undo` lead back to the earlier store** and cannot fail. -/
theorem Represents.revert {u : UndoState V} {s₀ s₁ : Store V} (h : Represents u s₀ s₁) :
    u.revert s₁ = .ok s₀ := by
  -- the old values are restored
  obtain ⟨t₁, ht₁, hobj₁⟩ := KeyedLoop.foldlM_keyed (ε := DbError)
    (fun id (st : Store V) => st.objects id) (fun st e => st.modify e.1 fun _ => e.2)
    (fun _ _ o => o.isSome) (fun _ v _ => some v)
    (fun st i v hi => by
      obtain ⟨x, hx⟩ := Option.isSome_iff_exists.mp hi
      refine ⟨{ st with objects := Function.update st.objects i (some v) }, ?_, ?_, ?_⟩
      · simp only [Store.modify, hx]
      · exact Function.update_self ..
      · exact fun id hid => Function.update_of_ne hid ..)
    u.oldValues s₁
    (fun id v hv => by
      have hobj := h.object id
      rw [hv] at hobj
      generalize u.newIds.lookup id = n, u.removed.lookup id = r, s₀.objects id = x₀,
        s₁.objects id = x₁ at hobj
      cases hobj
      rfl)
  have hnext₁ := KeyedLoop.foldlM_frame (fun st : Store V => st.nextId)
    (fun st e => st.modify e.1 fun _ => e.2)
    (fun s s' e he => by
      obtain ⟨v, -, rfl⟩ := Store.modify_ok he
      rfl) u.oldValues.entries ht₁
  -- the new objects are removed
  obtain ⟨t₂, ht₂, hobj₂⟩ := KeyedLoop.foldlM_keyed (ε := DbError)
    (fun id (st : Store V) => st.objects id) (fun st e => st.remove e.1)
    (fun _ _ o => o.isSome) (fun _ _ _ => none)
    (fun st i v hi => by
      obtain ⟨x, hx⟩ := Option.isSome_iff_exists.mp hi
      refine ⟨{ st with objects := Function.update st.objects i none }, ?_, ?_, ?_⟩
      · simp only [Store.remove, hx]
      · exact Function.update_self ..
      · exact fun id hid => Function.update_of_ne hid ..)
    u.newIds t₁
    (fun id v hv => by
      have hobj := h.object id
      rw [hobj₁ id]
      rw [hv] at hobj
      generalize u.oldValues.lookup id = o, u.removed.lookup id = r, s₀.objects id = x₀,
        s₁.objects id = x₁ at hobj
      cases hobj
      rfl)
  have hnext₂ := KeyedLoop.foldlM_frame (fun st : Store V => st.nextId)
    (fun st (e : Sigma fun _ : ObjectId => Unit) => st.remove e.1)
    (fun s s' e he => by
      obtain ⟨v, -, rfl⟩ := Store.remove_ok he
      rfl) u.newIds.entries ht₂
  -- the next ids are restored
  set t₃ := u.oldIndexNextIds.entries.foldl (fun st e => Store.setNextId st e.1 e.2) t₂ with ht₃
  have hobj₃ : t₃.objects = t₂.objects :=
    KeyedLoop.foldl_frame (fun st : Store V => st.objects) (fun st e => st.setNextId e.1 e.2)
      (fun _ _ => rfl) u.oldIndexNextIds.entries t₂
  have hnext₃ : ∀ k, t₃.nextId k = s₀.nextId k := by
    intro k
    have hk := KeyedLoop.foldl_keyed (fun k (st : Store V) => st.nextId k)
      (fun st e => st.setNextId e.1 e.2) (fun _ n _ => n)
      (fun st k n => Function.update_self ..)
      (fun st k n k' hk => Function.update_of_ne hk ..) u.oldIndexNextIds t₂ k
    rw [← ht₃] at hk
    rw [hk, hnext₂, hnext₁, h.nextId k]
    cases u.oldIndexNextIds.lookup k <;> rfl
  -- the removed objects are inserted again
  obtain ⟨t₄, ht₄, hobj₄⟩ := KeyedLoop.foldlM_keyed (ε := DbError)
    (fun id (st : Store V) => st.objects id) (fun st e => st.insert e.1 e.2)
    (fun _ _ o => o = none) (fun _ v _ => some v)
    (fun st i v hi => by
      refine ⟨{ st with objects := Function.update st.objects i (some v) }, ?_, ?_, ?_⟩
      · simp only [Store.insert, hi]
      · exact Function.update_self ..
      · exact fun id hid => Function.update_of_ne hid ..)
    u.removed t₃
    (fun id v hv => by
      have hobj := h.object id
      rw [hobj₃, hobj₂ id, hobj₁ id]
      rw [hv] at hobj
      generalize u.newIds.lookup id = n, u.oldValues.lookup id = o, s₀.objects id = x₀,
        s₁.objects id = x₁ at hobj ⊢
      cases hobj
      rfl)
  have hnext₄ := KeyedLoop.foldlM_frame (fun st : Store V => st.nextId)
    (fun st (e : Sigma fun _ : ObjectId => V) => st.insert e.1 e.2)
    (fun s s' e he => by
      unfold Store.insert at he
      split at he
      · cases he
      · obtain rfl := Except.ok.inj he
        rfl) u.removed.entries ht₄
  have hend : t₄ = s₀ := by
    obtain ⟨obj, nxt⟩ := t₄
    obtain ⟨obj₀, nxt₀⟩ := s₀
    simp only [Store.mk.injEq]
    refine ⟨funext fun id => ?_, funext fun k => ?_⟩
    · have hid := hobj₄ id
      have hrel := h.object id
      simp only at hid hrel
      rw [hid, hobj₃, hobj₂ id, hobj₁ id]
      generalize u.newIds.lookup id = n, u.oldValues.lookup id = o, u.removed.lookup id = r,
        obj₀ id = x₀, s₁.objects id = x₁ at hrel ⊢
      cases hrel <;> rfl
    · have hk := hnext₃ k
      simp only at hk hnext₄
      rw [hnext₄, hk]
  unfold UndoState.revert
  simp only [bind, Except.bind] at ht₂ ht₄ ⊢
  rw [ht₁]
  simp only
  rw [ht₂]
  simp only
  rw [← ht₃, ht₄, hend]

/-! ### The stack -/

/-- The change sets of a stack are the differences between consecutive copies. -/
def RepresentsStack : List (UndoState V) → List (Store V) → Store V → Prop
  | [], [], _ => True
  | u :: us, s :: ss, cur => Represents u s cur ∧ RepresentsStack us ss s
  | _, _, _ => False

/-- The undo database `d` refines the stack of snapshots `a`. -/
structure Refines (d : UndoDatabase V) (a : SnapshotStack (Store V)) : Prop where
  current : a.current = d.store
  active : a.active = d.activeSessions
  maxSize : a.maxSize = d.maxSize
  enabled : d.disabled = false
  wf : d.store.WF
  stack : RepresentsStack d.stack a.saved d.store

theorem RepresentsStack.length_eq : ∀ {us : List (UndoState V)} {ss : List (Store V)}
    {cur : Store V}, RepresentsStack us ss cur → us.length = ss.length
  | [], [], _, _ => rfl
  | _ :: _, _ :: _, _, h => by rw [List.length_cons, List.length_cons, h.2.length_eq]
  | [], _ :: _, _, h => h.elim
  | _ :: _, [], _, h => h.elim

theorem RepresentsStack.take : ∀ {us : List (UndoState V)} {ss : List (Store V)}
    {cur : Store V} (n : ℕ), RepresentsStack us ss cur →
    RepresentsStack (us.take n) (ss.take n) cur
  | _, _, _, 0, _ => by simp [RepresentsStack]
  | [], [], _, _ + 1, _ => trivial
  | _ :: _, _ :: _, _, n + 1, h => ⟨h.1, h.2.take n⟩
  | [], _ :: _, _, _ + 1, h => h.elim
  | _ :: _, [], _, _ + 1, h => h.elim

/-- An enabled undo database without history refines the stack without copies. -/
theorem Refines.fresh {st : Store V} (h : st.WF) (n : ℕ) :
    Refines (UndoDatabase.fresh st n) ⟨st, [], 0, n⟩ :=
  ⟨rfl, rfl, rfl, rfl, h, trivial⟩

section Operations

variable {d d' : UndoDatabase V} {a : SnapshotStack (Store V)}

/-- One operation on the store with its hook: the newest change set, or an empty one if there is
none, is extended; on snapshots this is a change of the current state. -/
private theorem Refines.change (h : Refines d a) {st : Store V} {f : UndoState V → UndoState V}
    (hwf : st.WF) (hf : ∀ u s₀, Represents u s₀ d.store → Represents (f u) s₀ st) :
    Refines { d.withBack f with store := st } (a.change st) := by
  have hstack := h.stack
  cases hd : d.stack with
  | nil =>
    cases ha : a.saved with
    | cons s ss => rw [hd, ha] at hstack; exact hstack.elim
    | nil =>
      simp only [UndoDatabase.withBack, hd, SnapshotStack.change, ha]
      refine ⟨rfl, h.active, h.maxSize, h.enabled, hwf, ?_, trivial⟩
      rw [h.current]
      exact hf {} d.store (Represents.refl h.wf)
  | cons u us =>
    cases ha : a.saved with
    | nil => rw [hd, ha] at hstack; exact hstack.elim
    | cons s ss =>
      rw [hd, ha] at hstack
      simp only [UndoDatabase.withBack, hd, SnapshotStack.change, ha]
      exact ⟨rfl, h.active, h.maxSize, h.enabled, hwf, hf u s hstack.1, hstack.2⟩

theorem Refines.create (h : Refines d a) {k : IndexKey} {c : ObjectId → V}
    (hc : d.create k c = .ok d') : Refines d' (a.change d'.store) := by
  unfold UndoDatabase.create at hc
  simp only [bind, Except.bind] at hc
  cases hst : d.store.create k c with
  | error e => rw [hst] at hc; cases hc
  | ok st =>
    rw [hst] at hc
    simp only [Except.ok.injEq] at hc
    have key := h.change (f := fun u => u.onCreate (d.store.getNextId k)) (h.wf.create hst)
      (fun u s₀ hu => hu.create hst)
    have hd' : d' = { d.withBack (fun u => u.onCreate (d.store.getNextId k)) with store := st } := by
      rw [← hc]
      unfold UndoDatabase.onCreate UndoDatabase.withBack
      simp only [h.enabled, Bool.false_eq_true, if_false]
      split <;> rfl
    rw [hd']
    exact key

theorem Refines.modify (h : Refines d a) {i : ObjectId} {m : V → V}
    (hm : d.modify i m = .ok d') : Refines d' (a.change d'.store) := by
  unfold UndoDatabase.modify at hm
  split at hm
  · cases hm
  · next v hv =>
    have hon : d.onModify i v = d.withBack fun u => u.onModify i v := by
      simp only [UndoDatabase.onModify, h.enabled, Bool.false_eq_true, if_false]
    have hstore : (d.withBack fun u => u.onModify i v).store = d.store := by
      unfold UndoDatabase.withBack
      split <;> rfl
    simp only [bind, Except.bind, hon, hstore] at hm
    cases hst : d.store.modify i m with
    | error e => rw [hst] at hm; cases hm
    | ok st =>
      rw [hst] at hm
      obtain rfl := Except.ok.inj hm
      exact h.change (h.wf.modify hst) (fun u s₀ hu => hu.modify hv hst)

theorem Refines.remove (h : Refines d a) {i : ObjectId} (hr : d.remove i = .ok d') :
    Refines d' (a.change d'.store) := by
  unfold UndoDatabase.remove at hr
  split at hr
  · cases hr
  · next v hv =>
    have hon : d.onRemove i v = d.withBack fun u => u.onRemove i v := by
      simp only [UndoDatabase.onRemove, h.enabled, Bool.false_eq_true, if_false]
    have hstore : (d.withBack fun u => u.onRemove i v).store = d.store := by
      unfold UndoDatabase.withBack
      split <;> rfl
    simp only [bind, Except.bind, hon, hstore] at hr
    cases hst : d.store.remove i with
    | error e => rw [hst] at hr; cases hr
    | ok st =>
      rw [hst] at hr
      obtain rfl := Except.ok.inj hr
      exact h.change (h.wf.remove hst) (fun u s₀ hu => hu.remove hv hst)

theorem Refines.startUndoSession (h : Refines d a) : Refines d.startUndoSession a.start := by
  refine ⟨h.current, ?_, h.maxSize, h.enabled, h.wf, ?_⟩
  · change a.active + 1 = d.activeSessions + 1
    rw [h.active]
  · change Represents {} a.current d.store ∧
      RepresentsStack (d.stack.take d.maxSize) (a.saved.take a.maxSize) a.current
    rw [h.current, h.maxSize]
    exact ⟨Represents.refl h.wf, h.stack.take _⟩

/-- `undo` succeeds exactly when it does on snapshots, with the matching result. -/
theorem Refines.undo (h : Refines d a) {a' : SnapshotStack (Store V)} (ha : a.undo = some a') :
    ∃ d', d.undo = .ok d' ∧ Refines d' a' := by
  have hstack := h.stack
  unfold SnapshotStack.undo at ha
  split at ha
  · cases ha
  · next s ss hs =>
    split at ha
    · cases ha
    · next hact =>
      obtain rfl := Option.some.inj ha
      cases hd : d.stack with
      | nil => rw [hd, hs] at hstack; exact hstack.elim
      | cons u us =>
        rw [hd, hs] at hstack
        rw [h.active] at hact
        refine ⟨{ d with store := s, stack := us, activeSessions := d.activeSessions - 1 }, ?_, ?_⟩
        · unfold UndoDatabase.undo
          simp only [h.enabled, Bool.false_eq_true, if_false, hact, hd, hstack.1.revert, bind,
            Except.bind]
        · refine ⟨rfl, ?_, h.maxSize, h.enabled, hstack.1.wf, hstack.2⟩
          change a.active - 1 = d.activeSessions - 1
          rw [h.active]

theorem Refines.undo_inv (h : Refines d a) (hd : d.undo = .ok d') :
    ∃ a', a.undo = some a' ∧ Refines d' a' := by
  cases ha : a.undo with
  | some a' =>
    obtain ⟨d₁, hd₁, href⟩ := h.undo ha
    rw [hd] at hd₁
    obtain rfl := Except.ok.inj hd₁
    exact ⟨a', rfl, href⟩
  | none =>
    exfalso
    have hstack := h.stack
    unfold UndoDatabase.undo at hd
    simp only [h.enabled, Bool.false_eq_true, if_false] at hd
    unfold SnapshotStack.undo at ha
    split at hd
    · cases hd
    · next hact =>
      split at ha
      · next hs =>
        cases hdd : d.stack with
        | nil => rw [hdd] at hd; cases hd
        | cons u us => rw [hdd, hs] at hstack; exact hstack.elim
      · split at ha
        · next hact' => exact hact (h.active.symm.trans hact')
        · cases ha

/-- `merge` succeeds exactly when it does on snapshots, with the matching result. -/
theorem Refines.merge (h : Refines d a) {a' : SnapshotStack (Store V)} (ha : a.merge = some a') :
    ∃ d', d.merge = .ok d' ∧ Refines d' a' := by
  have hstack := h.stack
  unfold SnapshotStack.merge at ha
  split at ha
  · cases ha
  · next s hs =>
    split at ha
    · next hact =>
      obtain rfl := Option.some.inj ha
      rw [h.active] at hact
      cases hd : d.stack with
      | nil => rw [hd, hs] at hstack; exact hstack.elim
      | cons u us =>
        cases us with
        | cons u' us => rw [hd, hs] at hstack; exact hstack.2.elim
        | nil =>
          refine ⟨{ d with stack := [], activeSessions := 0 }, ?_, ?_⟩
          · unfold UndoDatabase.merge
            simp [hact, hd]
          · exact ⟨h.current, rfl, h.maxSize, h.enabled, h.wf, trivial⟩
    · cases ha
  · next s t ts hs =>
    split at ha
    · cases ha
    · next hact =>
      obtain rfl := Option.some.inj ha
      rw [h.active] at hact
      cases hd : d.stack with
      | nil => rw [hd, hs] at hstack; exact hstack.elim
      | cons u us =>
        cases us with
        | nil => rw [hd, hs] at hstack; exact hstack.2.elim
        | cons u' us =>
          rw [hd, hs] at hstack
          refine ⟨{ d with stack := u'.merge u :: us, activeSessions := d.activeSessions - 1 },
            ?_, ?_⟩
          · unfold UndoDatabase.merge
            simp [hact, hd]
          · refine ⟨h.current, ?_, h.maxSize, h.enabled, h.wf, ?_⟩
            · change a.active - 1 = d.activeSessions - 1
              rw [h.active]
            · exact ⟨hstack.2.1.merge hstack.1, hstack.2.2⟩

theorem Refines.merge_inv (h : Refines d a) (hd : d.merge = .ok d') :
    ∃ a', a.merge = some a' ∧ Refines d' a' := by
  cases ha : a.merge with
  | some a' =>
    obtain ⟨d₁, hd₁, href⟩ := h.merge ha
    rw [hd] at hd₁
    obtain rfl := Except.ok.inj hd₁
    exact ⟨a', rfl, href⟩
  | none =>
    exfalso
    have hlen := h.stack.length_eq
    unfold UndoDatabase.merge at hd
    rw [← h.active] at hd
    unfold SnapshotStack.merge at ha
    split at ha
    · next hs =>
      rw [hs] at hlen
      rw [List.length_eq_zero_iff.mp hlen] at hd
      simp at hd
    · next s hs =>
      rw [hs] at hlen
      obtain ⟨u, hu⟩ := List.length_eq_one_iff.mp hlen
      split at ha
      · cases ha
      · next hact =>
        rw [hu] at hd
        simp [hact] at hd
    · split at ha
      · next hact => simp [hact] at hd
      · cases ha

theorem Refines.commit (h : Refines d a) {a' : SnapshotStack (Store V)}
    (ha : a.commit = some a') : ∃ d', d.commit = .ok d' ∧ Refines d' a' := by
  unfold SnapshotStack.commit at ha
  split at ha
  · cases ha
  · next hact =>
    obtain rfl := Option.some.inj ha
    rw [h.active] at hact
    refine ⟨{ d with activeSessions := d.activeSessions - 1 }, ?_, ?_⟩
    · simp [UndoDatabase.commit, hact]
    · refine ⟨h.current, ?_, h.maxSize, h.enabled, h.wf, h.stack⟩
      change a.active - 1 = d.activeSessions - 1
      rw [h.active]

theorem Refines.popCommit (h : Refines d a) {a' : SnapshotStack (Store V)}
    (ha : a.popCommit = some a') : ∃ d', d.popCommit = .ok d' ∧ Refines d' a' := by
  have hstack := h.stack
  unfold SnapshotStack.popCommit at ha
  split at ha
  · cases ha
  · next s ss hs =>
    split at ha
    · next hact =>
      obtain rfl := Option.some.inj ha
      rw [h.active] at hact
      cases hd : d.stack with
      | nil => rw [hd, hs] at hstack; exact hstack.elim
      | cons u us =>
        rw [hd, hs] at hstack
        refine ⟨{ d with store := s, stack := us, disabled := false }, ?_, ?_⟩
        · unfold UndoDatabase.popCommit
          simp only [hact, ne_eq, not_true_eq_false, if_false, hd, hstack.1.revert, bind,
            Except.bind]
        · exact ⟨rfl, h.active, h.maxSize, rfl, hstack.1.wf, hstack.2⟩
    · cases ha

end Operations

end FinChain
