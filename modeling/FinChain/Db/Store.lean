import Mathlib.Data.List.AList
import Mathlib.Logic.Function.Basic

/-!
# The object store

The objects of an `object_database`, keyed by id, together with the next id of each index.
The operations are those an index offers (`create`, `modify`, `remove`, `insert`,
`set_next_id`), without the notifications to the undo database, which `UndoDatabase` adds.

An object is its id and its value: `modify` passes the value to the callback, so a callback
cannot move an object to another id. Secondary keys are not part of the store, an insertion
fails only when the id is taken. Instance numbers are natural numbers; the 48 bits an id
reserves for them are never exhausted.
-/

namespace FinChain

/-- The index an object belongs to: its space and its type within the space. -/
structure IndexKey where
  space : ℕ
  typ : ℕ
  deriving DecidableEq, Repr

/-- `object_id_type`: the index of the object and its instance number in it. -/
structure ObjectId where
  index : IndexKey
  inst : ℕ
  deriving DecidableEq, Repr

/-- The failures of the object and undo databases. -/
inductive DbError
  /-- `index::get`: "Unable to find Object". -/
  | unableToFindObject
  /-- `generic_index::insert` and `create`: a uniqueness constraint was violated. -/
  | uniquenessViolated
  /-- An `FC_ASSERT` of the undo database. -/
  | assertion
  /-- `_stack.back()` of an empty `std::deque`. -/
  | undefinedBack
  /-- An exception thrown by a callback. -/
  | callback
  deriving DecidableEq, Repr

/-- The objects of every index and every index's next id. -/
structure Store (V : Type) where
  objects : ObjectId → Option V
  /-- `primary_index::_next_id`, as the instance number it carries. -/
  nextId : IndexKey → ℕ

namespace Store

variable {V : Type}

/-- Every object has an id below its index's next id. Stores built by `create`, `modify` and
`remove` from an empty one are of this form (`WF.create`, `WF.modify`, `WF.remove`). -/
def WF (st : Store V) : Prop :=
  ∀ id, (st.objects id).isSome → id.inst < st.nextId id.index

/-- `index::get_next_id`. -/
def getNextId (st : Store V) (k : IndexKey) : ObjectId := ⟨k, st.nextId k⟩

/-- `index::create`: build an object with the next id, insert it, and use the id up. -/
def create (st : Store V) (k : IndexKey) (constructor : ObjectId → V) :
    Except DbError (Store V) :=
  match st.objects (st.getNextId k) with
  | some _ => .error .uniquenessViolated
  | none => .ok
      { objects := Function.update st.objects (st.getNextId k)
          (some (constructor (st.getNextId k)))
        nextId := Function.update st.nextId k (st.nextId k + 1) }

/-- `get_object` followed by `index::modify`. -/
def modify (st : Store V) (id : ObjectId) (m : V → V) : Except DbError (Store V) :=
  match st.objects id with
  | none => .error .unableToFindObject
  | some v => .ok { st with objects := Function.update st.objects id (some (m v)) }

/-- `get_object` followed by `index::remove`. -/
def remove (st : Store V) (id : ObjectId) : Except DbError (Store V) :=
  match st.objects id with
  | none => .error .unableToFindObject
  | some _ => .ok { st with objects := Function.update st.objects id none }

/-- `index::insert`. -/
def insert (st : Store V) (id : ObjectId) (v : V) : Except DbError (Store V) :=
  match st.objects id with
  | some _ => .error .uniquenessViolated
  | none => .ok { st with objects := Function.update st.objects id (some v) }

/-- `index::set_next_id`. -/
def setNextId (st : Store V) (k : IndexKey) (n : ℕ) : Store V :=
  { st with nextId := Function.update st.nextId k n }

/-! ### What a successful operation did -/

theorem create_ok {st st' : Store V} {k : IndexKey} {c : ObjectId → V}
    (h : st.create k c = .ok st') :
    st.objects (st.getNextId k) = none ∧
      st'.objects = Function.update st.objects (st.getNextId k) (some (c (st.getNextId k))) ∧
      st'.nextId = Function.update st.nextId k (st.nextId k + 1) := by
  unfold create at h
  split at h
  · cases h
  · next hnone =>
    obtain rfl := Except.ok.inj h
    exact ⟨hnone, rfl, rfl⟩

theorem modify_ok {st st' : Store V} {id : ObjectId} {m : V → V} (h : st.modify id m = .ok st') :
    ∃ v, st.objects id = some v ∧
      st' = { st with objects := Function.update st.objects id (some (m v)) } := by
  unfold modify at h
  split at h
  · cases h
  · next v hv => exact ⟨v, hv, (Except.ok.inj h).symm⟩

theorem remove_ok {st st' : Store V} {id : ObjectId} (h : st.remove id = .ok st') :
    ∃ v, st.objects id = some v ∧
      st' = { st with objects := Function.update st.objects id none } := by
  unfold remove at h
  split at h
  · cases h
  · next v hv => exact ⟨v, hv, (Except.ok.inj h).symm⟩

/-! ### Well-formedness -/

/-- In a well-formed store the next id of an index is free. -/
theorem WF.next_free {st : Store V} (h : st.WF) (k : IndexKey) {n : ℕ} (hn : st.nextId k ≤ n) :
    st.objects ⟨k, n⟩ = none := by
  by_contra hne
  have := h ⟨k, n⟩ (Option.isSome_iff_ne_none.mpr hne)
  simp only at this
  omega

theorem WF.create {st st' : Store V} (hwf : st.WF) {k : IndexKey} {c : ObjectId → V}
    (h : st.create k c = .ok st') : st'.WF := by
  obtain ⟨-, hobj, hnext⟩ := create_ok h
  intro id hid
  rw [hnext]
  by_cases hk : id.index = k
  · rw [hk, Function.update_self]
    by_cases heq : id = st.getNextId k
    · rw [heq]
      exact Nat.lt_succ_self _
    · rw [hobj, Function.update_of_ne heq] at hid
      have := hwf id hid
      rw [hk] at this
      omega
  · rw [Function.update_of_ne hk]
    have heq : id ≠ st.getNextId k := fun h => hk (by rw [h]; rfl)
    rw [hobj, Function.update_of_ne heq] at hid
    exact hwf id hid

theorem WF.modify {st st' : Store V} (hwf : st.WF) {i : ObjectId} {m : V → V}
    (h : st.modify i m = .ok st') : st'.WF := by
  obtain ⟨v, hv, rfl⟩ := modify_ok h
  intro id hid
  by_cases heq : id = i
  · subst heq
    exact hwf id (by rw [hv]; rfl)
  · simp only [Function.update_of_ne heq] at hid
    exact hwf id hid

theorem WF.remove {st st' : Store V} (hwf : st.WF) {i : ObjectId}
    (h : st.remove i = .ok st') : st'.WF := by
  obtain ⟨v, hv, rfl⟩ := remove_ok h
  intro id hid
  by_cases heq : id = i
  · subst heq
    exact hwf id (by rw [hv]; rfl)
  · simp only [Function.update_of_ne heq] at hid
    exact hwf id hid

end Store

end FinChain
