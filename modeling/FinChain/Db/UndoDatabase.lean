import FinChain.Db.Store

/-!
# The undo database

`undo_state` and `undo_database`: the change sets recorded for each session and the operations
on the stack of change sets. The stack is a list with the newest change set first, so
`_stack.back()` is the head and `pop_front` drops the last element. The containers of a change
set are hash maps and a hash set; the loops over them are folds over their entries.

`undo` and `pop_commit` run with the undo database disabled, so the modifications they make are
those of the store alone. The object database the undo database is attached to is its `store`.
-/

namespace FinChain

variable {V : Type}

/-- `undo_state`: the changes made since a session was started. -/
structure UndoState (V : Type) where
  /-- The values objects had before their first modification. -/
  oldValues : AList fun _ : ObjectId => V := ∅
  /-- The next ids indexes had before their first creation. -/
  oldIndexNextIds : AList fun _ : IndexKey => ℕ := ∅
  /-- The ids of the objects created. -/
  newIds : AList fun _ : ObjectId => Unit := ∅
  /-- The values removed objects had. -/
  removed : AList fun _ : ObjectId => V := ∅

namespace UndoState

/-- `undo_database::on_create` on the newest change set. -/
def onCreate (u : UndoState V) (id : ObjectId) : UndoState V :=
  { u with
    oldIndexNextIds :=
      if id.index ∈ u.oldIndexNextIds then u.oldIndexNextIds
      else u.oldIndexNextIds.insert id.index id.inst
    newIds := u.newIds.insert id () }

/-- `undo_database::on_modify` on the newest change set; `v` is the value before. -/
def onModify (u : UndoState V) (id : ObjectId) (v : V) : UndoState V :=
  if id ∈ u.newIds then u
  else if id ∈ u.oldValues then u
  else { u with oldValues := u.oldValues.insert id v }

/-- `undo_database::on_remove` on the newest change set; `v` is the value before. -/
def onRemove (u : UndoState V) (id : ObjectId) (v : V) : UndoState V :=
  if id ∈ u.newIds then { u with newIds := u.newIds.erase id }
  else match u.oldValues.lookup id with
    | some x => { u with removed := u.removed.insert id x, oldValues := u.oldValues.erase id }
    | none => if id ∈ u.removed then u else { u with removed := u.removed.insert id v }

/-- The four loops of `undo_database::undo` (and of `pop_commit`): restore the old values, remove
the new objects, restore the next ids, insert the removed objects again. -/
def revert (u : UndoState V) (st : Store V) : Except DbError (Store V) := do
  let st ← u.oldValues.entries.foldlM (fun st e => st.modify e.1 fun _ => e.2) st
  let st ← u.newIds.entries.foldlM (fun st e => st.remove e.1) st
  let st := u.oldIndexNextIds.entries.foldl (fun st e => st.setNextId e.1 e.2) st
  u.removed.entries.foldlM (fun st e => st.insert e.1 e.2) st

/-- The loop over `state.old_values` of `merge`. -/
def mergeOldValue (prev : UndoState V) (e : Sigma fun _ : ObjectId => V) : UndoState V :=
  if e.1 ∈ prev.newIds then prev
  else if e.1 ∈ prev.oldValues then prev
  else { prev with oldValues := prev.oldValues.insert e.1 e.2 }

/-- The loop over `state.new_ids` of `merge`. -/
def mergeNewId (prev : UndoState V) (e : Sigma fun _ : ObjectId => Unit) : UndoState V :=
  { prev with newIds := prev.newIds.insert e.1 () }

/-- The loop over `state.old_index_next_ids` of `merge`. -/
def mergeIndexNextId (prev : UndoState V) (e : Sigma fun _ : IndexKey => ℕ) : UndoState V :=
  if e.1 ∈ prev.oldIndexNextIds then prev
  else { prev with oldIndexNextIds := prev.oldIndexNextIds.insert e.1 e.2 }

/-- The loop over `state.removed` of `merge`. -/
def mergeRemoved (prev : UndoState V) (e : Sigma fun _ : ObjectId => V) : UndoState V :=
  if e.1 ∈ prev.newIds then { prev with newIds := prev.newIds.erase e.1 }
  else match prev.oldValues.lookup e.1 with
    | some x =>
      { prev with removed := prev.removed.insert e.1 x, oldValues := prev.oldValues.erase e.1 }
    | none => { prev with removed := prev.removed.insert e.1 e.2 }

/-- `undo_database::merge`: fold the newest change set `state` into the one before it. -/
def merge (prev state : UndoState V) : UndoState V :=
  let prev := state.oldValues.entries.foldl mergeOldValue prev
  let prev := state.newIds.entries.foldl mergeNewId prev
  let prev := state.oldIndexNextIds.entries.foldl mergeIndexNextId prev
  state.removed.entries.foldl mergeRemoved prev

end UndoState

/-- An object database with its undo database. -/
structure UndoDatabase (V : Type) where
  store : Store V
  /-- `_stack`, newest change set first. -/
  stack : List (UndoState V) := []
  activeSessions : ℕ := 0
  disabled : Bool := true
  maxSize : ℕ := 256

namespace UndoDatabase

/-- Apply a hook to `_stack.back()`, after `emplace_back` if the stack is empty. -/
def withBack (d : UndoDatabase V) (f : UndoState V → UndoState V) : UndoDatabase V :=
  match d.stack with
  | [] => { d with stack := [f {}] }
  | u :: us => { d with stack := f u :: us }

/-- `undo_database::on_create`. -/
def onCreate (d : UndoDatabase V) (id : ObjectId) : UndoDatabase V :=
  if d.disabled then d else d.withBack fun u => u.onCreate id

/-- `undo_database::on_modify`. -/
def onModify (d : UndoDatabase V) (id : ObjectId) (v : V) : UndoDatabase V :=
  if d.disabled then d else d.withBack fun u => u.onModify id v

/-- `undo_database::on_remove`. -/
def onRemove (d : UndoDatabase V) (id : ObjectId) (v : V) : UndoDatabase V :=
  if d.disabled then d else d.withBack fun u => u.onRemove id v

/-- `primary_index::create`: the hook runs after the object was added. -/
def create (d : UndoDatabase V) (k : IndexKey) (constructor : ObjectId → V) :
    Except DbError (UndoDatabase V) := do
  let id := d.store.getNextId k
  let st ← d.store.create k constructor
  .ok ({ d with store := st }.onCreate id)

/-- `primary_index::modify` with a callback that returns: the hook runs first. -/
def modify (d : UndoDatabase V) (id : ObjectId) (m : V → V) : Except DbError (UndoDatabase V) :=
  match d.store.objects id with
  | none => .error .unableToFindObject
  | some v => do
    let d := d.onModify id v
    let st ← d.store.modify id m
    .ok { d with store := st }

/-- `primary_index::remove`: the hook runs first. -/
def remove (d : UndoDatabase V) (id : ObjectId) : Except DbError (UndoDatabase V) :=
  match d.store.objects id with
  | none => .error .unableToFindObject
  | some v => do
    let d := d.onRemove id v
    let st ← d.store.remove id
    .ok { d with store := st }

/-- `undo_database::start_undo_session` on an enabled undo database: drop the oldest change sets
beyond `max_size`, then push an empty one. -/
def startUndoSession (d : UndoDatabase V) : UndoDatabase V :=
  { d with
    stack := {} :: d.stack.take d.maxSize
    activeSessions := d.activeSessions + 1 }

/-- `undo_database::undo`. -/
def undo (d : UndoDatabase V) : Except DbError (UndoDatabase V) :=
  if d.disabled then .error .assertion
  else if d.activeSessions = 0 then .error .assertion
  else match d.stack with
    | [] => .error .undefinedBack
    | u :: us => do
      let st ← u.revert d.store
      .ok { d with store := st, stack := us, activeSessions := d.activeSessions - 1 }

/-- `undo_database::merge`. -/
def merge (d : UndoDatabase V) : Except DbError (UndoDatabase V) :=
  if d.activeSessions = 0 then .error .assertion
  else if d.activeSessions = 1 ∧ d.stack.length = 1 then
    .ok { d with stack := d.stack.tail, activeSessions := d.activeSessions - 1 }
  else match d.stack with
    | state :: prev :: us =>
      .ok { d with stack := prev.merge state :: us, activeSessions := d.activeSessions - 1 }
    | _ => .error .assertion

/-- `undo_database::commit`. -/
def commit (d : UndoDatabase V) : Except DbError (UndoDatabase V) :=
  if d.activeSessions = 0 then .error .assertion
  else .ok { d with activeSessions := d.activeSessions - 1 }

/-- `undo_database::pop_commit`. -/
def popCommit (d : UndoDatabase V) : Except DbError (UndoDatabase V) :=
  if d.activeSessions ≠ 0 then .error .assertion
  else match d.stack with
    | [] => .error .assertion
    | u :: us => do
      let st ← u.revert d.store
      .ok { d with store := st, stack := us, disabled := false }

/-- An undo database over a store, enabled and without history, as after
`object_database::object_database`. -/
def fresh (st : Store V) (maxSize : ℕ) : UndoDatabase V :=
  { store := st, disabled := false, maxSize := maxSize }

end UndoDatabase

end FinChain
