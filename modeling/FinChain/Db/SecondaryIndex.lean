import FinChain.Db.UndoDatabase
import FinChain.Lib.Exec
import FinChain.Lib.Table

/-!
# Secondary indexes

A secondary index hangs on an index of the object database and is told of what happens to its objects:
`primary_index` calls it after an object was created, before one is removed, and before and after one is
modified. `undo` and `pop_commit` modify and remove through the same functions; the objects that were
removed in the session they put back with `insert`, which `primary_index` does not override, and nobody is
told.

What is to be known of a secondary index is how it is related to the objects that it is about. `Tracks` says
which of its callbacks keep a relation, a modification only if the old and the new value are as `P` wants
them, and being put back only if the value is as `Q` wants it. From this follow the cases of a call
(`exec_holds`), with what `P` and `Q` have to be asked of.
-/

namespace FinChain

open Exec

variable {V σ : Type}

/-- A `secondary_index` on the objects of one index, with the instance numbers of the objects. -/
structure SecondaryIndex (V σ : Type) where
  key : IndexKey
  objectInserted : ℕ → V → σ → σ
  objectRemoved : ℕ → V → σ → σ
  aboutToModify : ℕ → V → σ → σ
  objectModified : ℕ → V → σ → σ

/-- A store and the secondary index on one of its indexes. -/
structure IndexedStore (V σ : Type) where
  store : Store V
  secondary : σ

namespace SecondaryIndex

variable (I : SecondaryIndex V σ)

/-- Call the secondary index, if it is on this index. -/
def notify (k : IndexKey) (f : σ → σ) (s : σ) : σ := if k = I.key then f s else s

/-- `primary_index::create`. -/
def create (x : IndexedStore V σ) (k : IndexKey) (constructor : ObjectId → V) :
    Except DbError (IndexedStore V σ) := do
  let id := x.store.getNextId k
  let st ← x.store.create k constructor
  .ok ⟨st, I.notify k (I.objectInserted id.inst (constructor id)) x.secondary⟩

/-- `primary_index::modify`. -/
def modify (x : IndexedStore V σ) (id : ObjectId) (m : V → V) : Except DbError (IndexedStore V σ) :=
  match x.store.objects id with
  | none => .error .unableToFindObject
  | some v => do
    let s := I.notify id.index (I.aboutToModify id.inst v) x.secondary
    let st ← x.store.modify id m
    .ok ⟨st, I.notify id.index (I.objectModified id.inst (m v)) s⟩

/-- `primary_index::remove`. -/
def remove (x : IndexedStore V σ) (id : ObjectId) : Except DbError (IndexedStore V σ) :=
  match x.store.objects id with
  | none => .error .unableToFindObject
  | some v => do
    let s := I.notify id.index (I.objectRemoved id.inst v) x.secondary
    let st ← x.store.remove id
    .ok ⟨st, s⟩

/-- `generic_index::insert`. -/
def insert (x : IndexedStore V σ) (id : ObjectId) (v : V) : Except DbError (IndexedStore V σ) := do
  let st ← x.store.insert id v
  .ok { x with store := st }

/-- The loops of `undo` and `pop_commit`. -/
def revert (u : UndoState V) (x : IndexedStore V σ) : Except DbError (IndexedStore V σ) := do
  let x ← u.oldValues.entries.foldlM (fun x e => I.modify x e.1 fun _ => e.2) x
  let x ← u.newIds.entries.foldlM (fun x e => I.remove x e.1) x
  let st := u.oldIndexNextIds.entries.foldl (fun st e => st.setNextId e.1 e.2) x.store
  u.removed.entries.foldlM (fun x e => insert x e.1 e.2) { x with store := st }

end SecondaryIndex

/-! ### Runs -/

/-- An undo database and a secondary index. -/
structure IndexedDatabase (V σ : Type) where
  db : UndoDatabase V
  secondary : σ

/-- The calls of a run. -/
inductive DbCall (V : Type)
  | startUndoSession
  | create (k : IndexKey) (constructor : ObjectId → V)
  | modify (id : ObjectId) (m : V → V)
  | remove (id : ObjectId)
  | undo
  | merge
  | commit
  | popCommit
  /-- `enable` and `disable`. -/
  | setDisabled (disabled : Bool)

namespace IndexedDatabase

/-- The objects and the secondary index. -/
def indexed (x : IndexedDatabase V σ) : IndexedStore V σ := ⟨x.db.store, x.secondary⟩

/-- Nothing has been created. -/
def empty (maxSize : ℕ) (secondary : σ) : IndexedDatabase V σ where
  db := UndoDatabase.fresh ⟨fun _ => none, fun _ => 0⟩ maxSize
  secondary := secondary

variable (I : SecondaryIndex V σ)

/-- The newest change set is reverted and dropped. -/
def revertBack (x : IndexedDatabase V σ) (f : UndoDatabase V → UndoDatabase V) :
    Except DbError (IndexedDatabase V σ) :=
  match x.db.stack with
  | [] => .error .undefinedBack
  | u :: us => do
    let y ← I.revert u x.indexed
    .ok ⟨f { x.db with store := y.store, stack := us }, y.secondary⟩

/-- One call. -/
def exec (x : IndexedDatabase V σ) : DbCall V → Except DbError (IndexedDatabase V σ)
  | .startUndoSession => .ok { x with db := x.db.startUndoSession }
  | .create k c => do
    let y ← I.create x.indexed k c
    .ok ⟨{ x.db with store := y.store }.onCreate (x.db.store.getNextId k), y.secondary⟩
  | .modify id m =>
    match x.db.store.objects id with
    | none => .error .unableToFindObject
    | some v => do
      let y ← I.modify x.indexed id m
      .ok ⟨{ x.db.onModify id v with store := y.store }, y.secondary⟩
  | .remove id =>
    match x.db.store.objects id with
    | none => .error .unableToFindObject
    | some v => do
      let y ← I.remove x.indexed id
      .ok ⟨{ x.db.onRemove id v with store := y.store }, y.secondary⟩
  | .undo =>
    if x.db.disabled then .error .assertion
    else if x.db.activeSessions = 0 then .error .assertion
    else x.revertBack I fun d => { d with activeSessions := d.activeSessions - 1 }
  | .merge => do
    let d ← x.db.merge
    .ok { x with db := d }
  | .commit => do
    let d ← x.db.commit
    .ok { x with db := d }
  | .popCommit =>
    if x.db.activeSessions ≠ 0 then .error .assertion
    else if x.db.stack = [] then .error .assertion
    else x.revertBack I fun d => { d with disabled := false }
  | .setDisabled b => .ok { x with db := { x.db with disabled := b } }

/-- A run of calls, none of which throws. -/
def run (x : IndexedDatabase V σ) : List (DbCall V) → Except DbError (IndexedDatabase V σ)
  | [] => .ok x
  | c :: l => do
    let y ← x.exec I c
    y.run l

end IndexedDatabase

/-! ### The objects do not depend on it -/

section Store

variable {I : SecondaryIndex V σ}

/-- A loop over an indexed store is a loop over the store. -/
theorem foldlM_store {α : Type} {f : IndexedStore V σ → α → Except DbError (IndexedStore V σ)}
    {g : Store V → α → Except DbError (Store V)}
    (hstep : ∀ {x y a}, f x a = .ok y → g x.store a = .ok y.store) :
    ∀ {l : List α} {x y : IndexedStore V σ}, l.foldlM f x = .ok y →
      l.foldlM g x.store = .ok y.store := by
  intro l
  induction l with
  | nil =>
    intro x y h
    obtain rfl := Except.ok.inj h
    rfl
  | cons a l ih =>
    intro x y h
    obtain ⟨z, hz, h⟩ := except_bind_eq_ok.mp h
    exact except_bind_eq_ok.mpr ⟨z.store, hstep hz, ih h⟩

theorem SecondaryIndex.create_ok {x y : IndexedStore V σ} {k : IndexKey} {c : ObjectId → V}
    (h : I.create x k c = .ok y) : x.store.create k c = .ok y.store ∧
      y.secondary = I.notify k (I.objectInserted (x.store.nextId k) (c (x.store.getNextId k)))
        x.secondary := by
  obtain ⟨st, hst, h⟩ := except_bind_eq_ok.mp h
  obtain rfl := Except.ok.inj h
  exact ⟨hst, rfl⟩

theorem SecondaryIndex.modify_ok {x y : IndexedStore V σ} {id : ObjectId} {m : V → V}
    (h : I.modify x id m = .ok y) : x.store.modify id m = .ok y.store ∧
      ∃ v, x.store.objects id = some v ∧ y.secondary = I.notify id.index (I.objectModified id.inst (m v))
        (I.notify id.index (I.aboutToModify id.inst v) x.secondary) := by
  unfold SecondaryIndex.modify at h
  split at h
  · cases h
  · next v hv =>
    obtain ⟨st, hst, h⟩ := except_bind_eq_ok.mp h
    obtain rfl := Except.ok.inj h
    exact ⟨hst, v, hv, rfl⟩

theorem SecondaryIndex.remove_ok {x y : IndexedStore V σ} {id : ObjectId}
    (h : I.remove x id = .ok y) : x.store.remove id = .ok y.store ∧
      ∃ v, x.store.objects id = some v ∧
        y.secondary = I.notify id.index (I.objectRemoved id.inst v) x.secondary := by
  unfold SecondaryIndex.remove at h
  split at h
  · cases h
  · next v hv =>
    obtain ⟨st, hst, h⟩ := except_bind_eq_ok.mp h
    obtain rfl := Except.ok.inj h
    exact ⟨hst, v, hv, rfl⟩

theorem SecondaryIndex.insert_ok {x y : IndexedStore V σ} {id : ObjectId} {v : V}
    (h : SecondaryIndex.insert x id v = .ok y) :
    x.store.insert id v = .ok y.store ∧ y.secondary = x.secondary := by
  obtain ⟨st, hst, h⟩ := except_bind_eq_ok.mp h
  obtain rfl := Except.ok.inj h
  exact ⟨hst, rfl⟩

/-- The loops of an indexed database are those of the undo database. -/
theorem SecondaryIndex.revert_store {u : UndoState V} {x y : IndexedStore V σ}
    (h : I.revert u x = .ok y) : u.revert x.store = .ok y.store := by
  obtain ⟨x₁, h₁, h⟩ := except_bind_eq_ok.mp h
  obtain ⟨x₂, h₂, h₃⟩ := except_bind_eq_ok.mp h
  refine except_bind_eq_ok.mpr ⟨x₁.store, foldlM_store (fun h => (modify_ok h).1) h₁, ?_⟩
  refine except_bind_eq_ok.mpr ⟨x₂.store,
    foldlM_store (g := fun st (e : Sigma fun _ : ObjectId => Unit) => st.remove e.1) (fun h => (remove_ok h).1) h₂, ?_⟩
  exact foldlM_store (fun h => (insert_ok h).1) h₃

theorem UndoDatabase.store_withBack (d : UndoDatabase V) (f : UndoState V → UndoState V) :
    (d.withBack f).store = d.store := by
  unfold withBack
  split
  · rfl
  · rfl

theorem UndoDatabase.store_onCreate (d : UndoDatabase V) (id : ObjectId) :
    (d.onCreate id).store = d.store := by
  unfold onCreate
  split
  · rfl
  · exact d.store_withBack _

theorem UndoDatabase.store_onModify (d : UndoDatabase V) (id : ObjectId) (v : V) :
    (d.onModify id v).store = d.store := by
  unfold onModify
  split
  · rfl
  · exact d.store_withBack _

theorem UndoDatabase.store_onRemove (d : UndoDatabase V) (id : ObjectId) (v : V) :
    (d.onRemove id v).store = d.store := by
  unfold onRemove
  split
  · rfl
  · exact d.store_withBack _

theorem UndoDatabase.store_of_merge {d d' : UndoDatabase V} (h : d.merge = .ok d') :
    d'.store = d.store := by
  unfold merge at h
  split at h
  · cases h
  split at h
  · obtain rfl := Except.ok.inj h
    rfl
  split at h
  · obtain rfl := Except.ok.inj h
    rfl
  · cases h

theorem UndoDatabase.store_of_commit {d d' : UndoDatabase V} (h : d.commit = .ok d') :
    d'.store = d.store := by
  unfold commit at h
  split at h
  · cases h
  · obtain rfl := Except.ok.inj h
    rfl

/-- A call on the undo database alone. -/
def UndoDatabase.call (d : UndoDatabase V) : DbCall V → Except DbError (UndoDatabase V)
  | .startUndoSession => .ok d.startUndoSession
  | .create k c => d.create k c
  | .modify id m => d.modify id m
  | .remove id => d.remove id
  | .undo => d.undo
  | .merge => d.merge
  | .commit => d.commit
  | .popCommit => d.popCommit
  | .setDisabled b => .ok { d with disabled := b }

theorem IndexedDatabase.revertBack_ok {x y : IndexedDatabase V σ} {f : UndoDatabase V → UndoDatabase V}
    (h : x.revertBack I f = .ok y) : ∃ u us z, x.db.stack = u :: us ∧ I.revert u x.indexed = .ok z ∧
      y = ⟨f { x.db with store := z.store, stack := us }, z.secondary⟩ := by
  unfold revertBack at h
  split at h
  · cases h
  · next u us hstack =>
    obtain ⟨z, hz, h⟩ := except_bind_eq_ok.mp h
    exact ⟨u, us, z, hstack, hz, (Except.ok.inj h).symm⟩

/-- **The secondary index only looks on**: without it the objects and the change sets are the same. -/
theorem IndexedDatabase.exec_db {x y : IndexedDatabase V σ} {c : DbCall V} (h : x.exec I c = .ok y) :
    x.db.call c = .ok y.db := by
  cases c with
  | startUndoSession | setDisabled b =>
    obtain rfl := Except.ok.inj h
    rfl
  | create k c =>
    obtain ⟨z, hz, h⟩ := except_bind_eq_ok.mp h
    obtain rfl := Except.ok.inj h
    exact except_bind_eq_ok.mpr ⟨z.store, (SecondaryIndex.create_ok hz).1, rfl⟩
  | modify id m =>
    rw [exec] at h
    split at h
    · cases h
    · next v hv =>
      obtain ⟨z, hz, h⟩ := except_bind_eq_ok.mp h
      obtain rfl := Except.ok.inj h
      rw [UndoDatabase.call, UndoDatabase.modify, hv]
      refine except_bind_eq_ok.mpr ⟨z.store, ?_, rfl⟩
      rw [UndoDatabase.store_onModify]
      exact (SecondaryIndex.modify_ok hz).1
  | remove id =>
    rw [exec] at h
    split at h
    · cases h
    · next v hv =>
      obtain ⟨z, hz, h⟩ := except_bind_eq_ok.mp h
      obtain rfl := Except.ok.inj h
      rw [UndoDatabase.call, UndoDatabase.remove, hv]
      refine except_bind_eq_ok.mpr ⟨z.store, ?_, rfl⟩
      rw [UndoDatabase.store_onRemove]
      exact (SecondaryIndex.remove_ok hz).1
  | merge | commit =>
    obtain ⟨d, hd, h⟩ := except_bind_eq_ok.mp h
    obtain rfl := Except.ok.inj h
    exact hd
  | undo =>
    rw [exec] at h
    rw [UndoDatabase.call, UndoDatabase.undo]
    split at h
    · cases h
    · next henabled =>
      split at h
      · cases h
      · next hactive =>
        obtain ⟨u, us, z, hstack, hz, rfl⟩ := revertBack_ok h
        rw [if_neg henabled, if_neg hactive, hstack]
        exact except_bind_eq_ok.mpr ⟨z.store, SecondaryIndex.revert_store hz, rfl⟩
  | popCommit =>
    rw [exec] at h
    rw [UndoDatabase.call, UndoDatabase.popCommit]
    split at h
    · cases h
    · next hactive =>
      split at h
      · cases h
      · obtain ⟨u, us, z, hstack, hz, rfl⟩ := revertBack_ok h
        rw [if_neg hactive, hstack]
        exact except_bind_eq_ok.mpr ⟨z.store, SecondaryIndex.revert_store hz, rfl⟩

end Store

/-! ### What the callbacks keep -/

/-- The objects of the index, by instance number. -/
def SecondaryIndex.objects (I : SecondaryIndex V σ) (st : Store V) : ℕ → Option V :=
  fun n => st.objects ⟨I.key, n⟩

/-- The callbacks keep a relation between the objects and the secondary index: modifications of the kind
`P`, and putting back objects of the kind `Q`, of which there is no notice. -/
structure SecondaryIndex.Tracks (I : SecondaryIndex V σ) (R : (ℕ → Option V) → σ → Prop)
    (P : V → V → Prop) (Q : V → Prop) : Prop where
  inserted : ∀ {o s n v}, R o s → o n = none →
    R (Function.update o n (some v)) (I.objectInserted n v s)
  removed : ∀ {o s n v}, R o s → o n = some v →
    R (Function.update o n none) (I.objectRemoved n v s)
  modified : ∀ {o s n v v'}, R o s → o n = some v → P v v' →
    R (Function.update o n (some v')) (I.objectModified n v' (I.aboutToModify n v s))
  putBack : ∀ {o s n v}, R o s → o n = none → Q v → R (Function.update o n (some v)) s

namespace SecondaryIndex

variable {I : SecondaryIndex V σ} {R : (ℕ → Option V) → σ → Prop} {P : V → V → Prop} {Q : V → Prop}
  {x y : IndexedStore V σ}

/-- The relation between the objects of a store and its secondary index. -/
def Holds (I : SecondaryIndex V σ) (R : (ℕ → Option V) → σ → Prop) (x : IndexedStore V σ) : Prop :=
  R (I.objects x.store) x.secondary

theorem objects_update (I : SecondaryIndex V σ) {st st' : Store V} {id : ObjectId} {o : Option V}
    (h : st'.objects = Function.update st.objects id o) : I.objects st' =
      if id.index = I.key then Function.update (I.objects st) id.inst o else I.objects st := by
  unfold objects
  rw [h]
  split
  · next hkey =>
    ext1 n
    by_cases hn : n = id.inst
    · have hid : (⟨I.key, n⟩ : ObjectId) = id := by rw [← hkey, hn]
      rw [hid, Function.update_self, hn, Function.update_self]
    · have hid : (⟨I.key, n⟩ : ObjectId) ≠ id := fun heq => hn (congrArg ObjectId.inst heq)
      rw [Function.update_of_ne hid, Function.update_of_ne hn]
  · next hkey =>
    ext1 n
    have hid : (⟨I.key, n⟩ : ObjectId) ≠ id := fun heq => hkey (congrArg ObjectId.index heq).symm
    rw [Function.update_of_ne hid]

/-- A change of one object, of which the secondary index is told by `f`. -/
theorem Holds.change {id : ObjectId} {o : Option V} {f : σ → σ} (h : I.Holds R x)
    (hobj : y.store.objects = Function.update x.store.objects id o)
    (hsecondary : y.secondary = I.notify id.index f x.secondary)
    (hstep : id.index = I.key → R (I.objects x.store) x.secondary →
      R (Function.update (I.objects x.store) id.inst o) (f x.secondary)) : I.Holds R y := by
  unfold Holds
  rw [I.objects_update hobj, hsecondary, notify]
  split
  · next hkey => exact hstep hkey h
  · exact h

theorem objects_of_key {id : ObjectId} {o : Option V} (hkey : id.index = I.key)
    (h : x.store.objects id = o) : I.objects x.store id.inst = o := by
  unfold objects
  rw [← hkey, ← h]

/-- Setting the next ids leaves the objects as they are. -/
theorem objects_foldl_setNextId : ∀ (l : List (Sigma fun _ : IndexKey => ℕ)) (st : Store V),
    (l.foldl (fun st e => st.setNextId e.1 e.2) st).objects = st.objects
  | [], _ => rfl
  | e :: l, st => objects_foldl_setNextId l (st.setNextId e.1 e.2)

/-- A loop whose steps keep the relation. -/
theorem foldlM_holds {α : Type} {f : IndexedStore V σ → α → Except DbError (IndexedStore V σ)} :
    ∀ {l : List α} {x y : IndexedStore V σ},
      (∀ {x a y}, I.Holds R x → a ∈ l → f x a = .ok y → I.Holds R y) → I.Holds R x →
      l.foldlM f x = .ok y → I.Holds R y := by
  intro l
  induction l with
  | nil =>
    intro x y _ h hl
    obtain rfl := Except.ok.inj hl
    exact h
  | cons a l ih =>
    intro x y hstep h hl
    obtain ⟨z, hz, hl⟩ := except_bind_eq_ok.mp hl
    exact ih (fun hx ha => hstep hx (List.mem_cons_of_mem _ ha)) (hstep h List.mem_cons_self hz) hl

section Callbacks

variable (hT : I.Tracks R P Q)
include hT

theorem Holds.create {k : IndexKey} {c : ObjectId → V} (h : I.Holds R x)
    (hc : I.create x k c = .ok y) : I.Holds R y := by
  obtain ⟨hst, hsecondary⟩ := create_ok hc
  obtain ⟨hnone, hobj, -⟩ := Store.create_ok hst
  exact h.change hobj hsecondary fun hkey hR => hT.inserted hR (objects_of_key hkey hnone)

theorem Holds.remove {id : ObjectId} (h : I.Holds R x) (hr : I.remove x id = .ok y) :
    I.Holds R y := by
  obtain ⟨hst, v, hv, hsecondary⟩ := remove_ok hr
  obtain ⟨-, -, hobj⟩ := Store.remove_ok hst
  exact h.change (by rw [hobj]) hsecondary fun hkey hR => hT.removed hR (objects_of_key hkey hv)

theorem Holds.modify {id : ObjectId} {m : V → V} (h : I.Holds R x) (hm : I.modify x id m = .ok y)
    (hP : id.index = I.key → ∀ v, x.store.objects id = some v → P v (m v)) : I.Holds R y := by
  obtain ⟨hst, v, hv, hsecondary⟩ := modify_ok hm
  obtain ⟨v', hv', hobj⟩ := Store.modify_ok hst
  obtain rfl : v = v' := Option.some.inj (hv.symm.trans hv')
  refine h.change (f := fun s => I.objectModified id.inst (m v) (I.aboutToModify id.inst v s))
    (by rw [hobj]) ?_ fun hkey hR => hT.modified hR (objects_of_key hkey hv) (hP hkey v hv)
  rw [hsecondary]
  unfold notify
  split
  · rfl
  · rfl

theorem Holds.insert {id : ObjectId} {v : V} (h : I.Holds R x)
    (hi : SecondaryIndex.insert x id v = .ok y) (hQ : id.index = I.key → Q v) : I.Holds R y := by
  obtain ⟨hst, hsecondary⟩ := insert_ok hi
  unfold Store.insert at hst
  split at hst
  · cases hst
  · next hnone =>
    have hobj := congrArg Store.objects (Except.ok.inj hst)
    refine h.change (f := fun s => s) hobj.symm ?_ fun hkey hR =>
      hT.putBack hR (objects_of_key hkey hnone) (hQ hkey)
    rw [hsecondary, notify, ite_self]


theorem Holds.modify_loop : ∀ {l : List (Sigma fun _ : ObjectId => V)} {x y : IndexedStore V σ},
    I.Holds R x → l.NodupKeys →
    (∀ e ∈ l, e.1.index = I.key → ∀ v, x.store.objects e.1 = some v → P v e.2) →
    l.foldlM (fun x e => I.modify x e.1 fun _ => e.2) x = .ok y → I.Holds R y := by
  intro l
  induction l with
  | nil =>
    intro x y h _ _ hl
    obtain rfl := Except.ok.inj hl
    exact h
  | cons e l ih =>
    intro x y h hnodup hP hl
    obtain ⟨z, hz, hl⟩ := except_bind_eq_ok.mp hl
    obtain ⟨hnew, hnodup⟩ := List.nodupKeys_cons.mp hnodup
    refine ih (h.modify hT hz (hP e List.mem_cons_self)) hnodup ?_ hl
    intro e' he' hkey v hv
    obtain ⟨hst, -⟩ := modify_ok hz
    obtain ⟨w, -, hobj⟩ := Store.modify_ok hst
    refine hP e' (List.mem_cons_of_mem _ he') hkey v ?_
    have hne : e'.1 ≠ e.1 := by
      intro heq
      exact hnew (heq ▸ List.mem_keys_of_mem he')
    rw [hobj] at hv
    change Function.update x.store.objects e.1 _ e'.1 = some v at hv
    rwa [Function.update_of_ne hne] at hv

/-- The loops of `undo`. Every object is modified once, so what its value is then replaced with can be
compared with the value before the loop. -/
theorem Holds.revert {u : UndoState V} (h : I.Holds R x) (hu : I.revert u x = .ok y)
    (hP : ∀ e ∈ u.oldValues.entries, e.1.index = I.key → ∀ v, x.store.objects e.1 = some v → P v e.2)
    (hQ : ∀ e ∈ u.removed.entries, e.1.index = I.key → Q e.2) : I.Holds R y := by
  obtain ⟨x₁, h₁, hu⟩ := except_bind_eq_ok.mp hu
  obtain ⟨x₂, h₂, h₃⟩ := except_bind_eq_ok.mp hu
  have hmodified := h.modify_loop hT u.oldValues.nodupKeys hP h₁
  have hremoved := foldlM_holds (fun hx _ hr => Holds.remove hT hx hr) hmodified h₂
  have hreset : I.Holds R { x₂ with
      store := u.oldIndexNextIds.entries.foldl (fun st e => st.setNextId e.1 e.2) x₂.store } := by
    unfold Holds objects
    rw [objects_foldl_setNextId]
    exact hremoved
  exact foldlM_holds (fun hx he hi => Holds.insert hT hx hi (hQ _ he)) hreset h₃

end Callbacks

end SecondaryIndex

namespace IndexedDatabase

variable (I : SecondaryIndex V σ)

/-- What is asked of a call: of every modification of an object of the index, one by `undo` too, that it is
of the kind `P`, and of every object that `undo` puts back that it is of the kind `Q`. -/
def Permits (P : V → V → Prop) (Q : V → Prop) (x : IndexedDatabase V σ) : DbCall V → Prop
  | .modify id m => id.index = I.key → ∀ v, x.db.store.objects id = some v → P v (m v)
  | .undo | .popCommit => ∀ u us, x.db.stack = u :: us →
      (∀ e ∈ u.oldValues.entries, e.1.index = I.key → ∀ v, x.db.store.objects e.1 = some v →
        P v e.2) ∧ ∀ e ∈ u.removed.entries, e.1.index = I.key → Q e.2
  | _ => True

/-- The states of a run, with the calls that are made of them. -/
def Along (C : IndexedDatabase V σ → DbCall V → Prop) (x : IndexedDatabase V σ) :
    List (DbCall V) → Prop
  | [] => True
  | c :: l => C x c ∧ ∀ y, x.exec I c = .ok y → y.Along C l

variable {I} {R : (ℕ → Option V) → σ → Prop} {P : V → V → Prop} {Q : V → Prop}
  {x y : IndexedDatabase V σ}

theorem Along.cons {C : IndexedDatabase V σ → DbCall V → Prop} {c : DbCall V} {l : List (DbCall V)}
    (hc : C x c) (he : x.exec I c = .ok y) (h : y.Along I C l) : x.Along I C (c :: l) := by
  refine ⟨hc, fun y' hy' => ?_⟩
  obtain rfl := Except.ok.inj (he.symm.trans hy')
  exact h

theorem exec_holds (hT : I.Tracks R P Q) {c : DbCall V} (hx : I.Holds R x.indexed)
    (hc : x.Permits I P Q c) (h : x.exec I c = .ok y) : I.Holds R y.indexed := by
  have hrevert : ∀ {f : UndoDatabase V → UndoDatabase V}, (∀ d, (f d).store = d.store) →
      x.Permits I P Q .undo → x.revertBack I f = .ok y → I.Holds R y.indexed := by
    intro f hf hc h
    obtain ⟨u, us, z, hstack, hz, rfl⟩ := revertBack_ok h
    obtain ⟨hold, hremoved⟩ := hc u us hstack
    have hholds := hx.revert hT hz hold hremoved
    unfold SecondaryIndex.Holds indexed
    rwa [hf]
  cases c with
  | startUndoSession | setDisabled b =>
    obtain rfl := Except.ok.inj h
    exact hx
  | create k c =>
    obtain ⟨z, hz, h⟩ := except_bind_eq_ok.mp h
    obtain rfl := Except.ok.inj h
    have hholds := hx.create hT hz
    unfold SecondaryIndex.Holds indexed
    rwa [UndoDatabase.store_onCreate]
  | modify id m =>
    rw [exec] at h
    split at h
    · cases h
    · obtain ⟨z, hz, h⟩ := except_bind_eq_ok.mp h
      obtain rfl := Except.ok.inj h
      exact hx.modify hT hz hc
  | remove id =>
    rw [exec] at h
    split at h
    · cases h
    · obtain ⟨z, hz, h⟩ := except_bind_eq_ok.mp h
      obtain rfl := Except.ok.inj h
      exact hx.remove hT hz
  | merge =>
    obtain ⟨d, hd, h⟩ := except_bind_eq_ok.mp h
    obtain rfl := Except.ok.inj h
    unfold SecondaryIndex.Holds indexed
    rwa [UndoDatabase.store_of_merge hd]
  | commit =>
    obtain ⟨d, hd, h⟩ := except_bind_eq_ok.mp h
    obtain rfl := Except.ok.inj h
    unfold SecondaryIndex.Holds indexed
    rwa [UndoDatabase.store_of_commit hd]
  | undo =>
    rw [exec] at h
    split at h
    · cases h
    · split at h
      · cases h
      · refine hrevert ?_ hc h
        exact fun d => rfl
  | popCommit =>
    rw [exec] at h
    split at h
    · cases h
    · split at h
      · cases h
      · refine hrevert ?_ hc h
        exact fun d => rfl

theorem run_holds (hT : I.Tracks R P Q) : ∀ {l : List (DbCall V)} {x : IndexedDatabase V σ},
    I.Holds R x.indexed → x.Along I (fun x c => x.Permits I P Q c) l → x.run I l = .ok y →
    I.Holds R y.indexed := by
  intro l
  induction l with
  | nil =>
    intro x hx _ h
    obtain rfl := Except.ok.inj h
    exact hx
  | cons c l ih =>
    intro x hx hl h
    obtain ⟨z, hz, h⟩ := except_bind_eq_ok.mp h
    exact ih (exec_holds hT hx hl.1 hz) (hl.2 z hz) h

end IndexedDatabase

/-! ### Indexes of which nothing is removed -/

/-- No change set has an object of the index that was removed. -/
def NoneRemoved (k : IndexKey) (d : UndoDatabase V) : Prop :=
  ∀ u ∈ d.stack, ∀ id ∈ u.removed, id.index ≠ k

section NoneRemoved

variable {k : IndexKey} {d d' : UndoDatabase V} {u prev state : UndoState V}

theorem removed_onModify (u : UndoState V) (id : ObjectId) (v : V) :
    (u.onModify id v).removed = u.removed := by
  unfold UndoState.onModify
  split
  · rfl
  · split
    · rfl
    · rfl

theorem mem_removed_onRemove {id id' : ObjectId} {v : V} (h : id' ∈ (u.onRemove id v).removed) :
    id' = id ∨ id' ∈ u.removed := by
  unfold UndoState.onRemove at h
  split at h
  · exact .inr h
  · split at h
    · exact (AList.mem_insert _).mp h
    · split at h
      · exact .inr h
      · exact (AList.mem_insert _).mp h

theorem mem_removed_merge {id : ObjectId} (h : id ∈ (prev.merge state).removed) :
    id ∈ prev.removed ∨ id ∈ state.removed := by
  unfold UndoState.merge at h
  dsimp only at h
  have hold : ∀ (l : List (Sigma fun _ : ObjectId => V)) (u : UndoState V),
      (l.foldl UndoState.mergeOldValue u).removed = u.removed := by
    intro l
    induction l with
    | nil => exact fun u => rfl
    | cons e l ih =>
      intro u
      rw [List.foldl_cons, ih]
      unfold UndoState.mergeOldValue
      split
      · rfl
      · split
        · rfl
        · rfl
  have hnew : ∀ (l : List (Sigma fun _ : ObjectId => Unit)) (u : UndoState V),
      (l.foldl UndoState.mergeNewId u).removed = u.removed := by
    intro l
    induction l with
    | nil => exact fun u => rfl
    | cons e l ih => exact fun u => ih _
  have hnext : ∀ (l : List (Sigma fun _ : IndexKey => ℕ)) (u : UndoState V),
      (l.foldl UndoState.mergeIndexNextId u).removed = u.removed := by
    intro l
    induction l with
    | nil => exact fun u => rfl
    | cons e l ih =>
      intro u
      rw [List.foldl_cons, ih]
      unfold UndoState.mergeIndexNextId
      split
      · rfl
      · rfl
  have hremoved : ∀ (l : List (Sigma fun _ : ObjectId => V)) (u : UndoState V),
      id ∈ (l.foldl UndoState.mergeRemoved u).removed → id ∈ u.removed ∨ id ∈ l.keys := by
    intro l
    induction l with
    | nil => exact fun u h => .inl h
    | cons e l ih =>
      intro u h
      rw [List.keys_cons, List.mem_cons]
      rcases ih _ h with h | h
      · unfold UndoState.mergeRemoved at h
        split at h
        · exact .inl h
        · split at h
          · exact ((AList.mem_insert _).mp h).symm.imp_right .inl
          · exact ((AList.mem_insert _).mp h).symm.imp_right .inl
      · exact .inr (.inr h)
  rcases hremoved _ _ h with h | h
  · rw [hnext, hnew, hold] at h
    exact .inl h
  · exact .inr h

theorem NoneRemoved.withBack (h : NoneRemoved k d) {f : UndoState V → UndoState V}
    (hf : ∀ u id, id ∈ (f u).removed → id ∈ u.removed ∨ id.index ≠ k) :
    NoneRemoved k (d.withBack f) := by
  have hstep : ∀ u : UndoState V, (∀ id ∈ u.removed, id.index ≠ k) →
      ∀ id ∈ (f u).removed, id.index ≠ k :=
    fun u hu id hid => (hf u id hid).elim (hu id) fun hne => hne
  unfold NoneRemoved UndoDatabase.withBack
  split
  · intro u hu
    rw [List.mem_singleton.mp hu]
    exact hstep {} fun id hid => absurd hid (AList.notMem_empty _)
  · next u us hstack =>
    rw [NoneRemoved, hstack] at h
    intro u' hu'
    rcases List.mem_cons.mp hu' with rfl | hu'
    · exact hstep u (h u List.mem_cons_self)
    · exact h u' (List.mem_cons_of_mem _ hu')

theorem NoneRemoved.sublist (h : NoneRemoved k d) (hstack : ∀ u ∈ d'.stack, u ∈ d.stack) :
    NoneRemoved k d' :=
  fun u hu => h u (hstack u hu)

/-- A call that does not remove an object of the index. -/
theorem NoneRemoved.call (h : NoneRemoved k d) {c : DbCall V} (hc : ∀ id, c = .remove id → id.index ≠ k)
    (hd : d.call c = .ok d') : NoneRemoved k d' := by
  cases c with
  | startUndoSession =>
    obtain rfl := Except.ok.inj hd
    intro u hu
    rcases List.mem_cons.mp hu with rfl | hu
    · exact fun id hid => absurd hid (AList.notMem_empty _)
    · exact h u (List.mem_of_mem_take hu)
  | setDisabled b =>
    obtain rfl := Except.ok.inj hd
    exact h
  | create k' c =>
    obtain ⟨st, -, hd⟩ := except_bind_eq_ok.mp hd
    obtain rfl := Except.ok.inj hd
    unfold UndoDatabase.onCreate
    split
    · exact h
    · exact NoneRemoved.withBack (d := { d with store := st }) h fun u id hid => .inl hid
  | modify id m =>
    rw [UndoDatabase.call, UndoDatabase.modify] at hd
    split at hd
    · cases hd
    · next v hv =>
      obtain ⟨st, -, hd⟩ := except_bind_eq_ok.mp hd
      obtain rfl := Except.ok.inj hd
      have hmodify : NoneRemoved k (d.onModify id v) := by
        unfold UndoDatabase.onModify
        split
        · exact h
        · exact h.withBack fun u id' hid => .inl (removed_onModify u id v ▸ hid)
      exact hmodify.sublist fun u hu => hu
  | remove id =>
    rw [UndoDatabase.call, UndoDatabase.remove] at hd
    split at hd
    · cases hd
    · next v hv =>
      obtain ⟨st, -, hd⟩ := except_bind_eq_ok.mp hd
      obtain rfl := Except.ok.inj hd
      have hremove : NoneRemoved k (d.onRemove id v) := by
        unfold UndoDatabase.onRemove
        split
        · exact h
        · refine h.withBack fun u id' hid => ?_
          rcases mem_removed_onRemove hid with rfl | hid
          · exact .inr (hc id' rfl)
          · exact .inl hid
      exact hremove.sublist fun u hu => hu
  | undo =>
    rw [UndoDatabase.call, UndoDatabase.undo] at hd
    split at hd
    · cases hd
    split at hd
    · cases hd
    split at hd
    · cases hd
    · next u us hstack =>
      obtain ⟨st, -, hd⟩ := except_bind_eq_ok.mp hd
      obtain rfl := Except.ok.inj hd
      exact h.sublist fun u' hu' => hstack ▸ List.mem_cons_of_mem _ hu'
  | popCommit =>
    rw [UndoDatabase.call, UndoDatabase.popCommit] at hd
    split at hd
    · cases hd
    split at hd
    · cases hd
    · next u us hstack =>
      obtain ⟨st, -, hd⟩ := except_bind_eq_ok.mp hd
      obtain rfl := Except.ok.inj hd
      exact h.sublist fun u' hu' => hstack ▸ List.mem_cons_of_mem _ hu'
  | commit =>
    rw [UndoDatabase.call, UndoDatabase.commit] at hd
    split at hd
    · cases hd
    · obtain rfl := Except.ok.inj hd
      exact h
  | merge =>
    rw [UndoDatabase.call, UndoDatabase.merge] at hd
    split at hd
    · cases hd
    split at hd
    · obtain rfl := Except.ok.inj hd
      exact h.sublist fun u hu => List.mem_of_mem_tail hu
    split at hd
    · next state prev us hstack =>
      obtain rfl := Except.ok.inj hd
      rw [NoneRemoved, hstack] at h
      intro u hu
      rcases List.mem_cons.mp hu with rfl | hu
      · intro id hid
        rcases mem_removed_merge hid with hid | hid
        · exact h prev (List.mem_cons_of_mem _ List.mem_cons_self) id hid
        · exact h state List.mem_cons_self id hid
      · exact h u (List.mem_cons_of_mem _ (List.mem_cons_of_mem _ hu))
    · cases hd

end NoneRemoved

/-- **A run of which nothing is removed**: only modifications have to be looked at. -/
theorem IndexedDatabase.run_holds_of_noneRemoved {I : SecondaryIndex V σ}
    {R : (ℕ → Option V) → σ → Prop} (hT : I.Tracks R (fun _ _ => True) fun _ => False)
    {y : IndexedDatabase V σ} : ∀ {l : List (DbCall V)} {x : IndexedDatabase V σ},
      I.Holds R x.indexed → NoneRemoved I.key x.db →
      (∀ id, DbCall.remove id ∈ l → id.index ≠ I.key) → x.run I l = .ok y → I.Holds R y.indexed := by
  intro l
  induction l with
  | nil =>
    intro x hx _ _ h
    obtain rfl := Except.ok.inj h
    exact hx
  | cons c l ih =>
    intro x hx hnone hl h
    obtain ⟨z, hz, h⟩ := except_bind_eq_ok.mp h
    have hrevert : ∀ u us, x.db.stack = u :: us →
        (∀ e ∈ u.oldValues.entries, e.1.index = I.key → ∀ v, x.db.store.objects e.1 = some v →
          True) ∧ ∀ e ∈ u.removed.entries, e.1.index = I.key → False := by
      intro u us hstack
      refine ⟨fun _ _ _ _ _ => trivial, fun e he hkey => ?_⟩
      exact hnone u (hstack ▸ List.mem_cons_self) e.1 (List.mem_keys_of_mem he) hkey
    have hpermits : x.Permits I (fun _ _ => True) (fun _ => False) c := by
      cases c with
      | modify id m => exact fun _ _ _ => trivial
      | undo | popCommit => exact hrevert
      | startUndoSession | create | remove | merge | commit | setDisabled => trivial
    have hcall : ∀ id, c = .remove id → id.index ≠ I.key :=
      fun id heq => hl id (heq ▸ List.mem_cons_self)
    exact ih (exec_holds hT hx hpermits hz) (hnone.call hcall (exec_db hz))
      (fun id hid => hl id (List.mem_cons_of_mem _ hid)) h

end FinChain
