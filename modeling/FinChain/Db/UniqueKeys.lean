import FinChain.Db.UndoRefinement
import FinChain.Lib.Exec
import FinChain.Lib.Table

/-!
# Undo and unique keys

A `generic_index` is a `boost::multi_index_container`, which may have unique keys besides the id. An object
that collides with another one in such a key is not inserted, and one that collides after a modification is
erased; both are noticed and thrown.

`undo` restores the old values one by one, in the order of a hash map, while the objects whose turn is still
to come have the values of the session, and so have the objects that the session created, which are removed
only after that. A key that has moved in the session from one object to another one may thus be taken when
it is to be given back, though the store at the start of the session and the one at its end are both without
collisions. What is put back at last finds the store as it was, and never collides.

`Restorable` says that no key is taken in this way, and `undo_restores_iff` that undo succeeds exactly then.
-/

namespace FinChain

open Exec

variable {V : Type}

/-- A function on the store that may throw, and then leaves it as it is. -/
def onStore (f : Store V → Except DbError (Store V)) : EStateM DbError (Store V) Unit := fun st =>
  match f st with
  | .ok st' => .ok () st'
  | .error e => .error e st

theorem onStore_eq_ok {f : Store V → Except DbError (Store V)} {st st' : Store V} {u : Unit} :
    onStore f st = .ok u st' ↔ f st = .ok st' := by
  unfold onStore
  cases f st with
  | ok st'' => simp
  | error e => simp

namespace Store

-- two values of an index clash if they have a unique key in common
variable (clash : IndexKey → V → V → Bool)

/-- No two objects of an index have a unique key in common. -/
def Unique (st : Store V) : Prop :=
  ∀ id id' v v', id.index = id'.index → id ≠ id' → st.objects id = some v →
    st.objects id' = some v' → clash id.index v v' = false

/-- With this value the object would collide with another one. -/
def collides (st : Store V) (id : ObjectId) (v : V) : Bool :=
  (List.range (st.nextId id.index)).any fun n =>
    decide (n ≠ id.inst) && (st.objects ⟨id.index, n⟩).any (clash id.index v)

/-- `generic_index::create`. -/
def createKeyed (k : IndexKey) (constructor : ObjectId → V) : EStateM DbError (Store V) Unit := do
  let st ← get
  assert .uniquenessViolated (st.collides clash (st.getNextId k) (constructor (st.getNextId k)) = false)
  onStore fun st => st.create k constructor

/-- `generic_index::modify`. An object that collides is erased. -/
def modifyKeyed (id : ObjectId) (m : V → V) : EStateM DbError (Store V) Unit := do
  let st ← get
  let v ← require .unableToFindObject (st.objects id)
  if st.collides clash id (m v) = false then
    update fun st => { st with objects := Function.update st.objects id (some (m v)) }
  else do
    update fun st => { st with objects := Function.update st.objects id none }
    throw .uniquenessViolated

/-- `generic_index::insert`. -/
def insertKeyed (id : ObjectId) (v : V) : EStateM DbError (Store V) Unit := do
  let st ← get
  assert .uniquenessViolated (st.collides clash id v = false)
  onStore fun st => st.insert id v

variable {clash} {st st' : Store V} {id : ObjectId} {v : V}

theorem insert_ok (h : st.insert id v = .ok st') : st.objects id = none ∧
    st' = { st with objects := Function.update st.objects id (some v) } := by
  unfold insert at h
  split at h
  · cases h
  · next hnone => exact ⟨hnone, (Except.ok.inj h).symm⟩

theorem collides_iff : st.collides clash id v = true ↔
    ∃ n < st.nextId id.index, n ≠ id.inst ∧ ∃ w, st.objects ⟨id.index, n⟩ = some w ∧
      clash id.index v w = true := by
  unfold collides
  simp only [List.any_eq_true, List.mem_range, Bool.and_eq_true, decide_eq_true_eq,
    Option.any_eq_true]

theorem createKeyed_eq_ok {k : IndexKey} {c : ObjectId → V} {u : Unit} :
    createKeyed clash k c st = .ok u st' ↔
      st.collides clash (st.getNextId k) (c (st.getNextId k)) = false ∧ st.create k c = .ok st' := by
  unfold createKeyed
  rw [get_bind, assert_bind_eq_ok, onStore_eq_ok]

theorem modifyKeyed_eq_ok {m : V → V} {u : Unit} : modifyKeyed clash id m st = .ok u st' ↔
    (∀ v, st.objects id = some v → st.collides clash id (m v) = false) ∧ st.modify id m = .ok st' := by
  unfold modifyKeyed modify
  rw [get_bind, require_bind_eq_ok]
  cases hv : st.objects id with
  | none => simp
  | some v =>
    simp only [Option.some.injEq, forall_eq', exists_eq_left']
    by_cases hc : st.collides clash id (m v) = false
    · rw [if_pos hc, update_eq_ok, and_iff_right hc, Except.ok.injEq, eq_comm]
    · rw [if_neg hc, update_bind_eq_ok]
      refine iff_of_false ?_ fun h => hc h.1
      exact nofun

theorem insertKeyed_eq_ok {u : Unit} : insertKeyed clash id v st = .ok u st' ↔
    st.collides clash id v = false ∧ st.insert id v = .ok st' := by
  unfold insertKeyed
  rw [get_bind, assert_bind_eq_ok, onStore_eq_ok]

end Store

/-! ### Undo -/

/-- The loops of `undo`. -/
def UndoState.revertKeyed (clash : IndexKey → V → V → Bool) (u : UndoState V) :
    EStateM DbError (Store V) Unit := do
  u.oldValues.entries.forM fun e => Store.modifyKeyed clash e.1 fun _ => e.2
  u.newIds.entries.forM fun e => onStore fun st => st.remove e.1
  update fun st => u.oldIndexNextIds.entries.foldl (fun st e => st.setNextId e.1 e.2) st
  u.removed.entries.forM fun e => Store.insertKeyed clash e.1 e.2

/-- An object has a unique key that the value needs which is to be restored. -/
def Takes (clash : IndexKey → V → V → Bool) (st : Store V) (e : Sigma fun _ : ObjectId => V)
    (id : ObjectId) : Prop :=
  id.index = e.1.index ∧ id ≠ e.1 ∧ ∃ w, st.objects id = some w ∧ clash e.1.index e.2 w = true

/-- No key that is to be given back is taken by an object whose turn comes later, or by a new one. -/
structure UndoState.Restorable (clash : IndexKey → V → V → Bool) (u : UndoState V) (st : Store V) :
    Prop where
  old : u.oldValues.entries.Pairwise fun e e' => ¬ Takes clash st e e'.1
  new : ∀ e ∈ u.oldValues.entries, ∀ id ∈ u.newIds, ¬ Takes clash st e id

section Loops

variable {clash : IndexKey → V → V → Bool} {u : UndoState V} {s₀ s₁ : Store V}

/-- A loop that returns with keys returns without them. -/
theorem foldlM_of_forM {α : Type} {f : α → EStateM DbError (Store V) Unit}
    {g : Store V → α → Except DbError (Store V)}
    (hstep : ∀ {a st st'}, f a st = .ok () st' → g st a = .ok st') :
    ∀ {l : List α} {st st' : Store V}, l.forM f st = .ok () st' → l.foldlM g st = .ok st' := by
  intro l
  induction l with
  | nil =>
    intro st st' h
    obtain ⟨-, rfl⟩ := pure_eq_ok.mp h
    rfl
  | cons a l ih =>
    intro st st' h
    obtain ⟨_, t, ha, hl⟩ := bind_eq_ok.mp h
    exact except_bind_eq_ok.mpr ⟨t, hstep ha, ih hl⟩

theorem forM_of_foldlM {α : Type} {f : α → EStateM DbError (Store V) Unit}
    {g : Store V → α → Except DbError (Store V)}
    (hstep : ∀ {a st st'}, g st a = .ok st' → f a st = .ok () st') :
    ∀ {l : List α} {st st' : Store V}, l.foldlM g st = .ok st' → l.forM f st = .ok () st' := by
  intro l
  induction l with
  | nil =>
    intro st st' h
    obtain rfl := Except.ok.inj h
    rfl
  | cons a l ih =>
    intro st st' h
    obtain ⟨t, ha, hl⟩ := except_bind_eq_ok.mp h
    exact bind_eq_ok.mpr ⟨(), t, hstep ha, ih hl⟩

/-- The store while the old values are restored: those of `l` are still to come. -/
structure Restoring (u : UndoState V) (s₀ s₁ : Store V) (l : List (Sigma fun _ : ObjectId => V))
    (st : Store V) : Prop where
  mem : ∀ e ∈ l, e ∈ u.oldValues.entries
  nodup : l.NodupKeys
  nextId : st.nextId = s₁.nextId
  session : ∀ id, id ∈ l.keys ∨ id ∈ u.newIds → st.objects id = s₁.objects id
  restored : ∀ id, id ∉ l.keys → id ∉ u.newIds → ∀ w, st.objects id = some w →
    s₀.objects id = some w

theorem Represents.old_of_mem (h : Represents u s₀ s₁) {e : Sigma fun _ : ObjectId => V}
    (he : e ∈ u.oldValues.entries) : s₀.objects e.1 = some e.2 := by
  have hobj := h.object e.1
  rw [Table.lookup_of_mem_entries he] at hobj
  generalize u.newIds.lookup e.1 = n, u.removed.lookup e.1 = r, s₀.objects e.1 = x₀,
    s₁.objects e.1 = x₁ at hobj ⊢
  cases hobj
  rfl

theorem Represents.current_of_mem (h : Represents u s₀ s₁) {e : Sigma fun _ : ObjectId => V}
    (he : e ∈ u.oldValues.entries) : ∃ v, s₁.objects e.1 = some v := by
  have hobj := h.object e.1
  rw [Table.lookup_of_mem_entries he] at hobj
  generalize u.newIds.lookup e.1 = n, u.removed.lookup e.1 = r, s₀.objects e.1 = x₀,
    s₁.objects e.1 = x₁ at hobj ⊢
  cases hobj
  exact ⟨_, rfl⟩

theorem Represents.notMem_newIds_of_mem (h : Represents u s₀ s₁) {e : Sigma fun _ : ObjectId => V}
    (he : e ∈ u.oldValues.entries) : e.1 ∉ u.newIds := by
  rw [← AList.lookup_eq_none]
  have hobj := h.object e.1
  rw [Table.lookup_of_mem_entries he] at hobj
  generalize u.newIds.lookup e.1 = n, u.removed.lookup e.1 = r, s₀.objects e.1 = x₀,
    s₁.objects e.1 = x₁ at hobj ⊢
  cases hobj
  rfl

/-- What collides while the old values are restored. -/
theorem Restoring.collides_iff {e : Sigma fun _ : ObjectId => V}
    {l : List (Sigma fun _ : ObjectId => V)} {st : Store V} (h : Restoring u s₀ s₁ (e :: l) st)
    (hrep : Represents u s₀ s₁) (hwf : s₁.WF) (hunique : s₀.Unique clash) :
    st.collides clash e.1 e.2 = true ↔
      (∃ e' ∈ l, Takes clash s₁ e e'.1) ∨ ∃ id ∈ u.newIds, Takes clash s₁ e id := by
  have hold : s₀.objects e.1 = some e.2 := hrep.old_of_mem (h.mem e List.mem_cons_self)
  rw [Store.collides_iff]
  constructor
  · rintro ⟨n, -, hne, w, hw, hclash⟩
    have hid : (⟨e.1.index, n⟩ : ObjectId) ≠ e.1 := fun heq => hne (congrArg ObjectId.inst heq)
    by_cases hsession : (⟨e.1.index, n⟩ : ObjectId) ∈ (e :: l).keys ∨
        (⟨e.1.index, n⟩ : ObjectId) ∈ u.newIds
    · have htakes : Takes clash s₁ e ⟨e.1.index, n⟩ :=
        ⟨rfl, hid, w, (h.session _ hsession).symm.trans hw, hclash⟩
      rcases hsession with hkey | hnew
      · rw [List.keys_cons, List.mem_cons, or_iff_right hid] at hkey
        obtain ⟨e', he', heq⟩ := List.mem_map.mp hkey
        exact .inl ⟨e', he', heq ▸ htakes⟩
      · exact .inr ⟨_, hnew, htakes⟩
    · -- an object that is as it was at the start does not clash with the old value
      rw [not_or] at hsession
      have hw₀ := h.restored _ hsession.1 hsession.2 w hw
      have hfalse := hunique e.1 ⟨e.1.index, n⟩ e.2 w rfl hid.symm hold hw₀
      rw [hfalse] at hclash
      cases hclash
  · intro htaken
    have hmem : ∃ id, (id ∈ (e :: l).keys ∨ id ∈ u.newIds) ∧ Takes clash s₁ e id := by
      rcases htaken with ⟨e', he', htakes⟩ | ⟨id, hid, htakes⟩
      · exact ⟨e'.1, .inl (List.mem_keys_of_mem (List.mem_cons_of_mem _ he')), htakes⟩
      · exact ⟨id, .inr hid, htakes⟩
    obtain ⟨id, hsession, hindex, hne, w, hw, hclash⟩ := hmem
    have hid : (⟨e.1.index, id.inst⟩ : ObjectId) = id := by rw [← hindex]
    refine ⟨id.inst, ?_, ?_, w, ?_, hclash⟩
    · rw [h.nextId, ← hindex]
      exact hwf id (by rw [hw]; rfl)
    · intro heq
      exact hne (hid.symm.trans (by rw [heq]))
    · rw [hid, h.session id hsession, hw]

theorem Restoring.step {e : Sigma fun _ : ObjectId => V} {l : List (Sigma fun _ : ObjectId => V)}
    {st st' : Store V} (h : Restoring u s₀ s₁ (e :: l) st) (hrep : Represents u s₀ s₁)
    (hm : st.modify e.1 (fun _ => e.2) = .ok st') : Restoring u s₀ s₁ l st' := by
  obtain ⟨v, -, rfl⟩ := Store.modify_ok hm
  obtain ⟨hnew, hnodup⟩ := List.nodupKeys_cons.mp h.nodup
  have hold := h.mem e List.mem_cons_self
  have hnotNew : e.1 ∉ u.newIds := hrep.notMem_newIds_of_mem hold
  refine ⟨fun e' he' => h.mem e' (List.mem_cons_of_mem _ he'), hnodup, h.nextId, ?_, ?_⟩
  · intro id hid
    have hne : id ≠ e.1 := by
      rintro rfl
      exact hid.elim hnew hnotNew
    change Function.update st.objects e.1 _ id = _
    rw [Function.update_of_ne hne]
    exact h.session id (hid.imp_left (List.mem_cons_of_mem _))
  · intro id hkey hnotMem w hw
    change Function.update st.objects e.1 _ id = _ at hw
    by_cases hid : id = e.1
    · rw [hid, Function.update_self] at hw
      rw [hid, hrep.old_of_mem hold, Option.some.inj hw]
    · rw [Function.update_of_ne hid] at hw
      refine h.restored id ?_ hnotMem w hw
      rw [List.keys_cons, List.mem_cons, not_or]
      exact ⟨hid, hkey⟩

/-- **The old values can be restored** exactly if no key that is to be given back is taken. -/
theorem Restoring.returns_iff (hrep : Represents u s₀ s₁) (hwf : s₁.WF) (hunique : s₀.Unique clash) :
    ∀ {l : List (Sigma fun _ : ObjectId => V)} {st : Store V}, Restoring u s₀ s₁ l st →
      ((∃ st', (l.forM fun e => Store.modifyKeyed clash e.1 fun _ => e.2) st = .ok () st') ↔
        l.Pairwise (fun e e' => ¬ Takes clash s₁ e e'.1) ∧
          ∀ e ∈ l, ∀ id ∈ u.newIds, ¬ Takes clash s₁ e id) := by
  intro l
  induction l with
  | nil =>
    intro st _
    refine iff_of_true ⟨st, rfl⟩ ⟨List.Pairwise.nil, ?_⟩
    exact fun e he => absurd he List.not_mem_nil
  | cons e l ih =>
    intro st h
    have hfree : st.collides clash e.1 e.2 = false ↔ (∀ e' ∈ l, ¬ Takes clash s₁ e e'.1) ∧
        ∀ id ∈ u.newIds, ¬ Takes clash s₁ e id := by
      rw [← Bool.not_eq_true, h.collides_iff hrep hwf hunique, not_or]
      push Not
      rfl
    obtain ⟨v, hv⟩ : ∃ v, st.objects e.1 = some v := by
      rw [h.session e.1 (.inl (List.mem_keys_of_mem List.mem_cons_self))]
      exact hrep.current_of_mem (h.mem e List.mem_cons_self)
    rw [List.pairwise_cons, List.forall_mem_cons]
    constructor
    · rintro ⟨st', hloop⟩
      obtain ⟨_, t, hmodify, hloop⟩ := bind_eq_ok.mp hloop
      obtain ⟨hcollides, hmodify⟩ := Store.modifyKeyed_eq_ok.mp hmodify
      obtain ⟨hlater, hnew⟩ := hfree.mp (hcollides v hv)
      obtain ⟨hpairs, hnews⟩ := (ih (h.step hrep hmodify)).mp ⟨st', hloop⟩
      exact ⟨⟨hlater, hpairs⟩, hnew, hnews⟩
    · rintro ⟨⟨hlater, hpairs⟩, hnew, hnews⟩
      have hcollides := hfree.mpr ⟨hlater, hnew⟩
      obtain ⟨t, hmodify⟩ : ∃ t, st.modify e.1 (fun _ => e.2) = .ok t := by
        unfold Store.modify
        rw [hv]
        exact ⟨_, rfl⟩
      obtain ⟨st', hloop⟩ := (ih (h.step hrep hmodify)).mpr ⟨hpairs, hnews⟩
      refine ⟨st', bind_eq_ok.mpr ⟨(), t, ?_, hloop⟩⟩
      exact Store.modifyKeyed_eq_ok.mpr ⟨fun _ _ => hcollides, hmodify⟩

/-- Before the first of the old values is restored. -/
theorem Represents.restoring (h : Represents u s₀ s₁) :
    Restoring u s₀ s₁ u.oldValues.entries s₁ where
  mem e he := he
  nodup := u.oldValues.nodupKeys
  nextId := rfl
  session _ _ := rfl
  restored id hold hnew w hw := by
    have hobj := h.object id
    rw [AList.lookup_eq_none.mpr hold, AList.lookup_eq_none.mpr hnew, hw] at hobj
    generalize u.removed.lookup id = r, s₀.objects id = x₀ at hobj ⊢
    cases hobj
    rfl

/-- What is there before a loop of insertions is there afterwards. -/
theorem objects_of_foldlM_insert : ∀ {l : List (Sigma fun _ : ObjectId => V)} {st st' : Store V},
    l.foldlM (fun st e => st.insert e.1 e.2) st = .ok st' →
    ∀ {id w}, st.objects id = some w → st'.objects id = some w := by
  intro l
  induction l with
  | nil =>
    intro st st' h id w hw
    obtain rfl := Except.ok.inj h
    exact hw
  | cons e l ih =>
    intro st st' h id w hw
    obtain ⟨t, ht, h⟩ := except_bind_eq_ok.mp h
    obtain ⟨hnone, rfl⟩ := Store.insert_ok ht
    refine ih h ?_
    have hne : id ≠ e.1 := by
      rintro rfl
      rw [hnone] at hw
      cases hw
    change Function.update st.objects e.1 _ id = _
    rw [Function.update_of_ne hne, hw]

/-- **Nothing collides when the removed objects are put back**: all that is there belongs to the store at
the start of the session. -/
theorem forM_insertKeyed : ∀ {l : List (Sigma fun _ : ObjectId => V)} {st st' : Store V},
    l.foldlM (fun st e => st.insert e.1 e.2) st = .ok st' → st'.Unique clash →
    (l.forM fun e => Store.insertKeyed clash e.1 e.2) st = .ok () st' := by
  intro l
  induction l with
  | nil =>
    intro st st' h _
    obtain rfl := Except.ok.inj h
    rfl
  | cons e l ih =>
    intro st st' h hunique
    obtain ⟨t, ht, hloop⟩ := except_bind_eq_ok.mp h
    refine bind_eq_ok.mpr ⟨(), t, Store.insertKeyed_eq_ok.mpr ⟨?_, ht⟩, ih hloop hunique⟩
    rw [← Bool.not_eq_true, Store.collides_iff]
    rintro ⟨n, -, hne, w, hw, hclash⟩
    have hput : t.objects e.1 = some e.2 := by
      obtain ⟨-, rfl⟩ := Store.insert_ok ht
      exact Function.update_self ..
    have hid : e.1 ≠ ⟨e.1.index, n⟩ := fun heq => hne (congrArg ObjectId.inst heq).symm
    have hfalse := hunique e.1 ⟨e.1.index, n⟩ e.2 w rfl hid (objects_of_foldlM_insert hloop hput)
      (objects_of_foldlM_insert h hw)
    rw [hfalse] at hclash
    cases hclash

/-- **The loops of `undo` lead back to the earlier store exactly if no key is taken** that is to be given
back. -/
theorem UndoState.revertKeyed_iff (hrep : Represents u s₀ s₁) (hwf : s₁.WF)
    (hunique : s₀.Unique clash) :
    (∃ st, u.revertKeyed clash s₁ = .ok () st ∧ st = s₀) ↔ u.Restorable clash s₁ := by
  have hreturns := Restoring.returns_iff hrep hwf hunique hrep.restoring
  have hrevert := hrep.revert
  obtain ⟨t₁, h₁, hrevert⟩ := except_bind_eq_ok.mp hrevert
  obtain ⟨t₂, h₂, h₄⟩ := except_bind_eq_ok.mp hrevert
  constructor
  · rintro ⟨st, h, -⟩
    obtain ⟨_, t, ht, -⟩ := bind_eq_ok.mp h
    obtain ⟨hold, hnew⟩ := hreturns.mp ⟨t, ht⟩
    exact ⟨hold, hnew⟩
  · intro h
    obtain ⟨t, ht⟩ := hreturns.mpr ⟨h.old, h.new⟩
    have hsame : t = t₁ := by
      have hplain := foldlM_of_forM (g := fun st (e : Sigma fun _ : ObjectId => V) =>
        st.modify e.1 fun _ => e.2) (fun hm => (Store.modifyKeyed_eq_ok.mp hm).2) ht
      exact Except.ok.inj (hplain.symm.trans h₁)
    rw [hsame] at ht
    refine ⟨s₀, bind_eq_ok.mpr ⟨(), t₁, ht, ?_⟩, rfl⟩
    refine bind_eq_ok.mpr ⟨(), t₂, forM_of_foldlM onStore_eq_ok.mpr h₂, ?_⟩
    rw [update_bind]
    exact forM_insertKeyed h₄ hunique

end Loops

/-! ### Sessions -/

/-- A function on the store of an undo database. -/
def onStoreOf (x : EStateM DbError (Store V) Unit) : EStateM DbError (UndoDatabase V) Unit := fun d =>
  match x d.store with
  | .ok u st => .ok u { d with store := st }
  | .error e st => .error e { d with store := st }

theorem onStoreOf_bind_eq_ok {x : EStateM DbError (Store V) Unit}
    {f : Unit → EStateM DbError (UndoDatabase V) Unit} {d d' : UndoDatabase V} {u : Unit} :
    (onStoreOf x >>= f) d = .ok u d' ↔
      ∃ st, x d.store = .ok () st ∧ f () { d with store := st } = .ok u d' := by
  rw [bind_apply]
  unfold onStoreOf
  cases x d.store with
  | ok a st => simp
  | error e st => simp

theorem onStoreOf_eq_ok {x : EStateM DbError (Store V) Unit} {d d' : UndoDatabase V} {u : Unit} :
    onStoreOf x d = .ok u d' ↔ ∃ st, x d.store = .ok () st ∧ d' = { d with store := st } := by
  unfold onStoreOf
  cases x d.store with
  | ok a st => simp [eq_comm]
  | error e st => simp

/-- The calls of a session. -/
inductive KeyedCall (V : Type)
  | create (k : IndexKey) (constructor : ObjectId → V)
  | modify (id : ObjectId) (m : V → V)
  | remove (id : ObjectId)

namespace UndoDatabase

variable (clash : IndexKey → V → V → Bool)

/-- `primary_index::create`, `modify` and `remove`, with the hooks of the undo database. -/
def execKeyed : KeyedCall V → EStateM DbError (UndoDatabase V) Unit
  | .create k c => do
    let d ← get
    onStoreOf (Store.createKeyed clash k c)
    update fun d' => d'.onCreate (d.store.getNextId k)
  | .modify id m => do
    let d ← get
    let v ← require .unableToFindObject (d.store.objects id)
    update fun d => d.onModify id v
    onStoreOf (Store.modifyKeyed clash id m)
  | .remove id => do
    let d ← get
    let v ← require .unableToFindObject (d.store.objects id)
    update fun d => d.onRemove id v
    onStoreOf (onStore fun st => st.remove id)

/-- `undo_database::undo`. If it throws, the undo database stays disabled. -/
def undoKeyed : EStateM DbError (UndoDatabase V) Unit := do
  let d ← get
  assert .assertion (d.disabled = false)
  assert .assertion (0 < d.activeSessions)
  update fun d => { d with disabled := true }
  let u ← require .undefinedBack d.stack.head?
  onStoreOf (u.revertKeyed clash)
  update fun d =>
    { d with
      stack := d.stack.tail
      disabled := false
      activeSessions := d.activeSessions - 1 }

end UndoDatabase

/-- The entries of a change set in another order, as a hash map may give them. -/
structure UndoState.Reorders (u' u : UndoState V) : Prop where
  oldValues : u'.oldValues.entries.Perm u.oldValues.entries
  oldIndexNextIds : u'.oldIndexNextIds.entries.Perm u.oldIndexNextIds.entries
  newIds : u'.newIds.entries.Perm u.newIds.entries
  removed : u'.removed.entries.Perm u.removed.entries

theorem Represents.reorder {u u' : UndoState V} {s₀ s₁ : Store V} (h : Represents u s₀ s₁)
    (hu : u'.Reorders u) : Represents u' s₀ s₁ where
  object id := by
    rw [AList.perm_lookup hu.newIds, AList.perm_lookup hu.oldValues, AList.perm_lookup hu.removed]
    exact h.object id
  nextId k := by
    rw [AList.perm_lookup hu.oldIndexNextIds]
    exact h.nextId k
  nextId_le := h.nextId_le
  fresh id hid := h.fresh id ((AList.mem_of_perm hu.newIds).mp hid)
  wf := h.wf

section Session

variable {clash : IndexKey → V → V → Bool} {d d' : UndoDatabase V} {s₀ : Store V}
  {us : List (UndoState V)} {n : ℕ}

/-- The newest change set is the difference from the store at the start of the session. -/
structure InSession (s₀ : Store V) (us : List (UndoState V)) (n : ℕ) (d : UndoDatabase V) : Prop where
  stack : ∃ u, d.stack = u :: us ∧ Represents u s₀ d.store
  enabled : d.disabled = false
  active : d.activeSessions = n
  wf : d.store.WF

theorem inSession_start (hwf : d.store.WF) (henabled : d.disabled = false) :
    InSession d.store (d.stack.take d.maxSize) (d.activeSessions + 1) d.startUndoSession where
  stack := ⟨{}, rfl, .refl hwf⟩
  enabled := henabled
  active := rfl
  wf := hwf

theorem InSession.exec (h : InSession s₀ us n d) {c : KeyedCall V}
    (hc : UndoDatabase.execKeyed clash c d = .ok () d') : InSession s₀ us n d' := by
  obtain ⟨u, hstack, hrep⟩ := h.stack
  cases c with
  | create k c =>
    rw [UndoDatabase.execKeyed, get_bind] at hc
    obtain ⟨st, hst, hc⟩ := onStoreOf_bind_eq_ok.mp hc
    obtain ⟨-, hst⟩ := Store.createKeyed_eq_ok.mp hst
    have hd' := update_eq_ok.mp hc
    rw [UndoDatabase.onCreate, if_neg (by simp [h.enabled]), UndoDatabase.withBack] at hd'
    simp only [hstack] at hd'
    rw [hd']
    exact ⟨⟨_, rfl, hrep.create hst⟩, h.enabled, h.active, h.wf.create hst⟩
  | modify id m =>
    rw [UndoDatabase.execKeyed, get_bind, require_bind_eq_ok] at hc
    obtain ⟨v, hv, hc⟩ := hc
    rw [update_bind, UndoDatabase.onModify, if_neg (by simp [h.enabled]), UndoDatabase.withBack,
      hstack] at hc
    obtain ⟨st, hst, rfl⟩ := onStoreOf_eq_ok.mp hc
    obtain ⟨-, hm⟩ := Store.modifyKeyed_eq_ok.mp hst
    exact ⟨⟨_, rfl, hrep.modify hv hm⟩, h.enabled, h.active, h.wf.modify hm⟩
  | remove id =>
    rw [UndoDatabase.execKeyed, get_bind, require_bind_eq_ok] at hc
    obtain ⟨v, hv, hc⟩ := hc
    rw [update_bind, UndoDatabase.onRemove, if_neg (by simp [h.enabled]), UndoDatabase.withBack,
      hstack] at hc
    obtain ⟨st, hst, rfl⟩ := onStoreOf_eq_ok.mp hc
    have hr := onStore_eq_ok.mp hst
    exact ⟨⟨_, rfl, hrep.remove hv hr⟩, h.enabled, h.active, h.wf.remove hr⟩

theorem InSession.run : ∀ {calls : List (KeyedCall V)} {d d' : UndoDatabase V}, InSession s₀ us n d →
    calls.forM (UndoDatabase.execKeyed clash) d = .ok () d' → InSession s₀ us n d' := by
  intro calls
  induction calls with
  | nil =>
    intro d d' h hrun
    obtain ⟨-, rfl⟩ := pure_eq_ok.mp hrun
    exact h
  | cons c calls ih =>
    intro d d' h hrun
    obtain ⟨_, d₁, hc, hrun⟩ := bind_eq_ok.mp hrun
    exact ih (h.exec hc) hrun

theorem UndoDatabase.undoKeyed_iff {u : UndoState V} (hstack : d.stack = u :: us)
    (henabled : d.disabled = false) (hactive : 0 < d.activeSessions) (P : Store V → Prop) :
    (∃ d₂, undoKeyed clash d = .ok () d₂ ∧ P d₂.store) ↔
      ∃ st, u.revertKeyed clash d.store = .ok () st ∧ P st := by
  unfold undoKeyed
  simp only [get_bind, assert_bind_eq_ok, update_bind, require_bind_eq_ok, onStoreOf_bind_eq_ok,
    update_eq_ok, hstack, List.head?_cons, Option.some.injEq]
  constructor
  · rintro ⟨d₂, ⟨-, -, u', rfl, st, hst, rfl⟩, hP⟩
    exact ⟨st, hst, hP⟩
  · rintro ⟨st, hst, hP⟩
    exact ⟨_, ⟨henabled, hactive, u, rfl, st, hst, rfl⟩, hP⟩

/-- **Undo of a session succeeds and restores the store exactly if no key is taken** that an old value is
given back, whatever the order is in which the change set is gone through. -/
theorem undo_restores_iff {d₁ : UndoDatabase V} {calls : List (KeyedCall V)} {u u' : UndoState V}
    (hwf : d.store.WF) (hunique : d.store.Unique clash) (henabled : d.disabled = false)
    (hrun : calls.forM (UndoDatabase.execKeyed clash) d.startUndoSession = .ok () d₁)
    (hstack : d₁.stack = u :: us) (hu : u'.Reorders u) :
    (∃ d₂, UndoDatabase.undoKeyed clash { d₁ with stack := u' :: us } = .ok () d₂ ∧
      d₂.store = d.store) ↔ u'.Restorable clash d₁.store := by
  have hsession := (inSession_start hwf henabled).run hrun
  obtain ⟨u₁, hu₁, hrep⟩ := hsession.stack
  obtain rfl : u₁ = u := (List.cons.inj (hu₁.symm.trans hstack)).1
  have hactive : 0 < d₁.activeSessions := by
    rw [hsession.active]
    exact Nat.succ_pos _
  rw [UndoDatabase.undoKeyed_iff (d := { d₁ with stack := u' :: us }) rfl hsession.enabled hactive
    (fun st => st = d.store)]
  exact UndoState.revertKeyed_iff (hrep.reorder hu) hsession.wf hunique

end Session

/-! ### An example -/

section Example

private def first : ObjectId := ⟨⟨1, 2⟩, 0⟩

private def second : ObjectId := ⟨⟨1, 2⟩, 1⟩

/-- Two objects whose value is a unique key. -/
private def twoKeys : UndoDatabase ℕ :=
  .fresh ⟨fun id => if id = first then some 1 else if id = second then some 2 else none,
    fun k => if k = ⟨1, 2⟩ then 2 else 0⟩ 10

private def sameKey : IndexKey → ℕ → ℕ → Bool := fun _ v w => v == w

private theorem twoKeys_wf : twoKeys.store.WF := by
  intro id hid
  change (if id = first then some 1 else if id = second then some 2 else none).isSome = true at hid
  split at hid
  · next h =>
    rw [h]
    decide
  · split at hid
    · next h =>
      rw [h]
      decide
    · cases hid

private theorem twoKeys_unique : twoKeys.store.Unique sameKey := by
  intro id id' v v' _ hne hv hv'
  change (if id = first then some 1 else if id = second then some 2 else none) = some v at hv
  change (if id' = first then some 1 else if id' = second then some 2 else none) = some v' at hv'
  unfold sameKey
  split at hv
  · next h =>
    split at hv'
    · next h' => exact absurd (h.trans h'.symm) hne
    · split at hv'
      · cases hv
        cases hv'
        rfl
      · cases hv'
  · split at hv
    · next h =>
      split at hv'
      · cases hv
        cases hv'
        rfl
      · split at hv'
        · next h' => exact absurd (h.trans h'.symm) hne
        · cases hv'
    · cases hv

theorem UndoState.Reorders.refl (u : UndoState V) : u.Reorders u :=
  ⟨.refl _, .refl _, .refl _, .refl _⟩

/-- An object that gets a key nobody had. -/
theorem undo_restores_moved_key : ∃ d₁ us d₂,
    [KeyedCall.modify first fun _ => 3].forM (UndoDatabase.execKeyed sameKey)
      twoKeys.startUndoSession = .ok () d₁ ∧
    UndoDatabase.undoKeyed sameKey { d₁ with stack := us } = .ok () d₂ ∧ d₂.store = twoKeys.store := by
  obtain ⟨d₁, u, us, hrun, hstack, hrestorable⟩ : ∃ d₁ u us,
      [KeyedCall.modify first fun _ => 3].forM (UndoDatabase.execKeyed sameKey)
        twoKeys.startUndoSession = .ok () d₁ ∧ d₁.stack = u :: us ∧
          u.Restorable sameKey d₁.store := by
    refine ⟨_, _, _, rfl, rfl, List.pairwise_singleton _ _, ?_⟩
    exact fun _ _ id hid => absurd hid (AList.notMem_empty id)
  obtain ⟨d₂, hundo, hstore⟩ := (undo_restores_iff twoKeys_wf twoKeys_unique rfl hrun hstack
    (.refl u)).mpr hrestorable
  exact ⟨d₁, _, d₂, hrun, hundo, hstore⟩

/-- The two objects exchange their keys by way of a third one. -/
private def exchange : List (KeyedCall ℕ) :=
  [.modify first fun _ => 3, .modify second fun _ => 1, .modify first fun _ => 2]

/-- Each of the two keys is taken when it is to be given back first. -/
theorem not_undo_restores : ¬ ∀ {clash : IndexKey → ℕ → ℕ → Bool} {d d₁ : UndoDatabase ℕ}
    {calls : List (KeyedCall ℕ)} {u u' : UndoState ℕ} {us : List (UndoState ℕ)},
    d.store.WF → d.store.Unique clash → d.disabled = false →
    calls.forM (UndoDatabase.execKeyed clash) d.startUndoSession = .ok () d₁ → d₁.stack = u :: us →
    u'.Reorders u → ∃ d₂, UndoDatabase.undoKeyed clash { d₁ with stack := u' :: us } = .ok () d₂ ∧
      d₂.store = d.store := by
  intro hall
  have hrun : exchange.forM (UndoDatabase.execKeyed sameKey) twoKeys.startUndoSession = .ok () _ := rfl
  obtain ⟨d₂, hundo, -⟩ := hall twoKeys_wf twoKeys_unique rfl hrun rfl (.refl _)
  cases hundo

end Example

end FinChain
