import Mathlib.Data.List.Forall2
import Mathlib.Order.Nat
import Mathlib.Tactic.Tauto

/-!
# Saving and opening an index

A `primary_index` holds the objects of one type: the next id, the objects in the order of their ids, and
the secondary indexes, which are told of every object that is inserted. When a node stops, `save` writes
the next id and then the objects, one record for each. When it starts again, `open` reads the next id, and
then loads records until something is thrown. That is how the end of the file is noticed; a record that
cannot be loaded ends the loop as well, and nobody is told.

Packing writes the reflected fields of an object and no others, so unpacking gives an object that is
otherwise as the default constructor makes it: the object `restore`d. Opened again, an index has its next
id and its objects restored, and secondary indexes made from these (`openFile_save`). It is the same index
exactly if restoring does nothing to its objects, and the secondary indexes are those that inserting the
objects one after the other gives (`openFile_save_agree_iff`).
-/

namespace FinChain

/-- What is fixed for an index of objects of a type. -/
structure IndexType (α σ : Type) where
  /-- The objects have a key in common that has to be unique, other than the id. -/
  clash : α → α → Bool
  clash_comm : ∀ a b, clash a b = clash b a
  /-- The secondary indexes of an index without objects. -/
  emptySecondary : σ
  /-- `secondary_index::object_inserted`, of all of them. -/
  objectInserted : ℕ × α → σ → σ

variable {α σ B : Type}

/-- The secondary indexes, made from the objects. -/
def IndexType.secondaryOf (T : IndexType α σ) (objects : List (ℕ × α)) : σ :=
  objects.foldl (fun secondary o => T.objectInserted o secondary) T.emptySecondary

/-- The ids of the objects increase. -/
def ById (objects : List (ℕ × α)) : Prop :=
  objects.Pairwise fun a b => a.1 < b.1

/-- No two objects have a unique key in common. -/
def IndexType.NoClash (T : IndexType α σ) (objects : List (ℕ × α)) : Prop :=
  objects.Pairwise fun a b => T.clash a.2 b.2 = false

/-- `primary_index`. -/
structure PrimaryIndex (T : IndexType α σ) where
  nextId : ℕ
  objects : List (ℕ × α)
  secondary : σ
  byId : ById objects
  noClash : T.NoClash objects

/-- Insert an object before the first one with a greater id. -/
def insertById (o : ℕ × α) : List (ℕ × α) → List (ℕ × α)
  | [] => [o]
  | a :: objects => if o.1 < a.1 then o :: a :: objects else a :: insertById o objects

theorem mem_insertById {o a : ℕ × α} : ∀ {objects : List (ℕ × α)},
    a ∈ insertById o objects ↔ a = o ∨ a ∈ objects
  | [] => by simp [insertById]
  | b :: objects => by
    unfold insertById
    split
    · simp
    · rw [List.mem_cons, mem_insertById, List.mem_cons]
      tauto

/-- The new object has an id of its own. -/
theorem byId_insertById {o : ℕ × α} : ∀ {objects : List (ℕ × α)}, ById objects →
    (∀ a ∈ objects, a.1 ≠ o.1) → ById (insertById o objects)
  | [], _, _ => List.pairwise_singleton _ _
  | b :: objects, hsorted, hnew => by
    obtain ⟨hb, hrest⟩ := List.pairwise_cons.mp hsorted
    have hne : b.1 ≠ o.1 := hnew b List.mem_cons_self
    unfold insertById
    split
    · next hlt =>
      refine List.pairwise_cons.mpr ⟨fun a ha => ?_, hsorted⟩
      rcases List.mem_cons.mp ha with rfl | ha
      · exact hlt
      · exact hlt.trans (hb a ha)
    · next hlt =>
      refine List.pairwise_cons.mpr ⟨fun a ha => ?_, byId_insertById hrest fun a ha =>
        hnew a (List.mem_cons_of_mem b ha)⟩
      rcases mem_insertById.mp ha with rfl | ha
      · exact lt_of_le_of_ne (not_lt.mp hlt) hne
      · exact hb a ha

theorem noClash_insertById {T : IndexType α σ} {o : ℕ × α} : ∀ {objects : List (ℕ × α)},
    T.NoClash objects → (∀ a ∈ objects, T.clash a.2 o.2 = false) → T.NoClash (insertById o objects)
  | [], _, _ => List.pairwise_singleton _ _
  | b :: objects, hclash, hnew => by
    obtain ⟨hb, hrest⟩ := List.pairwise_cons.mp hclash
    unfold insertById
    split
    · refine List.pairwise_cons.mpr ⟨fun a ha => ?_, hclash⟩
      rw [T.clash_comm]
      exact hnew a ha
    · refine List.pairwise_cons.mpr ⟨fun a ha => ?_, noClash_insertById hrest fun a ha =>
        hnew a (List.mem_cons_of_mem b ha)⟩
      rcases mem_insertById.mp ha with rfl | ha
      · exact hnew b List.mem_cons_self
      · exact hb a ha

/-- An object with the greatest id comes last. -/
theorem insertById_of_forall_lt {o : ℕ × α} : ∀ {objects : List (ℕ × α)},
    (∀ a ∈ objects, a.1 < o.1) → insertById o objects = objects ++ [o]
  | [], _ => rfl
  | b :: objects, h => by
    have hb : ¬ o.1 < b.1 := (h b List.mem_cons_self).not_gt
    have hrest := insertById_of_forall_lt fun a ha => h a (List.mem_cons_of_mem b ha)
    calc insertById o (b :: objects) = b :: insertById o objects := if_neg hb
      _ = b :: objects ++ [o] := by rw [hrest, List.cons_append]

namespace PrimaryIndex

variable {T : IndexType α σ}

/-- An index as it is made, before a file is opened. -/
def empty (T : IndexType α σ) : PrimaryIndex T where
  nextId := 0
  objects := []
  secondary := T.emptySecondary
  byId := List.Pairwise.nil
  noClash := List.Pairwise.nil

/-- `insert`, and then `object_inserted`. It throws if the object violates a uniqueness constraint. -/
def insert (o : ℕ × α) (x : PrimaryIndex T) : Option (PrimaryIndex T) :=
  if h : ∀ a ∈ x.objects, a.1 ≠ o.1 ∧ T.clash a.2 o.2 = false then
    some
      { nextId := x.nextId
        objects := insertById o x.objects
        secondary := T.objectInserted o x.secondary
        byId := byId_insertById x.byId fun a ha => (h a ha).1
        noClash := noClash_insertById x.noClash fun a ha => (h a ha).2 }
  else none

/-- An object with the greatest id and without a clash is inserted. -/
theorem insert_of_last {o : ℕ × α} {x : PrimaryIndex T} (hlast : ∀ a ∈ x.objects, a.1 < o.1)
    (hclash : ∀ a ∈ x.objects, T.clash a.2 o.2 = false) :
    ∃ y, x.insert o = some y ∧ y.nextId = x.nextId ∧ y.objects = x.objects ++ [o] ∧
      y.secondary = T.objectInserted o x.secondary :=
  ⟨_, dif_pos fun a ha => ⟨(hlast a ha).ne, hclash a ha⟩, rfl, insertById_of_forall_lt hlast, rfl⟩

end PrimaryIndex

/-! ### Files -/

/-- `fc::raw::pack` and `fc::raw::unpack` for the objects of a type. -/
structure Raw (α B : Type) where
  pack : ℕ × α → B
  unpack : B → Option (ℕ × α)

/-- The file of an index: the next id, the version, and then a record for each object. -/
structure IndexFile (B : Type) where
  nextId : ℕ
  version : String
  records : List B

/-- `get_object_version`, without the hash. -/
def objectVersion : String := "1.0"

namespace PrimaryIndex

variable {T : IndexType α σ} (raw : Raw α B)

/-- `primary_index::save`. -/
def save (x : PrimaryIndex T) : IndexFile B where
  nextId := x.nextId
  version := objectVersion
  records := x.objects.map raw.pack

/-- `primary_index::load`. -/
def load (data : B) (x : PrimaryIndex T) : Option (PrimaryIndex T) :=
  match raw.unpack data with
  | none => none
  | some o => x.insert o

/-- The loop of `open`. An exception ends it, also the one at the end of the file. -/
def loadAll : List B → PrimaryIndex T → PrimaryIndex T
  | [], x => x
  | data :: records, x =>
    match load raw data x with
    | none => x
    | some y => loadAll records y

/-- `primary_index::open`, of a file that exists. It throws if the version is not the same. -/
def openFile (file : IndexFile B) (x : PrimaryIndex T) : Option (PrimaryIndex T) :=
  if file.version = objectVersion then some (loadAll raw file.records { x with nextId := file.nextId })
  else none

variable {raw}

/-- Records of objects that come after all that are there, in the order of their ids, are all loaded. -/
theorem loadAll_pack {restore : α → α}
    (hraw : ∀ id a, raw.unpack (raw.pack (id, a)) = some (id, restore a)) :
    ∀ (rest : List (ℕ × α)) (x : PrimaryIndex T),
      ById (x.objects ++ rest.map fun o => (o.1, restore o.2)) →
      T.NoClash (x.objects ++ rest.map fun o => (o.1, restore o.2)) →
        (loadAll raw (rest.map raw.pack) x).nextId = x.nextId ∧
          (loadAll raw (rest.map raw.pack) x).objects =
            x.objects ++ rest.map (fun o => (o.1, restore o.2)) ∧
          (loadAll raw (rest.map raw.pack) x).secondary =
            (rest.map fun o => (o.1, restore o.2)).foldl (fun secondary o => T.objectInserted o secondary)
              x.secondary := by
  intro rest
  induction rest with
  | nil =>
    intro x _ _
    exact ⟨rfl, (List.append_nil x.objects).symm, rfl⟩
  | cons o rest ih =>
    intro x hsorted hclash
    have hbefore : ∀ a ∈ x.objects, a.1 < (o.1, restore o.2).1 := fun a ha =>
      (List.pairwise_append.mp hsorted).2.2 a ha (o.1, restore o.2) List.mem_cons_self
    have hclash' : ∀ a ∈ x.objects, T.clash a.2 (restore o.2) = false := fun a ha =>
      (List.pairwise_append.mp hclash).2.2 a ha (o.1, restore o.2) List.mem_cons_self
    obtain ⟨y, hinsert, hnext, hobjects, hsecondary⟩ := insert_of_last hbefore hclash'
    have hy : load raw (raw.pack o) x = some y := by
      unfold load
      rw [hraw o.1 o.2]
      exact hinsert
    have happend : y.objects ++ rest.map (fun o => (o.1, restore o.2)) =
        x.objects ++ (o :: rest).map fun o => (o.1, restore o.2) := by
      rw [hobjects, List.append_assoc]
      rfl
    rw [List.map_cons, loadAll, hy]
    rw [← happend] at hsorted hclash ⊢
    obtain ⟨hnext', hobjects', hsecondary'⟩ := ih y hsorted hclash
    refine ⟨hnext'.trans hnext, hobjects', ?_⟩
    rw [List.map_cons, List.foldl_cons, ← hsecondary]
    exact hsecondary'

/-- **A saved index, opened again**, has its objects as they are restored. -/
theorem openFile_save {restore : α → α}
    (hraw : ∀ id a, raw.unpack (raw.pack (id, a)) = some (id, restore a))
    (hclash : ∀ a b, T.clash a b = false → T.clash (restore a) (restore b) = false)
    (x : PrimaryIndex T) :
    ∃ y, (empty T).openFile raw (x.save raw) = some y ∧ y.nextId = x.nextId ∧
      y.objects = x.objects.map (fun o => (o.1, restore o.2)) ∧ y.secondary = T.secondaryOf y.objects := by
  have hsorted : ById (x.objects.map fun o => (o.1, restore o.2)) :=
    List.pairwise_map.mpr x.byId
  have hnoClash : T.NoClash (x.objects.map fun o => (o.1, restore o.2)) :=
    List.pairwise_map.mpr (x.noClash.imp fun h => hclash _ _ h)
  obtain ⟨hnext, hobjects, hsecondary⟩ :=
    loadAll_pack hraw x.objects { empty T with nextId := x.nextId } hsorted hnoClash
  refine ⟨_, if_pos rfl, hnext, hobjects, ?_⟩
  change (loadAll raw (x.objects.map raw.pack) { empty T with nextId := x.nextId }).secondary =
    T.secondaryOf (loadAll raw (x.objects.map raw.pack) { empty T with nextId := x.nextId }).objects
  rw [hsecondary, hobjects]
  rfl

/-- The same index, for those who compare objects by a relation. -/
structure Agree (R : α → α → Prop) (x y : PrimaryIndex T) : Prop where
  nextId : x.nextId = y.nextId
  objects : List.Forall₂ (fun a b => a.1 = b.1 ∧ R a.2 b.2) x.objects y.objects
  secondary : x.secondary = y.secondary

/-- **Nothing is lost** exactly if the objects are not changed by being restored, and the secondary indexes
are the ones that the restored objects make. -/
theorem openFile_save_agree_iff {restore : α → α}
    (hraw : ∀ id a, raw.unpack (raw.pack (id, a)) = some (id, restore a))
    (hclash : ∀ a b, T.clash a b = false → T.clash (restore a) (restore b) = false)
    {R : α → α → Prop} (x : PrimaryIndex T) :
    (∃ y, (empty T).openFile raw (x.save raw) = some y ∧ y.Agree R x) ↔
      (∀ o ∈ x.objects, R (restore o.2) o.2) ∧
        x.secondary = T.secondaryOf (x.objects.map fun o => (o.1, restore o.2)) := by
  obtain ⟨y, hopen, hnext, hobjects, hsecondary⟩ := openFile_save hraw hclash x
  rw [hobjects] at hsecondary
  have hforall : List.Forall₂ (fun a b => a.1 = b.1 ∧ R a.2 b.2) y.objects x.objects ↔
      ∀ o ∈ x.objects, R (restore o.2) o.2 := by
    rw [hobjects, List.forall₂_map_left_iff, List.forall₂_same]
    exact forall₂_congr fun o _ => and_iff_right rfl
  constructor
  · rintro ⟨z, hz, hagree⟩
    obtain rfl : y = z := Option.some.inj (hopen.symm.trans hz)
    exact ⟨hforall.mp hagree.objects, hagree.secondary.symm.trans hsecondary⟩
  · rintro ⟨hrestore, hx⟩
    exact ⟨y, hopen, hnext, hforall.mpr hrestore, hsecondary.trans hx.symm⟩

end PrimaryIndex

end FinChain
