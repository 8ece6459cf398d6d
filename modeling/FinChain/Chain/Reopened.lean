import FinChain.Chain.ObjectTypes

/-!
# The store of a node that was restarted

A node that stops writes all its indexes to files (`flush`), and opens them again when it starts. The
secondary indexes and the keys of each type are given (`Indexes`), and so is `fc::raw`, which is to restore
the reflected members (`RoundTrips`).

The node has lost nothing exactly under the conditions of `Unforgotten`. The locked balances are the ones
that have to do with what nodes agree on: a balance that was locked in any other asset is taken for a
locked balance of the core asset from then on.
-/

namespace FinChain.Chain

open PrimaryIndex

/-- What is fixed for the indexes of the chain, for members with values of a type. -/
structure Indexes (V : Type) where
  /-- The secondary indexes of a type. -/
  Secondary : ObjectType → Type
  indexType : ∀ t, IndexType (Object V t) (Secondary t)
  /-- The object that the default constructor makes. -/
  initial : ∀ t, Object V t
  noKeys : ∀ t, t.isGeneric = false → ∀ a b, (indexType t).clash a b = false
  noSecondary : ∀ t, t.isGeneric = false → Subsingleton (Secondary t)

variable {V B : Type} {I : Indexes V}

/-- The indexes of a node. -/
abbrev ObjectStore (I : Indexes V) : Type := ∀ t, PrimaryIndex (I.indexType t)

/-- `fc::raw` for all types. -/
abbrev RawObjects (V B : Type) : Type := ∀ t, Raw (Object V t) B

/-- Unpacking gives the id and the reflected members back. -/
def RoundTrips (I : Indexes V) (raw : RawObjects V B) : Prop :=
  ∀ t id o, (raw t).unpack ((raw t).pack (id, o)) = some (id, restore (I.initial t) o)

/-- `object_database::flush`. -/
def flush (raw : RawObjects V B) (s : ObjectStore I) : ObjectType → IndexFile B :=
  fun t => (s t).save (raw t)

/-- `object_database::open`, for a new node. -/
def openFiles (raw : RawObjects V B) (files : ObjectType → IndexFile B) (t : ObjectType) :
    Option (PrimaryIndex (I.indexType t)) :=
  (empty (I.indexType t)).openFile (raw t) (files t)

/-- The same members, but for `active_interest_rate`, which nothing ever reads. -/
def ReadAlike {t : ObjectType} (a b : Object V t) : Prop :=
  ∀ m, m.1 ≠ .activeInterestRate → a m = b m

/-- The node that was restarted has the same objects, next ids and secondary indexes. -/
def LosesNothing (raw : RawObjects V B) (s : ObjectStore I) : Prop :=
  ∀ t, ∃ y, openFiles raw (flush raw s) t = some y ∧ y.Agree ReadAlike (s t)

/-- Nothing is lost by being written. -/
structure Unforgotten (s : ObjectStore I) : Prop where
  /-- What is locked is of the core asset, and has not been paid out. -/
  locked : ∀ o ∈ (s .lockedBalanceObject).objects,
    o.2 ⟨.assetId, by decide⟩ = I.initial .lockedBalanceObject ⟨.assetId, by decide⟩ ∧
      o.2 ⟨.finish, by decide⟩ = I.initial .lockedBalanceObject ⟨.finish, by decide⟩
  parameters : ∀ o ∈ (s .globalPropertyObject).objects,
    o.2 ⟨.parametersWitnessPayVestingSeconds, by decide⟩ =
        I.initial .globalPropertyObject ⟨.parametersWitnessPayVestingSeconds, by decide⟩ ∧
      o.2 ⟨.pendingParametersWitnessPayVestingSeconds, by decide⟩ =
        I.initial .globalPropertyObject ⟨.pendingParametersWitnessPayVestingSeconds, by decide⟩
  secondary : ∀ t, (s t).secondary = (I.indexType t).secondaryOf (s t).objects

theorem clash_restore (I : Indexes V) (t : ObjectType) (a b : Object V t)
    (h : (I.indexType t).clash a b = false) :
    (I.indexType t).clash (restore (I.initial t) a) (restore (I.initial t) b) = false := by
  by_cases hall : unreflected t = []
  · rw [restore_of_reflected hall, restore_of_reflected hall]
    exact h
  · exact I.noKeys t (isGeneric_eq_false_of_unreflected hall) _ _

/-- The restored objects make the same secondary indexes. -/
theorem secondaryOf_restore (I : Indexes V) (t : ObjectType) (objects : List (ℕ × Object V t)) :
    (I.indexType t).secondaryOf (objects.map fun o => (o.1, restore (I.initial t) o.2)) =
      (I.indexType t).secondaryOf objects := by
  by_cases hall : unreflected t = []
  · have hsame : objects.map (fun o => (o.1, restore (I.initial t) o.2)) = objects := by
      refine (List.map_congr_left fun o _ => ?_).trans (List.map_id objects)
      rw [restore_of_reflected hall]
      rfl
    rw [hsame]
  · have hsub := I.noSecondary t (isGeneric_eq_false_of_unreflected hall)
    exact Subsingleton.elim _ _

/-- An object reads the same after it was restored if the members that are not reflected are as the
default constructor makes them. -/
theorem readAlike_restore {t : ObjectType} {initial o : Object V t} :
    ReadAlike (restore initial o) o ↔
      ∀ m, m.1 ∈ unreflected t → m.1 ≠ .activeInterestRate → o m = initial m := by
  constructor
  · intro h m hm hread
    have hnot : m.1 ∉ reflected t := of_decide_eq_true (List.mem_filter.mp hm).2
    have hrestore : restore initial o m = initial m := if_neg hnot
    exact (h m hread).symm.trans hrestore
  · intro h m hread
    by_cases hm : m.1 ∈ reflected t
    · exact if_pos hm
    · have hmem : m.1 ∈ unreflected t := List.mem_filter.mpr ⟨m.2, decide_eq_true hm⟩
      exact (if_neg hm).trans (h m hmem hread).symm

theorem readAlike_lockedBalance {initial o : Object V .lockedBalanceObject} :
    ReadAlike (restore initial o) o ↔ o ⟨.assetId, by decide⟩ = initial ⟨.assetId, by decide⟩ ∧
      o ⟨.finish, by decide⟩ = initial ⟨.finish, by decide⟩ := by
  rw [readAlike_restore, unreflected_eq]
  constructor
  · intro h
    exact ⟨h ⟨.assetId, by decide⟩ (by decide) (by decide), h ⟨.finish, by decide⟩ (by decide) (by decide)⟩
  · rintro ⟨hasset, hfinish⟩ ⟨m, hmem⟩ hm -
    rcases List.mem_cons.mp hm with hm | hm
    · obtain rfl : m = .assetId := hm
      exact hasset
    · obtain rfl : m = .finish := List.mem_singleton.mp hm
      exact hfinish

theorem readAlike_globalProperty {initial o : Object V .globalPropertyObject} :
    ReadAlike (restore initial o) o ↔
      o ⟨.parametersWitnessPayVestingSeconds, by decide⟩ =
          initial ⟨.parametersWitnessPayVestingSeconds, by decide⟩ ∧
        o ⟨.pendingParametersWitnessPayVestingSeconds, by decide⟩ =
          initial ⟨.pendingParametersWitnessPayVestingSeconds, by decide⟩ := by
  rw [readAlike_restore, unreflected_eq]
  constructor
  · intro h
    exact ⟨h ⟨.parametersWitnessPayVestingSeconds, by decide⟩ (by decide) (by decide),
      h ⟨.pendingParametersWitnessPayVestingSeconds, by decide⟩ (by decide) (by decide)⟩
  · rintro ⟨hparameters, hpending⟩ ⟨m, hmem⟩ hm -
    rcases List.mem_cons.mp hm with hm | hm
    · obtain rfl : m = .parametersWitnessPayVestingSeconds := hm
      exact hparameters
    · obtain rfl : m = .pendingParametersWitnessPayVestingSeconds := List.mem_singleton.mp hm
      exact hpending

/-- The other types lose nothing that is read. -/
theorem readAlike_of_others {t : ObjectType} (hlocked : t ≠ .lockedBalanceObject)
    (hglobal : t ≠ .globalPropertyObject) (initial o : Object V t) : ReadAlike (restore initial o) o := by
  rw [readAlike_restore, unreflected_eq]
  intro m hm hread
  cases t <;> first | exact absurd rfl hlocked | exact absurd rfl hglobal | cases hm | skip
  exact absurd (List.mem_singleton.mp hm) hread

/-- **What a restart loses.** A node that was restarted has the store it had before exactly if no balance
of another asset is locked, none has been paid out, the vesting time of witness pay is the default, and
the secondary indexes are what the objects make of them. -/
theorem losesNothing_iff {raw : RawObjects V B} (hraw : RoundTrips I raw) (s : ObjectStore I) :
    LosesNothing raw s ↔ Unforgotten s := by
  have htype : ∀ t, (∃ y, openFiles raw (flush raw s) t = some y ∧ y.Agree ReadAlike (s t)) ↔
      (∀ o ∈ (s t).objects, ReadAlike (restore (I.initial t) o.2) o.2) ∧
        (s t).secondary = (I.indexType t).secondaryOf (s t).objects := by
    intro t
    rw [← secondaryOf_restore I t]
    exact openFile_save_agree_iff (hraw t) (clash_restore I t) (s t)
  unfold LosesNothing
  rw [forall_congr' htype]
  constructor
  · intro h
    exact ⟨fun o ho => readAlike_lockedBalance.mp ((h _).1 o ho),
      fun o ho => readAlike_globalProperty.mp ((h _).1 o ho), fun t => (h t).2⟩
  · intro h t
    refine ⟨fun o ho => ?_, h.secondary t⟩
    by_cases hlocked : t = .lockedBalanceObject
    · subst hlocked
      exact readAlike_lockedBalance.mpr (h.locked o ho)
    · by_cases hglobal : t = .globalPropertyObject
      · subst hglobal
        exact readAlike_globalProperty.mpr (h.parameters o ho)
      · exact readAlike_of_others hlocked hglobal _ _

section Example

/-- Indexes without keys, of objects whose members are numbers. -/
private def plainIndexes : Indexes ℤ where
  Secondary _ := Unit
  indexType _ :=
    { clash := fun _ _ => false
      clash_comm := fun _ _ => rfl
      emptySecondary := ()
      objectInserted := fun _ _ => () }
  initial _ _ := 0
  noKeys _ _ _ _ := rfl
  noSecondary _ _ := inferInstanceAs (Subsingleton Unit)

/-- The reflected members are written. -/
private def plainRaw : RawObjects ℤ (ℕ × (Member → ℤ)) := fun t =>
  { pack := fun o => (o.1, fun m => if h : m ∈ members t ∧ m ∈ reflected t then o.2 ⟨m, h.1⟩ else 0)
    unpack := fun data => some (data.1, fun m => if m.1 ∈ reflected t then data.2 m.1 else 0) }

private theorem roundTrips_plainRaw : RoundTrips plainIndexes plainRaw := by
  intro t id o
  refine congrArg (fun o => some (id, o)) ?_
  funext m
  change (if m.1 ∈ reflected t then if h : m.1 ∈ members t ∧ m.1 ∈ reflected t then o ⟨m.1, h.1⟩ else 0
    else 0) = if m.1 ∈ reflected t then o m else 0
  split
  · next hm => exact dif_pos ⟨m.2, hm⟩
  · rfl

/-- A single locked balance, of some asset. -/
private def lockOf (asset : ℤ) : ObjectStore plainIndexes :=
  Function.update (fun t => empty (plainIndexes.indexType t)) .lockedBalanceObject
    { nextId := 1
      objects := [(0, fun m => if m.1 = .assetId then asset else 0)]
      secondary := ()
      byId := List.pairwise_singleton _ _
      noClash := List.pairwise_singleton _ _ }

private theorem objects_lockOf (asset : ℤ) : (lockOf asset .lockedBalanceObject).objects =
    [(0, fun m => if m.1 = .assetId then asset else 0)] := by
  unfold lockOf
  rw [Function.update_self]
  rfl

/-- A locked balance of the core asset survives. -/
theorem losesNothing_lockOf_core : LosesNothing plainRaw (lockOf 0) := by
  refine (losesNothing_iff roundTrips_plainRaw (lockOf 0)).mpr ⟨fun o ho => ?_, fun o ho => ?_, fun _ => rfl⟩
  · rw [objects_lockOf] at ho
    obtain rfl := List.mem_singleton.mp ho
    exact ⟨rfl, rfl⟩
  · have hnone : (lockOf 0 .globalPropertyObject).objects = [] := by
      unfold lockOf
      rw [Function.update_of_ne (by decide)]
      rfl
    rw [hnone] at ho
    cases ho

/-- A locked balance of another asset does not. -/
theorem not_losesNothing_lockOf : ¬ LosesNothing plainRaw (lockOf 1) := by
  intro h
  have hlocked := (openFile_save_agree_iff (roundTrips_plainRaw .lockedBalanceObject)
    (clash_restore plainIndexes .lockedBalanceObject) (lockOf 1 .lockedBalanceObject)).mp (h _)
  have hsame := readAlike_lockedBalance.mp (hlocked.1 (0, fun m => if m.1 = .assetId then 1 else 0) (by
    rw [objects_lockOf]
    exact List.mem_singleton_self _))
  exact absurd hsame.1 (by decide)

end Example

end FinChain.Chain
