import Mathlib.Data.List.AList
import Mathlib.Algebra.BigOperators.Group.List.Basic
import Mathlib.Algebra.BigOperators.Pi
import Mathlib.Algebra.Order.BigOperators.Group.List
import Mathlib.Algebra.Group.Basic
import Mathlib.Tactic.Abel

/-!
# Tables and what they add up to

Tables with one record for each key, and tables whose keys are given out one after the other
(`Index`). Of a table that holds quantities in its records one wants to know their total: `total f`
adds up `f k a` over all records, in any commutative group. Creating, changing and removing a record
changes a total by what the record adds to it (`total_create`, `total_modify`, `total_erase`), so a
program that takes from one record what it gives to another leaves the total as it was. That is all
of the argument for the conservation of a quantity; nothing has to be known about the rest of the
table.

The records themselves are read with `AList.lookup`.
-/

/-- A record for each of finitely many keys. -/
abbrev Table (κ α : Type) := AList fun _ : κ => α

namespace Table

variable {κ α M : Type} [DecidableEq κ] [AddCommGroup M] {t : Table κ α} {k : κ}

/-- What the records add up to. -/
def total (f : κ → α → M) (t : Table κ α) : M := (t.entries.map fun e => f e.1 e.2).sum

/-- Change the record of a key, if there is one. -/
def modify (k : κ) (g : α → α) (t : Table κ α) : Table κ α :=
  match t.lookup k with
  | some a => t.insert k (g a)
  | none => t

theorem total_erase (f : κ → α → M) (t : Table κ α) (k : κ) :
    t.total f = (t.lookup k).elim 0 (f k) + Table.total f (t.erase k) := by
  change (t.entries.map _).sum = (t.entries.dlookup k).elim 0 (f k) +
    ((t.entries.kerase k).map _).sum
  induction t.entries with
  | nil => simp
  | cons e l ih =>
    obtain ⟨k', a⟩ := e
    by_cases h : k = k'
    · subst h
      simp
    · rw [List.dlookup_cons_ne _ _ h, List.kerase_cons_ne h, List.map_cons, List.sum_cons,
        List.map_cons, List.sum_cons, ih]
      abel

omit [DecidableEq κ] in
theorem total_add (f g : κ → α → M) (t : Table κ α) :
    t.total (fun k a => f k a + g k a) = t.total f + t.total g := by
  unfold total
  induction t.entries with
  | nil => simp
  | cons e l ih =>
    simp only [List.map_cons, List.sum_cons]
    rw [ih]
    abel

omit [DecidableEq κ] in
theorem total_sub (f g : κ → α → M) (t : Table κ α) :
    t.total (fun k a => f k a - g k a) = t.total f - t.total g := by
  unfold total
  induction t.entries with
  | nil => simp
  | cons e l ih =>
    simp only [List.map_cons, List.sum_cons]
    rw [ih]
    abel

theorem total_erase_of_lookup (f : κ → α → M) {a : α} (h : t.lookup k = some a) :
    Table.total f (t.erase k) = t.total f - f k a := by
  rw [total_erase f t k, h, Option.elim_some, add_sub_cancel_left]

theorem total_insert (f : κ → α → M) (t : Table κ α) (k : κ) (a : α) :
    Table.total f (t.insert k a) = f k a + Table.total f (t.erase k) := by
  unfold total
  rw [AList.entries_insert, List.map_cons, List.sum_cons]
  rfl

theorem total_insert_of_none (f : κ → α → M) (a : α) (h : t.lookup k = none) :
    Table.total f (t.insert k a) = t.total f + f k a := by
  rw [total_insert, total_erase f t k, h, Option.elim_none, zero_add, add_comm]

theorem total_insert_of_lookup (f : κ → α → M) {a : α} (a' : α) (h : t.lookup k = some a) :
    Table.total f (t.insert k a') = t.total f + (f k a' - f k a) := by
  rw [total_insert, total_erase_of_lookup f h]
  abel

theorem modify_of_none (g : α → α) (h : t.lookup k = none) : t.modify k g = t := by
  rw [modify, h]

theorem modify_of_lookup (g : α → α) {a : α} (h : t.lookup k = some a) :
    t.modify k g = t.insert k (g a) := by
  rw [modify, h]

theorem total_modify (f : κ → α → M) (g : α → α) {a : α} (h : t.lookup k = some a) :
    (t.modify k g).total f = t.total f + (f k (g a) - f k a) := by
  rw [modify_of_lookup g h, total_insert_of_lookup f _ h]

theorem lookup_modify (t : Table κ α) (k : κ) (g : α → α) (k' : κ) :
    (t.modify k g).lookup k' = if k' = k then (t.lookup k).map g else t.lookup k' := by
  cases h : t.lookup k with
  | none =>
    rw [modify_of_none g h]
    split
    · next hk => rw [hk, h, Option.map_none]
    · rfl
  | some a =>
    rw [modify_of_lookup g h]
    split
    · next hk => rw [hk, AList.lookup_insert, Option.map_some]
    · next hk => exact AList.lookup_insert_ne hk

theorem lookup_modify_eq_none (k' : κ) (g : α → α) (h : t.lookup k = none) :
    (t.modify k' g).lookup k = none := by
  rw [lookup_modify]
  split
  · next hk => rw [← hk, h, Option.map_none]
  · exact h

theorem lookup_of_mem_entries {e : Sigma fun _ : κ => α} (h : e ∈ t.entries) :
    t.lookup e.1 = some e.2 :=
  AList.mem_lookup_iff.mpr h

theorem total_nonneg [PartialOrder M] [IsOrderedAddMonoid M] {f : κ → α → M}
    (h : ∀ k a, t.lookup k = some a → 0 ≤ f k a) : 0 ≤ t.total f := by
  unfold total
  refine List.sum_nonneg ?_
  intro x hx
  obtain ⟨e, he, rfl⟩ := List.mem_map.mp hx
  exact h e.1 e.2 (lookup_of_mem_entries he)

/-- What holds of all entries of a table. -/
theorem forall_of_entries {P : κ → α → Prop} (h : ∀ e ∈ t.entries, P e.1 e.2) (k : κ) (a : α)
    (ha : t.lookup k = some a) : P k a :=
  h ⟨k, a⟩ (AList.mem_lookup_iff.mp ha)

/-- Records that add nothing in one place. -/
theorem total_apply_eq_zero {ι : Type} {f : κ → α → ι → M} {i : ι}
    (h : ∀ k a, t.lookup k = some a → f k a i = 0) : t.total f i = 0 := by
  unfold total
  rw [Pi.list_sum_apply, List.map_map]
  refine List.sum_eq_zero ?_
  intro x hx
  obtain ⟨e, he, rfl⟩ := List.mem_map.mp hx
  exact h e.1 e.2 (lookup_of_mem_entries he)

end Table

/-- A table whose keys are given out one after the other. -/
structure Index (α : Type) where
  next : ℕ
  table : Table ℕ α
  fresh : ∀ k ∈ table, k < next

namespace Index

variable {α M : Type} [AddCommGroup M] {x : Index α} {k : ℕ}

/-- The empty table. -/
def empty : Index α := ⟨0, ∅, fun _ h => absurd h (AList.notMem_empty _)⟩

def lookup (x : Index α) (k : ℕ) : Option α := x.table.lookup k

/-- Add a record under the next key. -/
def create (x : Index α) (a : α) : Index α where
  next := x.next + 1
  table := x.table.insert x.next a
  fresh k h := by
    rcases (AList.mem_insert _).mp h with rfl | h
    · exact Nat.lt_succ_self _
    · exact Nat.lt_succ_of_lt (x.fresh k h)

def modify (x : Index α) (k : ℕ) (g : α → α) : Index α where
  next := x.next
  table := x.table.modify k g
  fresh k' h := by
    refine x.fresh k' ?_
    rw [← AList.lookup_isSome, Table.lookup_modify] at h
    rw [← AList.lookup_isSome]
    split at h
    · next hk => rwa [hk, ← Option.isSome_map]
    · exact h

def erase (x : Index α) (k : ℕ) : Index α where
  next := x.next
  table := x.table.erase k
  fresh k' h := x.fresh k' (AList.mem_erase.mp h).2

/-- Pass over a key. -/
def skip (x : Index α) : Index α where
  next := x.next + 1
  table := x.table
  fresh k h := Nat.lt_succ_of_lt (x.fresh k h)

/-- The records with their keys. -/
def entries (x : Index α) : List (ℕ × α) := x.table.entries.map fun e => (e.1, e.2)

def total (f : ℕ → α → M) (x : Index α) : M := x.table.total f

theorem lookup_next (x : Index α) : x.lookup x.next = none :=
  AList.lookup_eq_none.mpr fun h => absurd (x.fresh _ h) (Nat.lt_irrefl _)

theorem lookup_create (x : Index α) (a : α) (k : ℕ) :
    (x.create a).lookup k = if k = x.next then some a else x.lookup k := by
  unfold lookup create
  split
  · next h => rw [h, AList.lookup_insert]
  · next h => exact AList.lookup_insert_ne h

theorem lookup_modify (x : Index α) (k : ℕ) (g : α → α) (k' : ℕ) :
    (x.modify k g).lookup k' = if k' = k then (x.lookup k).map g else x.lookup k' :=
  Table.lookup_modify x.table k g k'

theorem lookup_erase (x : Index α) (k k' : ℕ) :
    (x.erase k).lookup k' = if k' = k then none else x.lookup k' := by
  unfold lookup erase
  split
  · next h => rw [h, AList.lookup_erase]
  · next h => exact AList.lookup_erase_ne h

theorem lookup_of_mem_entries {e : ℕ × α} (h : e ∈ x.entries) : x.lookup e.1 = some e.2 := by
  obtain ⟨e', he', rfl⟩ := List.mem_map.mp h
  exact Table.lookup_of_mem_entries he'

theorem mem_entries_of_lookup {a : α} (h : x.lookup k = some a) : (k, a) ∈ x.entries :=
  List.mem_map.mpr ⟨⟨k, a⟩, AList.mem_lookup_iff.mp h, rfl⟩

theorem erase_modify (x : Index α) (k : ℕ) (g : α → α) : (x.modify k g).erase k = x.erase k := by
  have htable : (x.table.modify k g).erase k = x.table.erase k := by
    cases h : x.table.lookup k with
    | none => rw [Table.modify_of_none g h]
    | some a =>
      rw [Table.modify_of_lookup g h]
      refine AList.ext ?_
      change (AList.entries _).kerase k = (AList.entries _).kerase k
      simp [AList.entries_insert]
  unfold erase modify
  simp only [htable]

theorem total_nonneg [PartialOrder M] [IsOrderedAddMonoid M] {f : ℕ → α → M}
    (h : ∀ k a, x.lookup k = some a → 0 ≤ f k a) : 0 ≤ x.total f :=
  Table.total_nonneg h

/-- Records that add nothing in one place. -/
theorem total_apply_eq_zero {ι : Type} {f : ℕ → α → ι → M} {i : ι}
    (h : ∀ k a, x.lookup k = some a → f k a i = 0) : x.total f i = 0 :=
  Table.total_apply_eq_zero h

theorem total_add (f g : ℕ → α → M) (x : Index α) :
    x.total (fun k a => f k a + g k a) = x.total f + x.total g :=
  Table.total_add f g x.table

theorem total_create (f : ℕ → α → M) (x : Index α) (a : α) :
    (x.create a).total f = x.total f + f x.next a :=
  Table.total_insert_of_none f a x.lookup_next

theorem total_modify (f : ℕ → α → M) (g : α → α) {a : α} (h : x.lookup k = some a) :
    (x.modify k g).total f = x.total f + (f k (g a) - f k a) :=
  Table.total_modify f g h

theorem total_erase (f : ℕ → α → M) {a : α} (h : x.lookup k = some a) :
    (x.erase k).total f = x.total f - f k a :=
  Table.total_erase_of_lookup f h

end Index
