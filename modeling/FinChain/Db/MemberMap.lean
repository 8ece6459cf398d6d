import FinChain.Db.SecondaryIndex
import FinChain.Lib.SortedLists
import Mathlib.Data.Finset.Sort
import Mathlib.Tactic.Tauto

/-!
# Maps from keys to the objects that have them

The secondary indexes of the chain are maps of sets: for every key the ids of the objects that have it
among their members. Such a map is `Exact` if the id of an object is found under a key just when the object
is there and has the key. What an entry of the map is made of matters only through `ids`, which does not
tell an empty set from none.

Sets are gone through in their order, one key after the other. An id that is added to (or dropped from) the
sets of some keys is in the set of a key afterwards if it was there or the key is among them (or was there
and it is not); that is all of a loop that has to be known.
-/

namespace FinChain

attribute [local instance] isTrans_le antisymm_le

variable {κ V : Type} [LinearOrder κ]

/-- `std::map` of keys to `std::set`s of ids. -/
abbrev MemberMap (κ : Type) := Table κ (Finset ℕ)

namespace MemberMap

/-- The ids under a key. -/
def ids (t : MemberMap κ) (a : κ) : Finset ℕ := (t.lookup a).getD ∅

/-- `map[a].insert(n)`. -/
def add (t : MemberMap κ) (a : κ) (n : ℕ) : MemberMap κ := t.insert a (insert n (ids t a))

/-- `map[a].erase(n)`. -/
def drop (t : MemberMap κ) (a : κ) (n : ℕ) : MemberMap κ := t.insert a ((ids t a).erase n)

/-- The loop over a set of keys that adds an id. -/
def addAll (keys : Finset κ) (n : ℕ) (t : MemberMap κ) : MemberMap κ :=
  (keys.sort (· ≤ ·)).foldl (fun t a => add t a n) t

/-- The loop over a set of keys that drops an id. -/
def dropAll (keys : Finset κ) (n : ℕ) (t : MemberMap κ) : MemberMap κ :=
  (keys.sort (· ≤ ·)).foldl (fun t a => drop t a n) t

theorem ids_insert (t : MemberMap κ) (a : κ) (s : Finset ℕ) (b : κ) :
    ids (t.insert a s) b = if b = a then s else ids t b := by
  unfold ids
  split
  · next h => rw [h, AList.lookup_insert, Option.getD_some]
  · next h => rw [AList.lookup_insert_ne h]

theorem mem_ids_add (t : MemberMap κ) (a : κ) (n : ℕ) (b : κ) (m : ℕ) :
    m ∈ ids (add t a n) b ↔ m ∈ ids t b ∨ (m = n ∧ b = a) := by
  unfold add
  rw [ids_insert]
  split
  · next h =>
    rw [h, Finset.mem_insert]
    tauto
  · next h => tauto

theorem mem_ids_drop (t : MemberMap κ) (a : κ) (n : ℕ) (b : κ) (m : ℕ) :
    m ∈ ids (drop t a n) b ↔ m ∈ ids t b ∧ ¬ (m = n ∧ b = a) := by
  unfold drop
  rw [ids_insert]
  split
  · next h =>
    rw [h, Finset.mem_erase]
    tauto
  · next h => tauto

theorem mem_ids_foldl_add {f : MemberMap κ → κ → MemberMap κ} {n : ℕ}
    (hf : ∀ t a b m, m ∈ ids (f t a) b ↔ m ∈ ids t b ∨ (m = n ∧ b = a)) (b : κ) (m : ℕ) :
    ∀ (keys : List κ) (t : MemberMap κ),
      m ∈ ids (keys.foldl f t) b ↔ m ∈ ids t b ∨ (m = n ∧ b ∈ keys)
  | [], t => by simp
  | a :: keys, t => by
    rw [List.foldl_cons, mem_ids_foldl_add hf b m keys, hf, List.mem_cons]
    tauto

theorem mem_ids_foldl_drop {f : MemberMap κ → κ → MemberMap κ} {n : ℕ}
    (hf : ∀ t a b m, m ∈ ids (f t a) b ↔ m ∈ ids t b ∧ ¬ (m = n ∧ b = a)) (b : κ) (m : ℕ) :
    ∀ (keys : List κ) (t : MemberMap κ),
      m ∈ ids (keys.foldl f t) b ↔ m ∈ ids t b ∧ ¬ (m = n ∧ b ∈ keys)
  | [], t => by simp
  | a :: keys, t => by
    rw [List.foldl_cons, mem_ids_foldl_drop hf b m keys, hf, List.mem_cons]
    tauto

theorem mem_ids_addAll (keys : Finset κ) (n : ℕ) (t : MemberMap κ) (b : κ) (m : ℕ) :
    m ∈ ids (addAll keys n t) b ↔ m ∈ ids t b ∨ (m = n ∧ b ∈ keys) := by
  unfold addAll
  rw [mem_ids_foldl_add (fun t a b m => mem_ids_add t a n b m), Finset.mem_sort]

theorem mem_ids_dropAll (keys : Finset κ) (n : ℕ) (t : MemberMap κ) (b : κ) (m : ℕ) :
    m ∈ ids (dropAll keys n t) b ↔ m ∈ ids t b ∧ ¬ (m = n ∧ b ∈ keys) := by
  unfold dropAll
  rw [mem_ids_foldl_drop (fun t a b m => mem_ids_drop t a n b m), Finset.mem_sort]

/-! ### Exact maps -/

/-- Under every key are the ids of the objects that have it. -/
def Exact (members : V → Finset κ) (objects : ℕ → Option V) (t : MemberMap κ) : Prop :=
  ∀ a n, n ∈ ids t a ↔ ∃ v, objects n = some v ∧ a ∈ members v

variable {members : V → Finset κ} {objects : ℕ → Option V} {t t' : MemberMap κ} {n : ℕ} {v v' : V}

theorem exact_empty : Exact members (fun _ => none) ∅ := by
  intro a n
  simp [ids]

/-- What has to be shown after a change of one object: the set of a key is as before for the other
objects, and right for this one. -/
theorem Exact.change (h : Exact members objects t) {o : Option V}
    (hother : ∀ a m, m ≠ n → (m ∈ ids t' a ↔ m ∈ ids t a))
    (hself : ∀ a, n ∈ ids t' a ↔ ∃ v, o = some v ∧ a ∈ members v) :
    Exact members (Function.update objects n o) t' := by
  intro a m
  by_cases hm : m = n
  · rw [hm, Function.update_self]
    exact hself a
  · rw [Function.update_of_ne hm, hother a m hm]
    exact h a m

theorem Exact.notMem_of_none (h : Exact members objects t) (hn : objects n = none) (a : κ) :
    n ∉ ids t a := by
  rw [h a n, hn]
  rintro ⟨v, hv, -⟩
  cases hv

theorem Exact.mem_iff (h : Exact members objects t) (hn : objects n = some v) (a : κ) :
    n ∈ ids t a ↔ a ∈ members v := by
  rw [h a n, hn]
  constructor
  · rintro ⟨w, hw, ha⟩
    rwa [Option.some.inj hw]
  · exact fun ha => ⟨v, rfl, ha⟩

theorem Exact.insert (h : Exact members objects t) (hn : objects n = none)
    (ht : ∀ a m, m ∈ ids t' a ↔ m ∈ ids t a ∨ (m = n ∧ a ∈ members v)) :
    Exact members (Function.update objects n (some v)) t' := by
  refine h.change ?_ ?_
  · intro a m hm
    rw [ht a m]
    tauto
  · intro a
    have hnot := h.notMem_of_none hn a
    rw [ht a n]
    simp [hnot]

theorem Exact.remove (h : Exact members objects t) (hn : objects n = some v)
    (ht : ∀ a m, m ∈ ids t' a ↔ m ∈ ids t a ∧ ¬ (m = n ∧ a ∈ members v)) :
    Exact members (Function.update objects n none) t' := by
  refine h.change ?_ ?_
  · intro a m hm
    rw [ht a m]
    tauto
  · intro a
    have hmem := h.mem_iff hn a
    rw [ht a n]
    simp [hmem]

/-- The id is dropped from the sets of the keys that are no more among the members, and added to those of
the keys that have come. -/
theorem Exact.modify (h : Exact members objects t) (hn : objects n = some v)
    (ht : ∀ a m, m ∈ ids t' a ↔ (m ∈ ids t a ∧ ¬ (m = n ∧ a ∈ members v \ members v')) ∨
      (m = n ∧ a ∈ members v' \ members v)) :
    Exact members (Function.update objects n (some v')) t' := by
  refine h.change ?_ ?_
  · intro a m hm
    rw [ht a m]
    tauto
  · intro a
    have hmem := h.mem_iff hn a
    rw [ht a n]
    simp only [true_and, hmem, Finset.mem_sdiff, Option.some.injEq, exists_eq_left']
    tauto

/-- Nothing has to be done if the members stay the same. -/
theorem Exact.keep (h : Exact members objects t) (hn : objects n = some v)
    (hmembers : members v' = members v) : Exact members (Function.update objects n (some v')) t := by
  refine h.change (fun a m _ => Iff.rfl) ?_
  intro a
  rw [h.mem_iff hn a, ← hmembers]
  simp

end MemberMap

end FinChain
