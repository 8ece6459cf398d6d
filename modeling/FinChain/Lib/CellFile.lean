import Mathlib.Data.List.Basic

/-!
# Files of cells

A file as a sequence of cells, with reads and writes at any position: bytes for a file of packed data,
records for a file that is only ever accessed by whole records. Writing beyond the end of a file fills
the gap with the given empty cell, and a read that does not lie within the file fails.

The rules say what a cell is after a write (`get_write`), and that what was read before can still be
read after an append (`read_append`).
-/

universe u

/-- A file. -/
structure CellFile (α : Type u) where
  cells : List α := []

namespace CellFile

variable {α : Type u}

def size (f : CellFile α) : ℕ := f.cells.length

/-- The cell at a position. -/
def get (f : CellFile α) (pos : ℕ) : Option α := f.cells[pos]?

/-- So many cells from a position on. -/
def read (f : CellFile α) (pos count : ℕ) : Option (List α) :=
  if pos + count ≤ f.size then some ((f.cells.drop pos).take count) else none

/-- Overwrite the cell at a position, and fill the gap up to it. -/
def write (f : CellFile α) (empty : α) (pos : ℕ) (a : α) : CellFile α :=
  ⟨(f.cells ++ List.replicate (pos - f.size) empty).take pos ++ a :: f.cells.drop (pos + 1)⟩

/-- Write cells at the end. -/
def append (f : CellFile α) (l : List α) : CellFile α := ⟨f.cells ++ l⟩

theorem get_eq_none {f : CellFile α} {pos : ℕ} : f.get pos = none ↔ f.size ≤ pos :=
  List.getElem?_eq_none_iff

theorem exists_get {f : CellFile α} {pos : ℕ} (h : pos < f.size) : ∃ a, f.get pos = some a :=
  ⟨_, List.getElem?_eq_getElem h⟩

theorem length_filled (f : CellFile α) (empty : α) (pos : ℕ) :
    ((f.cells ++ List.replicate (pos - f.size) empty).take pos).length = pos := by
  rw [List.length_take, List.length_append, List.length_replicate]
  unfold size
  omega

theorem size_write (f : CellFile α) (empty : α) (pos : ℕ) (a : α) :
    (f.write empty pos a).size = max f.size (pos + 1) := by
  have hfilled := f.length_filled empty pos
  unfold write size at *
  rw [List.length_append, List.length_cons, List.length_drop, hfilled]
  omega

/-- **What a write leaves** at each position. -/
theorem get_write (f : CellFile α) (empty : α) (pos : ℕ) (a : α) (n : ℕ) :
    (f.write empty pos a).get n =
      if n = pos then some a else if f.size ≤ n ∧ n < pos then some empty else f.get n := by
  have hfilled := f.length_filled empty pos
  unfold write get
  rcases Nat.lt_trichotomy n pos with hlt | rfl | hgt
  · rw [if_neg (Nat.ne_of_lt hlt), List.getElem?_append_left (by omega), List.getElem?_take_of_lt hlt]
    by_cases hold : n < f.size
    · rw [if_neg fun h => absurd hold (Nat.not_lt.mpr h.1), List.getElem?_append_left hold]
    · rw [if_pos ⟨Nat.le_of_not_lt hold, hlt⟩, List.getElem?_append_right (Nat.le_of_not_lt hold),
        List.getElem?_replicate, if_pos]
      unfold size at *
      omega
  · rw [if_pos rfl, List.getElem?_append_right (by omega), hfilled, Nat.sub_self]
    rfl
  · obtain ⟨k, rfl⟩ := Nat.exists_eq_add_of_lt hgt
    rw [if_neg (Nat.ne_of_gt hgt), if_neg fun h => absurd h.2 (Nat.not_lt.mpr (Nat.le_of_lt hgt)),
      List.getElem?_append_right (by omega), hfilled]
    have hindex : pos + k + 1 - pos = k + 1 := by omega
    rw [hindex, List.getElem?_cons_succ, List.getElem?_drop]
    congr 1
    omega

theorem size_append (f : CellFile α) (l : List α) : (f.append l).size = f.size + l.length :=
  List.length_append

theorem read_append {f : CellFile α} {pos count : ℕ} {data : List α} (h : f.read pos count = some data)
    (l : List α) : (f.append l).read pos count = some data := by
  unfold read at h ⊢
  split at h
  · next hle =>
    rw [if_pos (by rw [size_append]; omega), ← h]
    unfold append size at *
    rw [List.drop_append_of_le_length (by omega), List.take_append_of_le_length]
    rw [List.length_drop]
    omega
  · cases h

/-- What was appended can be read at the old end. -/
theorem read_append_self (f : CellFile α) (l : List α) :
    (f.append l).read f.size l.length = some l := by
  unfold read
  rw [if_pos (Nat.le_of_eq (size_append f l).symm)]
  unfold append size
  rw [List.drop_left, List.take_length]

/-- No cells can be read anywhere in the file. -/
theorem read_zero {f : CellFile α} {pos : ℕ} (h : pos ≤ f.size) : f.read pos 0 = some [] := by
  unfold read
  rw [if_pos (by omega), List.take_zero]

end CellFile
