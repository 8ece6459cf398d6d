import FinChain.Chain.Types

/-!
# The block database

`block_database`: an index file with one entry for each block number and a file of packed blocks.
Blocks are only ever appended to the second file, so an entry of the model carries the block its
position refers to; an entry whose `block_size` is zero carries none. Writing an entry beyond the
end of the index file fills the gap with zeros.
-/

namespace FinChain.Chain

variable {Op R : Type}

/-- `index_entry`. -/
structure IndexEntry (Op : Type) where
  blockId : BlockId := .zero
  /-- The block at `block_pos`, when `block_size` is not zero. -/
  block : Option (SignedBlock Op) := none

structure BlockDatabase (Op : Type) where
  /-- The number of entries of the index file. -/
  size : ℕ := 0
  entries : ℕ → IndexEntry Op := fun _ => {}

namespace BlockDatabase

/-- `store`. -/
def store (P : Protocol Op R) (d : BlockDatabase Op) (id : BlockId) (b : SignedBlock Op) :
    BlockDatabase Op :=
  let id := if id = .zero then P.blockId b else id
  { size := max d.size (id.num + 1)
    entries := fun n =>
      if n = id.num then { blockId := id, block := some b }
      else if n < d.size then d.entries n
      else {} }

/-- `remove`. -/
def remove (d : BlockDatabase Op) (id : BlockId) : Except ChainError (BlockDatabase Op) :=
  if d.size ≤ id.num then .error .keyNotFound
  else if (d.entries id.num).blockId = id then
    .ok { d with
      entries := Function.update d.entries id.num { d.entries id.num with block := none } }
  else .ok d

/-- `contains`. -/
def contains (d : BlockDatabase Op) (id : BlockId) : Bool :=
  id ≠ .zero ∧ id.num < d.size ∧ (d.entries id.num).blockId = id ∧
    (d.entries id.num).block.isSome

/-- `fetch_optional`: nothing is returned when the stored block has another id. -/
def fetchOptional (P : Protocol Op R) (d : BlockDatabase Op) (id : BlockId) :
    Option (SignedBlock Op) :=
  if d.size ≤ id.num then none
  else if (d.entries id.num).blockId ≠ id then none
  else (d.entries id.num).block.filter fun b => P.blockId b = id

/-- What `remove` does to the entries. -/
theorem remove_ok {d d' : BlockDatabase Op} {id : BlockId} (h : d.remove id = .ok d') :
    d'.size = d.size ∧ ∀ n, (d'.entries n).blockId = (d.entries n).blockId ∧
      (d'.entries n).block =
        if n = id.num ∧ (d.entries n).blockId = id then none else (d.entries n).block := by
  unfold BlockDatabase.remove at h
  split at h
  · cases h
  · split at h
    · next hentry =>
      obtain rfl := Except.ok.inj h
      refine ⟨rfl, fun n => ?_⟩
      dsimp only
      rw [Function.update_apply]
      by_cases heq : n = id.num
      · subst heq
        rw [if_pos rfl, if_pos ⟨rfl, hentry⟩]
        exact ⟨rfl, rfl⟩
      · rw [if_neg heq, if_neg (fun hand => heq hand.1)]
        exact ⟨rfl, rfl⟩
    · next hentry =>
      obtain rfl := Except.ok.inj h
      refine ⟨rfl, fun n => ⟨rfl, ?_⟩⟩
      rw [if_neg]
      rintro ⟨rfl, hid⟩
      exact hentry hid

/-- Storing a block under an id that is not the empty one makes the id known and adds no other
one. -/
theorem contains_store (P : Protocol Op R) (d : BlockDatabase Op) {id' : BlockId}
    (hid' : id' ≠ .zero) (b : SignedBlock Op) (id : BlockId) :
    (d.store P id' b).contains id = true → id = id' ∨ d.contains id = true := by
  simp only [contains, store, hid', if_false, decide_eq_true_eq]
  rintro ⟨hz, hsize, hentry, hblock⟩
  by_cases hnum : id.num = id'.num
  · rw [if_pos hnum] at hentry
    exact .inl hentry.symm
  · rw [if_neg hnum] at hentry hblock
    by_cases hlt : id.num < d.size
    · rw [if_pos hlt] at hentry hblock
      exact .inr ⟨hz, hlt, hentry, hblock⟩
    · -- the gap is filled with zeros, which are the entry of no block
      rw [if_neg hlt] at hblock
      exact absurd hblock (by simp)

/-- A removed block is not known any more, and nothing else becomes known. -/
theorem contains_remove {d d' : BlockDatabase Op} {id' : BlockId} (h : d.remove id' = .ok d')
    (id : BlockId) : d'.contains id = true → id ≠ id' ∧ d.contains id = true := by
  unfold remove at h
  split at h
  · cases h
  · split at h
    · next hentry' =>
      obtain rfl := Except.ok.inj h
      simp only [contains, decide_eq_true_eq]
      rintro ⟨hz, hsize, hentry, hblock⟩
      have hnum : id.num ≠ id'.num := by
        intro hnum
        rw [hnum, Function.update_self] at hblock
        exact absurd hblock (by simp)
      rw [Function.update_of_ne hnum] at hentry hblock
      exact ⟨fun heq => hnum (by rw [heq]), hz, hsize, hentry, hblock⟩
    · next hentry' =>
      obtain rfl := Except.ok.inj h
      simp only [contains, decide_eq_true_eq]
      rintro ⟨hz, hsize, hentry, hblock⟩
      exact ⟨fun heq => hentry' (by rw [← heq]; exact hentry), hz, hsize, hentry, hblock⟩

end BlockDatabase

end FinChain.Chain
