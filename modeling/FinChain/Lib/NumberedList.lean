import Mathlib.Data.List.Nodup
import Mathlib.Data.List.Perm.Subperm
import Mathlib.Data.List.Range

/-!
# Numbered linked lists

A linked list whose entries are numbered, the oldest with the lowest number, each pointing to the
entry before it: the representation of a bounded history. `E k id a` says that the entry with number
`k` is the object `a` under the key `id`. The list itself keeps the last number removed, the last
number given out, and the key of the newest entry.

`push` adds an entry at the new end, `pop` takes away the entry at the old end and lets the next one
point to nothing. That entries exist, are unique and linked is the invariant of both; nothing has to
be known about how the entries are stored.
-/

universe u

/-- The entries `E` with the numbers above `removed` up to `total`, linked by `next`. -/
structure NumberedList {α : Type u} (next : α → ℕ) (null : ℕ) (removed total newest : ℕ)
    (E : ℕ → ℕ → α → Prop) : Prop where
  /-- Once there were entries, the newest one is there. -/
  nonempty : total = 0 ∧ removed = 0 ∧ newest = null ∨ removed < total
  stored : ∀ k id a, E k id a → removed < k ∧ k ≤ total
  present : ∀ k, removed < k → k ≤ total → ∃ id a, E k id a
  unique : ∀ k id a id' a', E k id a → E k id' a' → id = id'
  link : ∀ k id a id' a', E k id a → E (k + 1) id' a' → next a' = id
  oldest : ∀ id a, E (removed + 1) id a → next a = null
  last : ∀ id a, E total id a → newest = id

namespace NumberedList

variable {α : Type u} {next : α → ℕ} {null removed total newest : ℕ} {E E' : ℕ → ℕ → α → Prop}

/-- The list without entries. -/
theorem nil (h : ∀ k id a, ¬ E k id a) : NumberedList next null 0 0 null E where
  nonempty := .inl ⟨rfl, rfl, rfl⟩
  stored k id a he := absurd he (h k id a)
  present _ hk hle := absurd (Nat.lt_of_lt_of_le hk hle) (Nat.lt_irrefl 0)
  unique k id a _ _ he _ := absurd he (h k id a)
  link k id a _ _ he _ := absurd he (h k id a)
  oldest id a he := absurd he (h _ id a)
  last id a he := absurd he (h _ id a)

theorem congr (h : NumberedList next null removed total newest E)
    (hE : ∀ k id a, E' k id a ↔ E k id a) : NumberedList next null removed total newest E' := by
  have heq : E' = E := by
    funext k id a
    exact propext (hE k id a)
  rwa [heq]

theorem le (h : NumberedList next null removed total newest E) : removed ≤ total := by
  rcases h.nonempty with ⟨htotal, hremoved, -⟩ | hlt
  · rw [htotal, hremoved]
  · exact Nat.le_of_lt hlt

/-- A new entry, which points to the one that was the newest. -/
theorem push (h : NumberedList next null removed total newest E) {id : ℕ} {a : α}
    (hnext : next a = newest)
    (hE : ∀ k i b, E' k i b ↔ E k i b ∨ k = total + 1 ∧ i = id ∧ b = a) :
    NumberedList next null removed (total + 1) id E' where
  nonempty := .inr (Nat.lt_succ_of_le h.le)
  stored k i b he := by
    rcases (hE k i b).mp he with he | ⟨rfl, -, -⟩
    · have hk := h.stored k i b he
      exact ⟨hk.1, Nat.le_succ_of_le hk.2⟩
    · exact ⟨Nat.lt_succ_of_le h.le, Nat.le_refl _⟩
  present k hk hle := by
    by_cases htop : k = total + 1
    · exact ⟨id, a, (hE k id a).mpr (.inr ⟨htop, rfl, rfl⟩)⟩
    · obtain ⟨i, b, he⟩ := h.present k hk (by omega)
      exact ⟨i, b, (hE k i b).mpr (.inl he)⟩
  unique k i b i' b' he he' := by
    rcases (hE k i b).mp he with he | ⟨rfl, rfl, -⟩
    · rcases (hE k i' b').mp he' with he' | ⟨rfl, -, -⟩
      · exact h.unique k i b i' b' he he'
      · exact absurd (h.stored _ i b he).2 (by omega)
    · rcases (hE _ i' b').mp he' with he' | ⟨-, rfl, -⟩
      · exact absurd (h.stored _ i' b' he').2 (by omega)
      · rfl
  link k i b i' b' he he' := by
    rcases (hE k i b).mp he with he | ⟨rfl, rfl, -⟩
    · rcases (hE (k + 1) i' b').mp he' with he' | ⟨hk, -, rfl⟩
      · exact h.link k i b i' b' he he'
      · -- the entry before the new one was the newest
        obtain rfl : k = total := by omega
        rw [hnext]
        exact h.last i b he
    · rcases (hE _ i' b').mp he' with he' | ⟨hk, -, -⟩
      · exact absurd (h.stored _ i' b' he').2 (by omega)
      · exact absurd hk (by omega)
  oldest i b he := by
    rcases (hE _ i b).mp he with he | ⟨hk, -, rfl⟩
    · exact h.oldest i b he
    · -- the first entry of all
      rcases h.nonempty with ⟨-, -, hnewest⟩ | hlt
      · rw [hnext, hnewest]
      · exact absurd hk (by omega)
  last i b he := by
    rcases (hE _ i b).mp he with he | ⟨-, rfl, -⟩
    · exact absurd (h.stored _ i b he).2 (by omega)
    · rfl

/-- The oldest of several entries goes, and the next one becomes the oldest. -/
theorem pop (h : NumberedList next null removed total newest E) (hmore : removed + 1 < total)
    (clear : α → α) (hclear : ∀ b, next (clear b) = null)
    (hE : ∀ k i b, E' k i b ↔ k ≠ removed + 1 ∧
      ∃ b₀, E k i b₀ ∧ b = if k = removed + 2 then clear b₀ else b₀) :
    NumberedList next null (removed + 1) total newest E' where
  nonempty := .inr hmore
  stored k i b he := by
    obtain ⟨hne, b₀, he, -⟩ := (hE k i b).mp he
    have hk := h.stored k i b₀ he
    exact ⟨by omega, hk.2⟩
  present k hk hle := by
    obtain ⟨i, b₀, he⟩ := h.present k (by omega) hle
    exact ⟨i, _, (hE k i _).mpr ⟨by omega, b₀, he, rfl⟩⟩
  unique k i b i' b' he he' := by
    obtain ⟨-, b₀, he, -⟩ := (hE k i b).mp he
    obtain ⟨-, b₀', he', -⟩ := (hE k i' b').mp he'
    exact h.unique k i b₀ i' b₀' he he'
  link k i b i' b' he he' := by
    obtain ⟨hne, b₀, he, -⟩ := (hE k i b).mp he
    obtain ⟨-, b₀', he', hb'⟩ := (hE (k + 1) i' b').mp he'
    rw [if_neg (by omega)] at hb'
    rw [hb']
    exact h.link k i b₀ i' b₀' he he'
  oldest i b he := by
    obtain ⟨-, b₀, -, hb⟩ := (hE _ i b).mp he
    rw [hb, if_pos rfl]
    exact hclear b₀
  last i b he := by
    obtain ⟨-, b₀, he, -⟩ := (hE _ i b).mp he
    exact h.last i b₀ he

/-- There are no more entries than numbers. -/
theorem length_le (h : NumberedList next null removed total newest E) {l : List (ℕ × α)}
    (hl : l.Nodup) (number : α → ℕ) (hmem : ∀ e ∈ l, E (number e.2) e.1 e.2)
    (hkey : ∀ e ∈ l, ∀ f ∈ l, e.1 = f.1 → e = f) : l.length ≤ total - removed := by
  have hnodup : (l.map fun e => number e.2).Nodup := by
    refine hl.map_on fun e he f hf heq => hkey e he f hf ?_
    have hnumber := hmem f hf
    change E (number f.2) f.1 f.2 at hnumber
    rw [← heq] at hnumber
    exact h.unique _ _ _ _ _ (hmem e he) hnumber
  have hsubset : (l.map fun e => number e.2) ⊆ List.range' (removed + 1) (total - removed) := by
    intro k hk
    obtain ⟨e, he, rfl⟩ := List.mem_map.mp hk
    have hbounds := h.stored _ _ _ (hmem e he)
    exact List.mem_range'_1.mpr ⟨hbounds.1, by omega⟩
  have hlength := (hnodup.subperm hsubset).length_le
  rwa [List.length_map, List.length_range'] at hlength

end NumberedList
