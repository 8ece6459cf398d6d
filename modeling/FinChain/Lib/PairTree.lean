import Mathlib.Data.List.Basic
import Mathlib.Data.List.Flatten
import Mathlib.Logic.Function.Basic

/-!
# Folding a list in pairs

A list is folded by joining its elements in pairs, where an odd last element is promoted, until one is left.
`foldPairs` does this with any operation. With the operation that builds a binary tree it gives a tree whose
leaves are the list (`leaves_of_foldPairs`), and any other fold is the evaluation of that tree
(`foldPairs_map`).

When the operation is injective and none of its values is among the elements that are folded, a value can only come from one
tree (`eval_injective`), so it determines the list, with its length and order (`foldPairs_injective`). It is
not necessary that the length or the shape of the tree is part of the value.
-/

namespace PairTree

variable {α β : Type}

/-- One round: the elements are joined in pairs, and an odd last one stays. -/
def pairUp (op : α → α → α) : List α → List α
  | a :: b :: l => op a b :: pairUp op l
  | [a] => [a]
  | [] => []

@[simp] theorem length_pairUp (op : α → α → α) : ∀ l : List α, (pairUp op l).length = (l.length + 1) / 2
  | a :: b :: l => by
    simp only [pairUp, List.length_cons, length_pairUp op l]
    omega
  | [_] => by simp [pairUp]
  | [] => by simp [pairUp]

/-- Pairs that are complete do not depend on what follows them. -/
theorem pairUp_append (op : α → α → α) : ∀ {l : List α} (l' : List α), l.length % 2 = 0 →
    pairUp op (l ++ l') = pairUp op l ++ pairUp op l'
  | [], _, _ => rfl
  | [_], _, h => by simp at h
  | a :: b :: l, l', h => by
    have heven : l.length % 2 = 0 := by
      simp only [List.length_cons] at h
      omega
    show op a b :: pairUp op (l ++ l') = op a b :: (pairUp op l ++ pairUp op l')
    rw [pairUp_append op l' heven]

theorem pairUp_map {op : α → α → α} {op' : β → β → β} {f : α → β} (h : ∀ a b, f (op a b) = op' (f a) (f b)) :
    ∀ l : List α, pairUp op' (l.map f) = (pairUp op l).map f
  | [] => rfl
  | [_] => rfl
  | a :: b :: l => by
    show op' (f a) (f b) :: pairUp op' (l.map f) = f (op a b) :: (pairUp op l).map f
    rw [h, pairUp_map h l]

/-- Rounds until at most one element is left. -/
def foldPairs (op : α → α → α) : List α → Option α
  | [] => none
  | [a] => some a
  | a :: b :: l => foldPairs op (op a b :: pairUp op l)
termination_by l => l.length
decreasing_by
  simp only [List.length_cons, length_pairUp]
  omega

theorem foldPairs_nil (op : α → α → α) : foldPairs op [] = none := by
  rw [foldPairs]

theorem foldPairs_singleton (op : α → α → α) (a : α) : foldPairs op [a] = some a := by
  rw [foldPairs]

theorem foldPairs_pairUp (op : α → α → α) : ∀ l : List α, foldPairs op (pairUp op l) = foldPairs op l
  | [] => rfl
  | [_] => rfl
  | a :: b :: l => by
    rw [foldPairs.eq_3]
    rfl

theorem rounds_induction (op : α → α → α) {motive : List α → Prop} (nil : motive []) (singleton : ∀ a, motive [a])
    (round : ∀ l, 1 < l.length → motive (pairUp op l) → motive l) (l : List α) : motive l := by
  induction hn : l.length using Nat.strongRecOn generalizing l with
  | _ n ih =>
    match l, hn with
    | [], _ => exact nil
    | [a], _ => exact singleton a
    | a :: b :: l, hn =>
      refine round (a :: b :: l) (by simp) (ih _ ?_ _ rfl)
      rw [length_pairUp, ← hn]
      simp only [List.length_cons]
      omega

theorem foldPairs_isSome (op : α → α → α) (l : List α) : (foldPairs op l).isSome ↔ l ≠ [] := by
  induction l using rounds_induction op with
  | nil => simp [foldPairs_nil]
  | singleton a => simp [foldPairs_singleton]
  | round l hlong ih =>
    have hne : l ≠ [] := List.ne_nil_of_length_pos (by omega)
    have hne' : pairUp op l ≠ [] := List.ne_nil_of_length_pos (by rw [length_pairUp]; omega)
    rw [← foldPairs_pairUp, ih]
    exact iff_of_true hne' hne

/-- A function that goes through the operation goes through the fold. -/
theorem foldPairs_map {op : α → α → α} {op' : β → β → β} {f : α → β}
    (h : ∀ a b, f (op a b) = op' (f a) (f b)) (l : List α) :
    foldPairs op' (l.map f) = (foldPairs op l).map f := by
  induction l using rounds_induction op with
  | nil => rw [List.map_nil, foldPairs_nil, foldPairs_nil, Option.map_none]
  | singleton a => rw [List.map_singleton, foldPairs_singleton, foldPairs_singleton, Option.map_some]
  | round l _ ih => rw [← foldPairs_pairUp op', pairUp_map h, ih, foldPairs_pairUp]

/-! ### Trees -/

/-- A binary tree with its values at the leaves. -/
inductive Tree (α : Type)
  | leaf (a : α)
  | node (left right : Tree α)

namespace Tree

def leaves : Tree α → List α
  | .leaf a => [a]
  | .node left right => left.leaves ++ right.leaves

/-- The value of a tree, where `op` joins the values of two subtrees. -/
def eval (op : α → α → α) : Tree α → α
  | .leaf a => a
  | .node left right => op (left.eval op) (right.eval op)

/-- **Only one tree has a value**, if the operation is injective and its values are not at the leaves. -/
theorem eval_injective {op : α → α → α} (hop : Function.Injective2 op) {P : α → Prop}
    (hleaf : ∀ a b, ¬ P (op a b)) : ∀ {t t' : Tree α}, (∀ a ∈ t.leaves, P a) → (∀ a ∈ t'.leaves, P a) →
      t.eval op = t'.eval op → t = t'
  | .leaf a, .leaf b, _, _, h => congrArg Tree.leaf h
  | .leaf a, .node left right, ht, _, h => by
    have ha : P a := ht a (by simp [leaves])
    rw [show a = op (left.eval op) (right.eval op) from h] at ha
    exact absurd ha (hleaf _ _)
  | .node left right, .leaf a, _, ht, h => by
    have ha : P a := ht a (by simp [leaves])
    rw [← show op (left.eval op) (right.eval op) = a from h] at ha
    exact absurd ha (hleaf _ _)
  | .node left right, .node left' right', ht, ht', h => by
    obtain ⟨hl, hr⟩ := hop h
    have hleft : left = left' := eval_injective hop hleaf
      (fun a ha => ht a (List.mem_append_left _ ha)) (fun a ha => ht' a (List.mem_append_left _ ha)) hl
    have hright : right = right' := eval_injective hop hleaf
      (fun a ha => ht a (List.mem_append_right _ ha)) (fun a ha => ht' a (List.mem_append_right _ ha)) hr
    rw [hleft, hright]

theorem leaves_pairUp : ∀ l : List (Tree α), (pairUp Tree.node l).flatMap leaves = l.flatMap leaves
  | [] => rfl
  | [_] => rfl
  | a :: b :: l => by
    show (a.leaves ++ b.leaves) ++ (pairUp Tree.node l).flatMap leaves = a.leaves ++ (b.leaves ++ l.flatMap leaves)
    rw [leaves_pairUp l, List.append_assoc]

/-- The tree of a list has the list at its leaves. -/
theorem leaves_of_foldPairs (l : List (Tree α)) {t : Tree α} (h : foldPairs Tree.node l = some t) :
    t.leaves = l.flatMap leaves := by
  induction l using rounds_induction Tree.node with
  | nil =>
    rw [foldPairs_nil] at h
    exact absurd h (by simp)
  | singleton a =>
    rw [foldPairs_singleton, Option.some.injEq] at h
    simp [h]
  | round l _ ih =>
    rw [← foldPairs_pairUp] at h
    rw [ih h, leaves_pairUp]

end Tree

/-- A fold is the value of the tree of the list. -/
theorem foldPairs_eq_eval (op : α → α → α) (l : List α) :
    foldPairs op l = (foldPairs Tree.node (l.map Tree.leaf)).map (Tree.eval op) := by
  have heval : ∀ a b : Tree α, (Tree.node a b).eval op = op (a.eval op) (b.eval op) := fun _ _ => rfl
  rw [← foldPairs_map heval, List.map_map]
  congr 1
  exact (List.map_id l).symm

/-- **The fold determines the list.** -/
theorem foldPairs_injective {op : α → α → α} (hop : Function.Injective2 op) {P : α → Prop}
    (hleaf : ∀ a b, ¬ P (op a b)) {l l' : List α} (hl : ∀ a ∈ l, P a) (hl' : ∀ a ∈ l', P a) {x : α}
    (h : foldPairs op l = some x) (h' : foldPairs op l' = some x) : l = l' := by
  have hleaves : ∀ {l : List α} {t : Tree α}, foldPairs Tree.node (l.map Tree.leaf) = some t → t.leaves = l := by
    intro l t ht
    rw [Tree.leaves_of_foldPairs _ ht, List.flatMap_map]
    exact List.flatMap_singleton' l
  rw [foldPairs_eq_eval, Option.map_eq_some_iff] at h h'
  obtain ⟨t, ht, hx⟩ := h
  obtain ⟨t', ht', hx'⟩ := h'
  have heq : t = t' := Tree.eval_injective hop hleaf
    (by rwa [hleaves ht]) (by rwa [hleaves ht']) (hx.trans hx'.symm)
  rw [← hleaves ht, ← hleaves ht', heq]

end PairTree
