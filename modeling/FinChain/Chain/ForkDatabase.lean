import FinChain.Chain.Types

/-!
# The fork database

`fork_database`: the recent blocks of all branches, held in an index by id, and the head of the
longest branch. Items are shared objects. An item points to the item of its predecessor by a weak
pointer, which is set once, when the item is pushed, and which expires when nothing holds the
predecessor any more. The model gives every item a handle of its own and stores the target of the
pointer by value; `lock` finds the target only while some holder of a shared pointer is left: the
index, the head, or a local variable of the caller (`held`).

`num` and `id` of an item are set from its block by the constructor and never changed, so here
they are functions of the block. The flag `invalid` is never set in the source and left out, like
the index of unlinked blocks, into which nothing is ever inserted.
-/

namespace FinChain.Chain

variable {Op R : Type}

/-- `fork_item`. -/
inductive ForkItem (Op : Type)
  | unlinked (handle : ℕ) (data : SignedBlock Op)
  | linked (handle : ℕ) (data : SignedBlock Op) (prev : ForkItem Op)

namespace ForkItem

/-- The identity of the object. -/
def handle : ForkItem Op → ℕ
  | .unlinked h _ => h
  | .linked h _ _ => h

def data : ForkItem Op → SignedBlock Op
  | .unlinked _ b => b
  | .linked _ b _ => b

def num (i : ForkItem Op) : ℕ := i.data.blockNum

def id (P : Protocol Op R) (i : ForkItem Op) : BlockId := P.blockId i.data

end ForkItem

structure ForkDatabase (Op : Type) where
  maxSize : ℕ := 1024
  index : List (ForkItem Op) := []
  head : Option (ForkItem Op) := none
  /-- The items that local variables of the caller keep alive. -/
  held : List (ForkItem Op) := []
  nextHandle : ℕ := 0

namespace ForkDatabase

/-- Some shared pointer to the item is left. -/
def alive (f : ForkDatabase Op) (h : ℕ) : Bool :=
  (f.index ++ f.head.toList ++ f.held).any fun i => i.handle == h

/-- `prev.lock()`. -/
def lock (f : ForkDatabase Op) : ForkItem Op → Option (ForkItem Op)
  | .unlinked _ _ => none
  | .linked _ _ p => if f.alive p.handle then some p else none

/-- The item an id has in the index. -/
def find (P : Protocol Op R) (f : ForkDatabase Op) (id : BlockId) : Option (ForkItem Op) :=
  f.index.find? fun i => i.id P = id

/-- `_index.insert`, which does nothing when the id is taken. -/
def insert (P : Protocol Op R) (f : ForkDatabase Op) (item : ForkItem Op) : ForkDatabase Op :=
  match f.find P (item.id P) with
  | some _ => f
  | none => { f with index := item :: f.index }

/-- The item made for a block: `_push_block` up to `item->prev = *itr`. -/
def link (P : Protocol Op R) (f : ForkDatabase Op) (b : SignedBlock Op) :
    Except ChainError (ForkItem Op) :=
  match f.head with
  | none => .ok (.unlinked f.nextHandle b)
  | some head =>
    -- the source subtracts in 64 bits and takes the maximum with zero
    if head.num - f.maxSize < b.blockNum then
      if b.previous = .zero then .ok (.unlinked f.nextHandle b)
      else match f.find P b.previous with
        | none => .error .unlinkable
        | some p => .ok (.linked f.nextHandle b p)
    else .error .tooOld

/-- `_push_block` from `_index.insert` on: a higher block becomes the head, and the blocks below
the window of the new head are dropped. -/
def add (P : Protocol Op R) (f : ForkDatabase Op) (item : ForkItem Op) : ForkDatabase Op :=
  let f := { f.insert P item with nextHandle := f.nextHandle + 1 }
  match f.head with
  | none => { f with head := some item }
  | some head =>
    if head.num < item.num then
      { f with
        head := some item
        index := f.index.filter fun i => item.num - f.maxSize ≤ i.num }
    else f

/-- `push_block`. The result is the head afterwards. -/
def pushBlock (P : Protocol Op R) (f : ForkDatabase Op) (b : SignedBlock Op) :
    Except ChainError (ForkDatabase Op) := do
  let item ← f.link P b
  .ok (f.add P item)

/-- `pop_block`. -/
def popBlock (f : ForkDatabase Op) : Except ChainError (ForkDatabase Op) :=
  match f.head.bind f.lock with
  | none => .error .noForkItem
  | some prev => .ok { f with head := some prev }

/-- `remove`. -/
def remove (P : Protocol Op R) (f : ForkDatabase Op) (id : BlockId) : ForkDatabase Op :=
  { f with index := f.index.filter fun i => i.id P ≠ id }

/-- `set_max_size`. -/
def setMaxSize (f : ForkDatabase Op) (n : ℕ) : ForkDatabase Op :=
  match f.head with
  | none => { f with maxSize := n }
  | some head =>
    { f with maxSize := n, index := f.index.filter fun i => head.num - n ≤ i.num }

/-- `fetch_block`. -/
def fetchBlock (P : Protocol Op R) (f : ForkDatabase Op) (id : BlockId) :
    Option (SignedBlock Op) :=
  (f.find P id).map ForkItem.data

/-- The loops `while( branch->num > num )` of `fetch_branch_from`: the items above the number,
newest first, and the item the walk stops at. -/
def walkDown (f : ForkDatabase Op) (num : ℕ) :
    ForkItem Op → Except ChainError (List (ForkItem Op) × ForkItem Op)
  | i@(.unlinked _ b) => if num < b.blockNum then .error .assertion else .ok ([], i)
  | i@(.linked _ b p) =>
    if num < b.blockNum then
      if f.alive p.handle then do
        let (l, last) ← f.walkDown num p
        .ok (i :: l, last)
      else .error .assertion
    else .ok ([], i)

/-- The loop that walks both branches down until their blocks have the same predecessor. -/
def walkBoth (f : ForkDatabase Op) :
    ForkItem Op → ForkItem Op → Except ChainError (List (ForkItem Op) × List (ForkItem Op))
  | i@(.unlinked _ b), j => if b.previous = j.data.previous then .ok ([i], [j]) else .error .assertion
  | i@(.linked _ b p), j =>
    if b.previous = j.data.previous then .ok ([i], [j])
    else if f.alive p.handle then
      match f.lock j with
      | none => .error .assertion
      | some q => do
        let (l, l') ← f.walkBoth p q
        .ok (i :: l, j :: l')
    else .error .assertion

/-- `fetch_branch_from`: the branches of two blocks, newest item first, down to their first blocks
after the common predecessor. -/
def fetchBranchFrom (P : Protocol Op R) (f : ForkDatabase Op) (first second : BlockId) :
    Except ChainError (List (ForkItem Op) × List (ForkItem Op)) :=
  match f.find P first, f.find P second with
  | some i, some j => do
    let (l, i) ← f.walkDown j.num i
    let (l', j) ← f.walkDown i.num j
    let (m, m') ← f.walkBoth i j
    .ok (l ++ m, l' ++ m')
  | _, _ => .error .assertion

end ForkDatabase

end FinChain.Chain
