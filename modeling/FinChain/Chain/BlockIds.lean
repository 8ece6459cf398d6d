import FinChain.Chain.ForkHead
import FinChain.Chain.UndoLayers
import Mathlib.Algebra.Ring.Int.Defs

/-!
# Block ids by number

What the rest of the node asks `database` about its blocks: the id of the block with a given number,
the number of the last block that can not be undone any more, and the ids of a fork down to the
chain. The first comes from the block database, the second from the undo database, the third from
the fork database, and nothing in the code keeps the three in step but the order in which
`push_block` writes to them.

`NodeRun` lets the database run: blocks are pushed when no session is open, and between blocks
sessions are opened, worked in, merged and undone, as pending transactions do it. Two invariants hold
along such a run. `Tracked` says that the objects and every copy in the undo database have the head
block they had when the copy was made: the current one for the copies of open sessions, and one block
further back for each copy of a committed one. `Recorded` says that the block database has the ids of
the chain, and no entries above it.

The second is lost when a block of the new branch fails in a fork switch, since the recovery stores
the old branch under the id of the pushed block. So the pushes of a `NodeRun` either do not switch
forks or return.
-/

namespace FinChain.Chain

open Exec

variable {Op R : Type} {P : Protocol Op R} {g : Objects R}

/-- Arithmetic on `uint32_t`. -/
def u32 (n : ℤ) : ℕ := (n % 2 ^ 32).toNat

theorem u32_of_lt {n : ℤ} {k : ℕ} (h : n = k) (hk : k < 2 ^ 32) : u32 n = k := by
  unfold u32
  omega

/-- `fetch_block_id`. -/
def BlockDatabase.fetchBlockId (d : BlockDatabase Op) (blockNum : ℕ) : Except ChainError BlockId :=
  if d.size ≤ blockNum then .error .keyNotFound
  else if (d.entries blockNum).blockId = .zero then .error .assertion
  else .ok (d.entries blockNum).blockId

namespace Database

/-- `get_block_id_for_num`. -/
def getBlockIdForNum (s : Database Op R) (blockNum : ℕ) : Except ChainError BlockId :=
  s.blockDb.fetchBlockId blockNum

/-- `last_non_undoable_block_num`. The stack of the undo database holds one state for each copy. -/
def lastNonUndoableBlockNum (s : Database Op R) : ℕ :=
  u32 (s.objects.headBlockNumber - s.undo.saved.length)

/-- `get_block_ids_on_fork`: the blocks of a fork, newest first, and their common ancestor with the
chain. -/
def getBlockIdsOnFork (P : Protocol Op R) (s : Database Op R) (headOfFork : BlockId) :
    Except ChainError (List BlockId) := do
  let (first, second) ← s.forkDb.fetchBranchFrom P s.objects.headBlockId headOfFork
  return second.map (ForkItem.id P) ++ [forkPoint first]

/-! ### Heads -/

/-- The blocks of a chain build on each other. -/
def ChainLinked (P : Protocol Op R) : List (SignedBlock Op × Objects R) → Prop
  | [] => True
  | (b, _) :: c => b.previous = headId P c ∧ ChainLinked P c

theorem ChainLinked.num_headId : ∀ {c : List (SignedBlock Op × Objects R)}, ChainLinked P c →
    (headId P c).num = c.length
  | [], _ => rfl
  | (b, _) :: c, h => by
    change b.previous.num + 1 = c.length + 1
    rw [h.1, h.2.num_headId]

theorem ChainLinked.drop {c : List (SignedBlock Op × Objects R)} (h : ChainLinked P c) :
    ∀ n, ChainLinked P (c.drop n) := by
  intro n
  induction n generalizing c with
  | zero => exact h
  | succ n ih =>
    cases c with
    | nil => exact h
    | cons e c => exact ih h.2

/-- A path in the fork database that starts at the head of the chain runs along the chain. -/
theorem ChainLinked.headId_of_path (hid : HashesPrevious P) {c : List (SignedBlock Op × Objects R)}
    (h : ChainLinked P c) {l : List (ForkItem Op)} {last : BlockId}
    (hpath : Path P (headId P c) l last) : headId P (c.drop l.length) = last := by
  induction l generalizing c with
  | nil => exact hpath
  | cons i l ih =>
    cases c with
    | nil => exact absurd hpath.1 (P.blockId_ne_zero _)
    | cons e c =>
      have hprev : i.data.previous = headId P c := (hid i.data e.1 hpath.1).trans h.1
      have hrest := hpath.2
      rw [hprev] at hrest
      exact ih h.2 hrest

/-- The objects have the newest block of the chain as head. -/
structure HeadAt (P : Protocol Op R) (c : List (SignedBlock Op × Objects R)) (o : Objects R) : Prop
    where
  headBlockNumber : o.headBlockNumber = c.length
  headBlockId : o.headBlockId = headId P c

theorem HeadAt.sameHead {c : List (SignedBlock Op × Objects R)} {o o' : Objects R} (h : HeadAt P c o)
    (hsame : Node.SameHead o o') : HeadAt P c o' :=
  ⟨hsame.headBlockNumber.trans h.headBlockNumber, hsame.headBlockId.trans h.headBlockId⟩

/-- The copies of committed sessions, each one block further back. -/
def KeptAt (P : Protocol Op R) : List (SignedBlock Op × Objects R) → List (Objects R) → Prop
  | _, [] => True
  | [], _ :: _ => False
  | _ :: c, o :: kept => HeadAt P c o ∧ KeptAt P c kept

theorem KeptAt.nil : ∀ c : List (SignedBlock Op × Objects R), KeptAt P c []
  | [] => trivial
  | _ :: _ => trivial

theorem KeptAt.take : ∀ {c : List (SignedBlock Op × Objects R)} {kept : List (Objects R)} (n : ℕ),
    KeptAt P c kept → KeptAt P c (kept.take n)
  | c, _, 0, _ => KeptAt.nil c
  | c, [], _ + 1, _ => KeptAt.nil c
  | [], _ :: _, _ + 1, h => h
  | _ :: _, _ :: _, n + 1, h => ⟨h.1, h.2.take n⟩

/-- The copies in the undo database: those of open sessions have the head of the chain, and below
them are those of committed sessions. When copies of open sessions were dropped, all those below
them were dropped too. -/
structure Copies (P : Protocol Op R) (s : Database Op R) (inner kept : List (Objects R)) : Prop where
  saved : s.undo.saved = inner ++ kept
  le_active : inner.length ≤ s.undo.active
  dropped : inner.length < s.undo.active → kept = []
  inner : ∀ o ∈ inner, HeadAt P s.chain o
  kept : KeptAt P s.chain kept

/-- The chain is linked, and all objects there are have the head they should. -/
structure Tracked (P : Protocol Op R) (s : Database Op R) : Prop where
  linked : ChainLinked P s.chain
  head : HeadAt P s.chain s.objects
  copies : ∃ inner kept, Copies P s inner kept

theorem Tracked.genesis (hg : Genesis g) : Tracked P (genesis g : Database Op R) where
  linked := trivial
  head := ⟨hg.headBlockNumber, hg.headBlockId⟩
  copies := ⟨[], [], rfl, Nat.zero_le _, fun _ => rfl, fun _ h => absurd h List.not_mem_nil, trivial⟩

section Sessions

variable {s : Database Op R}

/-- Without open sessions there are only the copies of committed ones. -/
theorem Tracked.keptAt (h : Tracked P s) (hidle : s.undo.active = 0) :
    KeptAt P s.chain s.undo.saved := by
  obtain ⟨inner, kept, hc⟩ := h.copies
  have hnil : inner = [] := List.length_eq_zero_iff.mp (by have := hc.le_active; omega)
  rw [hc.saved, hnil]
  exact hc.kept

/-- Only the objects and the undo database have changed, and no session is open. -/
theorem Tracked.of_idle (hlinked : ChainLinked P s.chain) (hhead : HeadAt P s.chain s.objects)
    (hidle : s.undo.active = 0) (hkept : KeptAt P s.chain s.undo.saved) : Tracked P s where
  linked := hlinked
  head := hhead
  copies := ⟨[], s.undo.saved, rfl, Nat.zero_le _, fun h => absurd h (Nat.not_lt.mpr (Nat.le_of_eq hidle)),
    fun _ h => absurd h List.not_mem_nil, hkept⟩

/-- The newest copy is that of the innermost open session. -/
theorem Copies.exists_cons {inner kept : List (Objects R)} (h : Copies P s inner kept)
    (hactive : s.undo.active ≠ 0) {o : Objects R} {saved : List (Objects R)}
    (hsaved : s.undo.saved = o :: saved) :
    ∃ rest, inner = o :: rest ∧ saved = rest ++ kept := by
  have hparts := h.saved
  rw [hsaved] at hparts
  cases inner with
  | nil =>
    have hnil : kept = [] := h.dropped (Nat.pos_of_ne_zero hactive)
    rw [hnil] at hparts
    cases hparts
  | cons i rest =>
    obtain ⟨rfl, rfl⟩ := List.cons.inj hparts
    exact ⟨rest, rfl, rfl⟩

theorem Tracked.start (h : Tracked P s) : Tracked P { s with undo := s.undo.start } := by
  obtain ⟨inner, kept, hc⟩ := h.copies
  refine ⟨h.linked, h.head, s.objects :: inner.take s.undo.maxSize,
    kept.take (s.undo.maxSize - inner.length), ?_, ?_, ?_, ?_, hc.kept.take _⟩
  · change s.objects :: s.undo.saved.take s.undo.maxSize = _
    rw [hc.saved, List.take_append, List.cons_append]
  · have hle := hc.le_active
    change (inner.take s.undo.maxSize).length + 1 ≤ s.undo.active + 1
    rw [List.length_take]
    omega
  · intro hlt
    change (inner.take s.undo.maxSize).length + 1 < s.undo.active + 1 at hlt
    rw [List.length_take] at hlt
    by_cases hfit : inner.length ≤ s.undo.maxSize
    · rw [hc.dropped (by omega), List.take_nil]
    · rw [Nat.sub_eq_zero_of_le (by omega), List.take_zero]
  · intro o ho
    rcases List.mem_cons.mp ho with rfl | ho
    · exact h.head
    · exact hc.inner o (List.mem_of_mem_take ho)

theorem Tracked.change (h : Tracked P s) (hactive : s.undo.active ≠ 0) {o : Objects R}
    (hsame : Node.SameHead s.objects o) : Tracked P { s with undo := s.undo.change o } := by
  obtain ⟨inner, kept, hc⟩ := h.copies
  have hhead : HeadAt P s.chain (s.undo.change o).current := by
    rw [SnapshotStack.change_current]
    exact h.head.sameHead hsame
  refine ⟨h.linked, hhead, ?_⟩
  by_cases hsaved : s.undo.saved = []
  · have hparts := hc.saved
    rw [hsaved] at hparts
    obtain ⟨rfl, rfl⟩ := List.append_eq_nil_iff.mp hparts.symm
    refine ⟨[s.objects], [], ?_, ?_, fun _ => rfl, ?_, KeptAt.nil _⟩
    · change (s.undo.change o).saved = [s.undo.current]
      simp only [SnapshotStack.change, hsaved]
    · rw [SnapshotStack.change_active, List.length_singleton]
      exact Nat.pos_of_ne_zero hactive
    · intro o' ho'
      obtain rfl := List.mem_singleton.mp ho'
      exact h.head
  · refine ⟨inner, kept, ?_, ?_, ?_, hc.inner, hc.kept⟩
    · rw [SnapshotStack.change_saved_of_ne_nil hsaved, hc.saved]
    · rw [SnapshotStack.change_active]
      exact hc.le_active
    · rw [SnapshotStack.change_active]
      exact hc.dropped

/-- A session is closed: its copy is gone, and the objects are those of the copy or the current
ones. -/
theorem Tracked.closed (h : Tracked P s) {u : SnapshotStack (Objects R)} {o : Objects R}
    (hsaved : s.undo.saved = o :: u.saved) (hactive : s.undo.active = u.active + 1)
    (hcurrent : u.current = o ∨ u.current = s.objects) : Tracked P { s with undo := u } := by
  obtain ⟨inner, kept, hc⟩ := h.copies
  obtain ⟨rest, rfl, hrest⟩ := hc.exists_cons (by omega) hsaved
  have hle := hc.le_active
  rw [List.length_cons] at hle
  refine ⟨h.linked, ?_, rest, kept, hrest, ?_, ?_, ?_, hc.kept⟩
  · change HeadAt P s.chain u.current
    rcases hcurrent with hcurrent | hcurrent
    · rw [hcurrent]
      exact hc.inner o List.mem_cons_self
    · rw [hcurrent]
      exact h.head
  · change rest.length ≤ u.active
    omega
  · intro hlt
    refine hc.dropped ?_
    change rest.length < u.active at hlt
    rw [List.length_cons]
    omega
  · exact fun o' ho' => hc.inner o' (List.mem_cons_of_mem _ ho')

theorem Tracked.undo (h : Tracked P s) {u : SnapshotStack (Objects R)} (hu : s.undo.undo = some u) :
    Tracked P { s with undo := u } := by
  unfold SnapshotStack.undo at hu
  split at hu
  · cases hu
  · next o saved hsaved =>
    split at hu
    · cases hu
    · next hactive =>
      obtain rfl := Option.some.inj hu
      refine h.closed hsaved ?_ (.inl rfl)
      change s.undo.active = s.undo.active - 1 + 1
      omega

theorem Tracked.merge (h : Tracked P s) {u : SnapshotStack (Objects R)}
    (hu : s.undo.merge = some u) : Tracked P { s with undo := u } := by
  have hstep : s.undo.step .merge = some u := hu
  obtain ⟨⟨o, hsaved⟩, hactive, -⟩ := SnapshotStack.closing_saved rfl hstep
  refine h.closed hsaved hactive (.inr ?_)
  change s.undo.merge = some u at hu
  unfold SnapshotStack.merge at hu
  split at hu
  · cases hu
  · split at hu
    · obtain rfl := Option.some.inj hu
      rfl
    · cases hu
  · split at hu
    · cases hu
    · obtain rfl := Option.some.inj hu
      rfl

end Sessions

/-! ### Blocks -/

/-- Between calls of `push_block`: no session is open. -/
def Settled (P : Protocol Op R) (s : Database Op R) : Prop :=
  Tracked P s ∧ s.undo.active = 0

section Blocks

variable {s s' : Database Op R}

theorem Settled.extended {id : BlockId} {b : SignedBlock Op} (h : Settled P s)
    (he : Extended P id b s s') : Settled P s' := by
  have hb := he.yields.blockApplied
  have hprev : b.previous = headId P s.chain := hb.previous.symm.trans h.1.head.headBlockId
  have hactive : s'.undo.active = 0 := he.active.trans h.2
  refine ⟨.of_idle ?_ ?_ hactive ?_, hactive⟩
  · rw [he.chain]
    exact ⟨hprev, h.1.linked⟩
  · rw [he.chain]
    refine ⟨?_, hb.headBlockId⟩
    rw [hb.headBlockNumber, SignedBlock.blockNum, hprev, h.1.linked.num_headId]
    rfl
  · rw [he.chain, he.saved]
    exact ⟨h.1.head, (h.1.keptAt h.2).take _⟩

theorem Settled.unwound (h : Settled P s) (hu : Unwound s s') : Settled P s' := by
  have hactive : s'.undo.active = 0 := hu.active.trans h.2
  refine ⟨.of_idle ?_ ?_ hactive ?_, hactive⟩
  · rw [hu.chain]
    exact h.1.linked
  · rw [hu.chain, hu.objects]
    exact h.1.head
  · rw [hu.chain, hu.saved]
    exact (h.1.keptAt h.2).take _

theorem Settled.popped (h : Settled P s) (hp : Popped P s s') : Settled P s' := by
  have hkept := h.1.keptAt h.2
  rw [hp.saved] at hkept
  have hlinked := h.1.linked
  refine ⟨?_, hp.active.2⟩
  cases hchain : s.chain with
  | nil =>
    rw [hchain] at hkept
    exact hkept.elim
  | cons e c =>
    rw [hchain] at hkept hlinked
    have htail : s'.chain = c := by rw [hp.chain, hchain, List.tail_cons]
    refine .of_idle ?_ ?_ hp.active.2 ?_ <;> rw [htail]
    · exact hlinked.2
    · exact hkept.1
    · exact hkept.2

theorem Settled.notPopped (h : Settled P s) (hn : NotPopped s s') : Settled P s' := by
  have hactive : s'.undo.active = 0 := by
    rw [hn.undo]
    exact h.2
  refine ⟨.of_idle ?_ ?_ hactive ?_, hactive⟩
  · rw [hn.chain]
    exact h.1.linked
  · rw [hn.chain, objects, hn.undo]
    exact h.1.head
  · rw [hn.chain, hn.undo]
    exact h.1.keptAt h.2

theorem Settled.withForkDb (h : Settled P s) (f : ForkDatabase Op) :
    Settled P { s with forkDb := f } :=
  ⟨⟨h.1.linked, h.1.head, h.1.copies.imp fun _ ⟨kept, hc⟩ => ⟨kept, hc.1, hc.2, hc.3, hc.4, hc.5⟩⟩, h.2⟩

/-- **Pushing a block** settles again, whether it returns or throws. -/
theorem Settled.pushBlock (b : SignedBlock Op) (h : Settled P s) :
    Settled P (final (pushBlock P b) s) := by
  have hF : Frame fun s s' : Database Op R => Settled P s → Settled P s' :=
    ⟨fun _ h => h, fun h₁ h₂ h => h₂ (h₁ h)⟩
  have hpop : Keeps (fun s s' => Settled P s → Settled P s') (popBlock P : DatabaseM Op R Unit) := by
    intro s h
    unfold final
    split
    · next hok => exact h.popped (popBlock_ok hok)
    · next herr => exact h.notPopped (popBlock_error herr)
  have happly : ∀ id b, Keeps (fun s s' => Settled P s → Settled P s')
      (applyInSession P id b : DatabaseM Op R Unit) := by
    intro id b s h
    unfold final
    split
    · next hok => exact h.extended (applyInSession_ok hok)
    · next herr => exact h.unwound (applyInSession_error herr)
  exact keeps_pushBlock hF (fun _ f h => h.withForkDb f) happly
    (fun _ _ => keeps_popBlocksTo hF hpop _) h

end Blocks

/-! ### The block database -/

/-- The block database has the id of each block of the chain under its number, with a block. -/
def IdsStored (P : Protocol Op R) (d : BlockDatabase Op) :
    List (SignedBlock Op × Objects R) → Prop
  | [] => True
  | (b, _) :: c => (c.length + 1 < d.size ∧ (d.entries (c.length + 1)).blockId = P.blockId b ∧
      (d.entries (c.length + 1)).block.isSome) ∧ IdsStored P d c

/-- It has the ids of the chain, and no numbers above those of the chain and a limit. -/
structure RecordedTo (P : Protocol Op R) (limit : ℕ) (s : Database Op R) : Prop where
  ids : IdsStored P s.blockDb s.chain
  zero : (s.blockDb.entries 0).blockId = .zero
  size : s.blockDb.size ≤ max limit s.chain.length + 1

/-- It has the ids of the chain and no others. -/
def Recorded (P : Protocol Op R) (s : Database Op R) : Prop := RecordedTo P 0 s

theorem IdsStored.mono {d d' : BlockDatabase Op} {c : List (SignedBlock Op × Objects R)}
    (h : IdsStored P d c) (hsize : d.size ≤ d'.size)
    (hentries : ∀ n, n ≤ c.length → n < d.size → d'.entries n = d.entries n) :
    IdsStored P d' c := by
  induction c with
  | nil => trivial
  | cons e c ih =>
    obtain ⟨⟨hlt, hstored⟩, hrest⟩ := h
    refine ⟨⟨Nat.lt_of_lt_of_le hlt hsize, ?_⟩, ih hrest fun n hn hd => ?_⟩
    · have hentry : d'.entries (c.length + 1) = d.entries (c.length + 1) :=
        hentries _ (Nat.le_refl _) hlt
      rwa [hentry]
    · exact hentries n (Nat.le_succ_of_le hn) hd

/-- The id of a block of the chain is found under its number. -/
theorem IdsStored.fetchBlockId {d : BlockDatabase Op} :
    ∀ {c : List (SignedBlock Op × Objects R)}, IdsStored P d c → ∀ n, 0 < n → n ≤ c.length →
      d.fetchBlockId n = .ok (headId P (c.drop (c.length - n)))
  | [], _, n, hpos, hle => absurd hpos (Nat.not_lt.mpr hle)
  | (b, o) :: c, h, n, hpos, hle => by
    rw [List.length_cons] at hle ⊢
    by_cases htop : n = c.length + 1
    · rw [htop, Nat.sub_self, List.drop_zero]
      have hne : ¬ (d.entries (c.length + 1)).blockId = .zero := by
        rw [h.1.2.1]
        exact P.blockId_ne_zero b
      unfold BlockDatabase.fetchBlockId
      rw [if_neg (Nat.not_le.mpr h.1.1), if_neg hne, h.1.2.1]
      rfl
    · have hdrop : c.length + 1 - n = (c.length - n) + 1 := by omega
      rw [hdrop, List.drop_succ_cons]
      exact h.2.fetchBlockId n hpos (by omega)

section Recorded

variable {s s' : Database Op R} {limit : ℕ}

/-- Only the entry with the number of the id can change, and it keeps its id. -/
theorem remove_eq_ok {d d' : BlockDatabase Op} {id : BlockId} (h : d.remove id = .ok d') :
    d'.size = d.size ∧ (∀ n, (d'.entries n).blockId = (d.entries n).blockId) ∧
      ∀ n, n ≠ id.num → d'.entries n = d.entries n := by
  obtain ⟨hsize, hentries⟩ := BlockDatabase.remove_ok h
  refine ⟨hsize, fun n => (hentries n).1, fun n hn => ?_⟩
  obtain ⟨hid, hblock⟩ := hentries n
  rw [if_neg fun hand => hn hand.1] at hblock
  exact congrArg₂ IndexEntry.mk hid hblock

/-- A block that is applied is recorded under its own id. -/
theorem RecordedTo.extended {b : SignedBlock Op} (h : RecordedTo P limit s) (hs : Settled P s)
    (he : Extended P (P.blockId b) b s s') : RecordedTo P limit s' := by
  have hprev : b.previous = headId P s.chain :=
    he.yields.blockApplied.previous.symm.trans hs.1.head.headBlockId
  have hnum : (P.blockId b).num = s.chain.length + 1 := by
    rw [P.blockId_num, SignedBlock.blockNum, hprev, hs.1.linked.num_headId]
  have hstore : s.blockDb.store P (P.blockId b) b =
      { size := max s.blockDb.size (s.chain.length + 2)
        entries := fun n =>
          if n = s.chain.length + 1 then { blockId := P.blockId b, block := some b }
          else if n < s.blockDb.size then s.blockDb.entries n
          else {} } := by
    unfold BlockDatabase.store
    rw [if_neg (P.blockId_ne_zero b)]
    simp only [hnum]
  have hsize := h.size
  constructor
  · rw [he.blockDb, he.chain, hstore]
    refine ⟨⟨?_, ?_, ?_⟩, h.ids.mono (le_max_left _ _) fun n hn hlt => ?_⟩
    · change s.chain.length + 1 < max s.blockDb.size (s.chain.length + 2)
      omega
    · exact congrArg IndexEntry.blockId (if_pos rfl)
    · exact congrArg (fun entry : IndexEntry Op => entry.block.isSome) (if_pos rfl)
    · have hne : n ≠ s.chain.length + 1 := by omega
      simp only [if_neg hne, if_pos hlt]
  · rw [he.blockDb, hstore]
    have hne : 0 ≠ s.chain.length + 1 := by omega
    simp only [if_neg hne]
    by_cases hlt : 0 < s.blockDb.size
    · rw [if_pos hlt]
      exact h.zero
    · rw [if_neg hlt]
  · rw [he.blockDb, he.chain, hstore, List.length_cons]
    change max s.blockDb.size (s.chain.length + 2) ≤ max limit (s.chain.length + 1) + 1
    omega

theorem RecordedTo.popped (h : RecordedTo P limit s) (hs : Tracked P s)
    (hlimit : s.chain.length ≤ limit) (hp : Popped P s s') :
    RecordedTo P limit s' ∧ s'.chain.length ≤ limit := by
  obtain ⟨hsize, hids, hentries⟩ := remove_eq_ok hp.blockDb
  have hbound := h.size
  have hlen : s'.chain.length ≤ s.chain.length := by
    rw [hp.chain, List.length_tail]
    exact Nat.sub_le _ _
  refine ⟨⟨?_, (hids 0).trans h.zero, by omega⟩, hlen.trans hlimit⟩
  have hall := h.ids
  have hhead : s.objects.headBlockId.num = s.chain.length := by
    rw [hs.head.headBlockId, hs.linked.num_headId]
  rw [hp.chain]
  cases hchain : s.chain with
  | nil => trivial
  | cons e c =>
    rw [hchain] at hall hhead
    -- the entry that loses its block is that of the head
    refine hall.2.mono (Nat.le_of_eq hsize.symm) fun n hn _ => hentries n ?_
    rw [hhead, List.length_cons]
    omega

/-- What popping a block keeps is kept by popping blocks down to one, if that returns. -/
theorem keepsOk_popBlocksTo {F : Database Op R → Database Op R → Prop} (hF : Frame F)
    (hpop : KeepsOk F (popBlock P : DatabaseM Op R Unit)) (id : BlockId) :
    KeepsOk F (popBlocksTo P id : DatabaseM Op R Unit) := by
  have hloop : ∀ n, KeepsOk F (popUntil P id n : DatabaseM Op R Unit) := by
    intro n
    induction n with
    | zero => exact hF.keepsOk_get_bind fun s => hF.keepsOk_assert _ _
    | succ n ih =>
      refine hF.keepsOk_get_bind fun s => ?_
      exact keepsOk_ite (hF.keepsOk_pure _) (hF.keepsOk_bind hpop fun _ => ih)
  exact hF.keepsOk_get_bind fun s => hloop _

/-- What applying a block under its own id keeps is kept by pushing a branch, if that returns: then
no block has failed, and the recovery was not needed. -/
theorem keepsOk_pushBranch {F : Database Op R → Database Op R → Prop} (hF : Frame F)
    (happly : ∀ b, KeepsOk F (applyInSession P (P.blockId b) b : DatabaseM Op R Unit))
    {newBlock : SignedBlock Op} {pt : BlockId} {old : List (ForkItem Op)} :
    ∀ l, KeepsOk F (pushBranch P newBlock pt old l : DatabaseM Op R Unit)
  | [] => hF.keepsOk_pure ()
  | i :: l => by
    refine hF.keepsOk_bind ?_ fun _ => keepsOk_pushBranch hF happly l
    intro s u s' h
    rcases tryCatch_eq_ok.mp h with hok | ⟨e, s₁, -, hrecover⟩
    · exact happly i.data s u s' hok
    · obtain ⟨_, _, -, h₁⟩ := bind_eq_ok.mp hrecover
      obtain ⟨_, _, -, h₂⟩ := bind_eq_ok.mp h₁
      obtain ⟨_, _, -, h₃⟩ := bind_eq_ok.mp h₂
      obtain ⟨_, _, -, h₄⟩ := bind_eq_ok.mp h₃
      cases h₄

/-- Pushing the block does not switch forks, or the switch succeeds. -/
def SwitchSucceeds (P : Protocol Op R) (b : SignedBlock Op) (s : Database Op R) : Prop :=
  switchBranches P s b = none ∨ ∃ r s', pushBlock P b s = .ok r s'

/-- After a fork switch the chain is longer than before. -/
theorem length_of_switchFork {newBlock : SignedBlock Op} {newHead : ForkItem Op}
    {newBranch oldBranch : List (ForkItem Op)} {u : Unit} (hs' : Tracked P s')
    (hne : newBranch ≠ []) {last : BlockId} (hpath : Path P (newHead.id P) newBranch last)
    (h : pushBranch P newBlock (forkPoint oldBranch) oldBranch newBranch.reverse s = .ok u s') :
    s'.chain.length = newHead.num := by
  cases hb : newBranch with
  | nil => exact absurd hb hne
  | cons i l =>
    rw [hb] at hpath h
    have hhead := (pushBranch_ok h).2 i (by simp)
    rw [hs'.head.headBlockId, hpath.1] at hhead
    have hnum := congrArg BlockId.num hhead
    rwa [hs'.linked.num_headId] at hnum

/-- **Pushing a block** keeps the block database in step with the chain, unless a fork switch
fails. -/
theorem Recorded.pushBlock {b : SignedBlock Op} (h : Recorded P s) (hs : Settled P s)
    (hlinked : s.forkDb.Linked P) (hok : SwitchSucceeds P b s) :
    Recorded P (final (pushBlock P b) s) := by
  have hs' := hs.pushBlock b
  rcases pushBlock_cases P b s with ⟨e, -, hrun⟩ | ⟨f, newHead, hpush, hhead, hcases⟩
  · rwa [final_of_error hrun]
  have hf : Recorded P { s with forkDb := f } := ⟨h.ids, h.zero, h.size⟩
  have hfs : Settled P { s with forkDb := f } := hs.withForkDb f
  rcases hcases with ⟨-, hrun⟩ | ⟨-, -, hrun⟩ | ⟨hprev, hnum, hrun⟩
  · -- the block builds on the head
    rw [final, hrun]
    change Recorded P (final (extendChain P b >>= fun _ => pure false) _)
    rw [final_bind_pure, final, extendChain, tryCatch_apply]
    cases happly : applyInSession P (P.blockId b) b { s with forkDb := f } with
    | ok u s₁ => exact hf.extended hfs (applyInSession_ok happly)
    | error e s₁ =>
      have hu := applyInSession_error happly
      change Recorded P { s₁ with forkDb := s₁.forkDb.remove P (P.blockId b) }
      constructor
      · change IdsStored P s₁.blockDb s₁.chain
        rw [hu.blockDb, hu.chain]
        exact h.ids
      · change (s₁.blockDb.entries 0).blockId = .zero
        rw [hu.blockDb]
        exact h.zero
      · change s₁.blockDb.size ≤ max 0 s₁.chain.length + 1
        rw [hu.blockDb, hu.chain]
        exact h.size
  · rw [final_of_ok hrun]
    exact hf
  · -- the branches are switched, if they are found
    rcases switchFork_cases P b newHead { s with forkDb := f } with
      ⟨e, -, hswitch⟩ | ⟨newBranch, oldBranch, hfetch, hswitch⟩
    · rw [final, hrun]
      change Recorded P (final (switchFork P b newHead >>= fun _ => pure true) _)
      rw [final_bind_pure, final_of_error hswitch]
      exact hf
    have hbranches := switchBranches_eq hpush hhead hprev hnum hfetch
    rcases hok with hnone | ⟨r, s₂, hok⟩
    · rw [hbranches] at hnone
      cases hnone
    obtain ⟨hne, -, -, last, hpath, -⟩ :=
      ForkDatabase.fetchBranchFrom_path (hlinked.pushBlock hpush) hfetch
    have hfinal : final (Database.pushBlock P b) s = s₂ := final_of_ok hok
    rw [hfinal] at hs' ⊢
    rw [hrun] at hok
    obtain ⟨_, s₁, hrest, hpure⟩ := bind_eq_ok.mp hok
    cases hpure
    rw [hswitch] at hrest
    obtain ⟨_, s₃, hx, rfl⟩ := holding_ok hrest
    obtain ⟨_, s₄, hpop, hbranch⟩ := bind_eq_ok.mp hx
    -- the limit is the old length of the chain, which is the new one at the end
    have hF : Frame fun s₀ s₁ : Database Op R =>
        Settled P s₀ ∧ RecordedTo P s.chain.length s₀ ∧ s₀.chain.length ≤ s.chain.length →
        Settled P s₁ ∧ RecordedTo P s.chain.length s₁ ∧ s₁.chain.length ≤ s.chain.length :=
      ⟨fun _ h => h, fun h₁ h₂ h => h₂ (h₁ h)⟩
    have hpopped := keepsOk_popBlocksTo hF (fun s₀ u s₁ hpop hs₀ =>
      have hp := popBlock_ok hpop
      ⟨hs₀.1.popped hp, hs₀.2.1.popped hs₀.1.1 hs₀.2.2 hp⟩) (forkPoint oldBranch) _ _ _ hpop
      ⟨hfs.withForkDb _, ⟨h.ids, h.zero, by have := h.size; change s.blockDb.size ≤ _; omega⟩, Nat.le_refl _⟩
    have hF' : Frame fun s₀ s₁ : Database Op R =>
        Settled P s₀ ∧ RecordedTo P s.chain.length s₀ →
        Settled P s₁ ∧ RecordedTo P s.chain.length s₁ :=
      ⟨fun _ h => h, fun h₁ h₂ h => h₂ (h₁ h)⟩
    obtain ⟨hs₃, hr₃⟩ := keepsOk_pushBranch hF' (fun b s₀ u s₁ happly hs₀ =>
      have he := applyInSession_ok happly
      ⟨hs₀.1.extended he, hs₀.2.extended hs₀.1 he⟩) _ _ _ _ hbranch ⟨hpopped.1, hpopped.2.1⟩
    have hlength := length_of_switchFork hs₃.1 hne hpath hbranch
    refine ⟨hr₃.ids, hr₃.zero, ?_⟩
    have hsize := hr₃.size
    have hlt : s.chain.length < newHead.num := by
      rw [← hs.1.head.headBlockNumber]
      exact hnum
    change s₃.blockDb.size ≤ max 0 s₃.chain.length + 1
    omega

end Recorded

/-! ### Runs -/

/-- The database of a running node. -/
inductive NodeRun (P : Protocol Op R) (g : Objects R) : Database Op R → Prop
  | genesis : NodeRun P g (genesis g)
  | pushBlock {s} (b : SignedBlock Op) : NodeRun P g s → s.undo.active = 0 → SwitchSucceeds P b s →
      NodeRun P g (final (pushBlock P b) s)
  | start {s} : NodeRun P g s → NodeRun P g { s with undo := s.undo.start }
  /-- Transactions change the objects, but not the head block. -/
  | change {s} (o : Objects R) : NodeRun P g s → s.undo.active ≠ 0 → Node.SameHead s.objects o →
      NodeRun P g { s with undo := s.undo.change o }
  | merge {s u} : NodeRun P g s → 1 < s.undo.active → s.undo.merge = some u →
      NodeRun P g { s with undo := u }
  | undo {s u} : NodeRun P g s → s.undo.undo = some u → NodeRun P g { s with undo := u }

/-- What holds of the database of a running node. -/
structure NodeInv (P : Protocol Op R) (s : Database Op R) : Prop where
  tracked : Tracked P s
  recorded : Recorded P s
  linked : s.forkDb.Linked P

theorem NodeRun.inv (hg : Genesis g) {s : Database Op R} (h : NodeRun P g s) : NodeInv P s := by
  induction h with
  | genesis => exact ⟨.genesis hg, ⟨trivial, rfl, Nat.zero_le _⟩, linked_genesis g⟩
  | pushBlock b _ hidle hok ih =>
    exact ⟨(Settled.pushBlock b ⟨ih.tracked, hidle⟩).1,
      ih.recorded.pushBlock ⟨ih.tracked, hidle⟩ ih.linked hok, linked_pushBlock b ih.linked⟩
  | start _ ih => exact ⟨ih.tracked.start, ⟨ih.recorded.ids, ih.recorded.zero, ih.recorded.size⟩, ih.linked⟩
  | change o _ hactive hsame ih =>
    exact ⟨ih.tracked.change hactive hsame, ⟨ih.recorded.ids, ih.recorded.zero, ih.recorded.size⟩, ih.linked⟩
  | merge _ _ hu ih => exact ⟨ih.tracked.merge hu, ⟨ih.recorded.ids, ih.recorded.zero, ih.recorded.size⟩, ih.linked⟩
  | undo _ hu ih => exact ⟨ih.tracked.undo hu, ⟨ih.recorded.ids, ih.recorded.zero, ih.recorded.size⟩, ih.linked⟩

end Database

end FinChain.Chain
