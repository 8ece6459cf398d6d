import FinChain.App.Synopsis

/-!
# Synopses of a running node

Which reference points `get_blockchain_synopsis` can summarize, and that the synopses of all of them
are well formed (`synopsis_of_node`). What they are summarized by is the path from the first block to
the reference point (`Descends`): along the chain, and from the common ancestor on along the fork.

Two things are left out. A node that has a session open for its pending transactions, and whose last
irreversible block is still the genesis state, has more copies in its undo database than blocks in its
chain; the number of the last block that can not be undone is then computed below zero. And the numbers
of the blocks a peer has announced are not checked against the range of `uint32_t`.
-/

namespace FinChain.App

open Exec Chain Database

variable {Op R : Type} {P : Protocol Op R} {g : Objects R}

/-- The blocks from the given one down to the first. -/
def Descends (P : Protocol Op R) : BlockId → List (SignedBlock Op) → Prop
  | id, [] => id = .zero
  | id, b :: l => P.blockId b = id ∧ Descends P b.previous l

/-- The block a synopsis leads to. -/
def synopsisTarget (s : Database Op R) (referencePoint : BlockId) : BlockId :=
  if referencePoint = .zero then s.objects.headBlockId else referencePoint

/-- The reference points that can be summarized. -/
inductive Summarizable (P : Protocol Op R) (s : Database Op R) : BlockId → Prop
  | head : Summarizable P s .zero
  | onChain {b o} : (b, o) ∈ s.chain → Summarizable P s (P.blockId b)
  /-- The fork database finds the fork, and the chain can be undone to where it begins. -/
  | onFork {id first second} : id.num ≤ s.objects.headBlockNumber → (∀ e ∈ s.chain, P.blockId e.1 ≠ id) →
      s.forkDb.fetchBranchFrom P s.objects.headBlockId id = .ok (first, second) →
      s.lastNonUndoableBlockNum ≤ (forkPoint first).num → Summarizable P s id

/-- A well-formed synopsis that starts with the given block number. -/
structure WellFormed (P : Protocol Op R) (s : Database Op R) (referencePoint : BlockId) (n start : ℕ)
    (ids : List BlockId) : Prop where
  increasing : ids.Pairwise fun i j => i.num < j.num
  onPath : ∃ path, Descends P (synopsisTarget s referencePoint) path ∧
    ∀ id ∈ ids, ∃ b ∈ path, P.blockId b = id
  start : ids.head?.map BlockId.num = some start
  last : n = 0 → ids.getLast? = some (synopsisTarget s referencePoint)

/-! ### Paths of blocks -/

/-- The chain is a path down from each of its blocks. -/
theorem descends_chain : ∀ {c : List (SignedBlock Op × Objects R)}, ChainLinked P c →
    Descends P (headId P c) (c.map Prod.fst)
  | [], _ => rfl
  | (b, _) :: c, h => by
    refine ⟨rfl, ?_⟩
    rw [h.1]
    exact descends_chain h.2

/-- A fork is a path down to its ancestor. -/
theorem descends_fork : ∀ {l : List (ForkItem Op)} {id last : BlockId} {below : List (SignedBlock Op)},
    Path P id l last → Descends P last below → Descends P id (l.map ForkItem.data ++ below)
  | [], _, _, _, h, hbelow => by
    cases h
    exact hbelow
  | _ :: _, _, _, _, h, hbelow => ⟨h.1, descends_fork h.2 hbelow⟩

/-- The id of the block of the chain with the given number. -/
def chainId (P : Protocol Op R) (s : Database Op R) (k : ℕ) : BlockId :=
  headId P (s.chain.drop (s.chain.length - k))

section Chain

variable {s : Database Op R}

theorem num_chainId (h : ChainLinked P s.chain) {k : ℕ} (hk : k ≤ s.chain.length) :
    (chainId P s k).num = k := by
  rw [chainId, (h.drop _).num_headId, List.length_drop]
  omega

/-- Each number up to the head has a block. -/
theorem exists_chainId {k n : ℕ} (hpos : 0 < k) (hkn : k ≤ n) (hn : n ≤ s.chain.length) :
    ∃ e ∈ s.chain.drop (s.chain.length - n), P.blockId e.1 = chainId P s k := by
  unfold chainId
  have hlt : s.chain.length - k < s.chain.length := by omega
  rw [List.drop_eq_getElem_cons hlt]
  refine ⟨s.chain[s.chain.length - k], ?_, rfl⟩
  have hsplit : s.chain.length - k = (s.chain.length - n) + (n - k) := by omega
  have hsuffix : s.chain.drop (s.chain.length - k) <:+ s.chain.drop (s.chain.length - n) := by
    rw [hsplit, ← List.drop_drop]
    exact List.drop_suffix _ _
  refine hsuffix.subset ?_
  rw [List.drop_eq_getElem_cons hlt]
  exact List.mem_cons_self

/-- A block of the chain has the id that is found under its number. -/
theorem chainId_of_mem (h : ChainLinked P s.chain) {e : SignedBlock Op × Objects R}
    (he : e ∈ s.chain) : chainId P s e.1.blockNum = P.blockId e.1 ∧ 0 < e.1.blockNum ∧
      e.1.blockNum ≤ s.chain.length := by
  obtain ⟨i, hi, rfl⟩ := List.getElem_of_mem he
  have hdrop := List.drop_eq_getElem_cons hi
  have hnum : (s.chain[i]).1.blockNum = s.chain.length - i := by
    have hlinked := (h.drop i).num_headId
    rw [List.length_drop, hdrop] at hlinked
    exact hlinked
  refine ⟨?_, Nat.succ_pos _, by omega⟩
  have hback : s.chain.length - (s.chain.length - i) = i := by omega
  rw [chainId, hnum, hback, hdrop]
  rfl

theorem getBlockIdForNum_eq (h : NodeInv P s) {k : ℕ} (hpos : 0 < k) (hk : k ≤ s.chain.length) :
    s.getBlockIdForNum k = .ok (chainId P s k) :=
  h.recorded.ids.fetchBlockId k hpos hk

/-- What is found is a block of the chain. -/
theorem getBlockIdForNum_ok (h : NodeInv P s) {k : ℕ} {id : BlockId}
    (hid : s.getBlockIdForNum k = .ok id) : 0 < k ∧ k ≤ s.chain.length := by
  have hsize := h.recorded.size
  unfold getBlockIdForNum BlockDatabase.fetchBlockId at hid
  split at hid
  · cases hid
  · next hlt =>
    split at hid
    · cases hid
    · next hne =>
      refine ⟨Nat.pos_of_ne_zero fun hzero => hne ?_, by omega⟩
      rw [hzero]
      exact h.recorded.zero

/-- A range lies on a path of blocks to the given one. -/
structure Covered (P : Protocol Op R) (s : Database Op R) (target : BlockId) (r : SynopsisRange)
    (idOf : ℕ → BlockId) : Prop where
  found : Found s r idOf
  path : ∃ path, Descends P target path ∧
    ∀ k, 0 < k → k ≤ r.highBlockNum → ∃ b ∈ path, P.blockId b = idOf k
  high : r.highBlockNum = target.num
  top : idOf r.highBlockNum = target
  pos : 0 < r.highBlockNum
  low : r.lowBlockNum = min s.lastNonUndoableBlockNum target.num

/-- The range up to a block of the chain. -/
theorem covered_chain (h : NodeInv P s) {k : ℕ} (hpos : 0 < k) (hk : k ≤ s.chain.length)
    {r : SynopsisRange} (hhigh : r.highBlockNum = k) (hfork : r.nonForkHighBlockNum = k)
    (hlow : r.lowBlockNum = min s.lastNonUndoableBlockNum k) :
    Covered P s (chainId P s k) r (chainId P s) := by
  have hlinked := h.tracked.linked
  refine ⟨⟨?_, ?_⟩, ?_, ?_, by rw [hhigh], by omega, ?_⟩
  · intro j hj hjk
    unfold SynopsisRange.idAt
    rw [if_pos (by omega), getBlockIdForNum_eq h hj (by omega)]
    rfl
  · intro j hj hjk
    exact num_chainId hlinked (by omega)
  · refine ⟨_, descends_chain (hlinked.drop _), fun j hj hjk => ?_⟩
    obtain ⟨e, he, hid⟩ := exists_chainId hj (by omega : j ≤ k) hk
    exact ⟨e.1, List.mem_map_of_mem he, hid⟩
  · rw [num_chainId hlinked hk, hhigh]
  · rw [num_chainId hlinked hk, hlow]

/-- The blocks of a path in the fork database are numbered downwards. -/
theorem num_getElem_path : ∀ {l : List (ForkItem Op)} {a b : BlockId}, Path P a l b →
    ∀ i (hi : i < l.length), (l[i].id P).num + i = a.num
  | _ :: _, _, _, h, 0, _ => congrArg BlockId.num h.1
  | j :: l, a, b, h, i + 1, hi => by
    have hi' : i < l.length := Nat.lt_of_succ_lt_succ hi
    have hrest := num_getElem_path h.2 i hi'
    have hnum : j.data.previous.num + 1 = a.num := congrArg BlockId.num h.1
    change (l[i].id P).num + (i + 1) = a.num
    omega

/-- Where a fork leaves the chain. -/
structure ForkAt (P : Protocol Op R) (s : Database Op R) (id : BlockId)
    (first second : List (ForkItem Op)) : Prop where
  nonempty : second ≠ []
  path : Path P id second (forkPoint first)
  onChain : chainId P s (forkPoint first).num = forkPoint first
  le : (forkPoint first).num ≤ s.chain.length

theorem forkAt_of_fetch (h : NodeInv P s) (hid : HashesPrevious P) {id : BlockId}
    {first second : List (ForkItem Op)}
    (hfetch : s.forkDb.fetchBranchFrom P s.objects.headBlockId id = .ok (first, second)) :
    ForkAt P s id first second := by
  obtain ⟨hne, hne', -, last, hpath, hpath'⟩ := ForkDatabase.fetchBranchFrom_path h.linked hfetch
  have hpoint : forkPoint first = last := by
    rw [forkPoint, hpath.getLast? hne]
    rfl
  rw [h.tracked.head.headBlockId] at hpath
  have hlinked := h.tracked.linked
  have hlast := hlinked.headId_of_path hid hpath
  have hnum : last.num = s.chain.length - first.length := by
    rw [← hlast, (hlinked.drop _).num_headId, List.length_drop]
  refine ⟨hne', by rwa [hpoint], ?_, by rw [hpoint, hnum]; exact Nat.sub_le _ _⟩
  rw [hpoint, chainId, hnum, ← hlast]
  by_cases hfit : first.length ≤ s.chain.length
  · rw [Nat.sub_sub_self hfit]
  · rw [List.drop_of_length_le (by omega), List.drop_of_length_le (by omega)]

/-- The id of the block with the given number on the way to a fork. -/
def forkId (P : Protocol Op R) (s : Database Op R) (first second : List (ForkItem Op)) (k : ℕ) :
    BlockId :=
  if k ≤ (forkPoint first).num then chainId P s k
  else ((second.map (ForkItem.id P)).reverse[k - (forkPoint first).num - 1]?).getD .zero

/-- The range up to a block of a fork. -/
def forkRange (P : Protocol Op R) (s : Database Op R) (id : BlockId)
    (first second : List (ForkItem Op)) : SynopsisRange where
  lowBlockNum := s.lastNonUndoableBlockNum
  highBlockNum := id.num
  nonForkHighBlockNum := (forkPoint first).num
  forkHistory := (second.map (ForkItem.id P)).reverse

theorem rangeOnFork_eq (h : NodeInv P s) (hid : HashesPrevious P) {id : BlockId}
    (hfits : id.num < 2 ^ 32) {first second : List (ForkItem Op)}
    (hfetch : s.forkDb.fetchBranchFrom P s.objects.headBlockId id = .ok (first, second)) :
    rangeOnFork P s s.lastNonUndoableBlockNum id =
      if (forkPoint first).num < s.lastNonUndoableBlockNum then .error .blockOlderThanUndoHistory
      else .ok (forkRange P s id first second) := by
  have hfork := forkAt_of_fetch h hid hfetch
  have hids : s.getBlockIdsOnFork P id = .ok (second.map (ForkItem.id P) ++ [forkPoint first]) := by
    unfold getBlockIdsOnFork
    rw [hfetch]
    rfl
  have hhigh : u32 ((forkPoint first).num + (second.map (ForkItem.id P)).reverse.length) = id.num := by
    refine u32_of_lt ?_ hfits
    rw [hfork.path.num_eq, List.length_reverse, List.length_map]
    rfl
  have hlow : (if forkPoint first = .zero then 0 else (forkPoint first).num) =
      (forkPoint first).num := by
    split
    · next hzero =>
      rw [hzero]
      rfl
    · rfl
  unfold rangeOnFork
  rw [hids]
  change (if (if (List.getLast? _).getD BlockId.zero = BlockId.zero then 0 else _) < _ then _ else _) = _
  rw [List.getLast?_concat, List.dropLast_concat, Option.getD_some, hlow]
  split
  · rfl
  · rw [hhigh]
    rfl

/-- The range up to a block of a fork lies on the path to it. -/
theorem covered_fork (h : NodeInv P s) {id : BlockId} {first second : List (ForkItem Op)}
    (hfork : ForkAt P s id first second) (hfits : id.num < 2 ^ 32)
    (hlow : s.lastNonUndoableBlockNum ≤ (forkPoint first).num) :
    Covered P s id (forkRange P s id first second) (forkId P s first second) := by
  have hnum := hfork.path.num_eq
  have hlinked := h.tracked.linked
  have hlength : (second.map (ForkItem.id P)).length = second.length := List.length_map _
  -- the id of a block above the common ancestor
  have habove : ∀ k, (forkPoint first).num < k → k ≤ id.num → ∃ (hk : id.num - k < second.length),
      (second.map (ForkItem.id P)).reverse[k - (forkPoint first).num - 1]? =
        some (second[id.num - k].id P) := by
    intro k hk hkid
    have hlt : id.num - k < second.length := by omega
    have hindex : k - (forkPoint first).num - 1 < (second.map (ForkItem.id P)).length := by omega
    refine ⟨hlt, ?_⟩
    rw [List.getElem?_reverse hindex, List.getElem?_map]
    have hback : (second.map (ForkItem.id P)).length - 1 - (k - (forkPoint first).num - 1) =
        id.num - k := by omega
    rw [hback, List.getElem?_eq_getElem hlt]
    rfl
  have hforkId : ∀ k, (forkPoint first).num < k → k ≤ id.num → ∃ (hk : id.num - k < second.length),
      forkId P s first second k = second[id.num - k].id P := by
    intro k hk hkid
    obtain ⟨hlt, hget⟩ := habove k hk hkid
    refine ⟨hlt, ?_⟩
    rw [forkId, if_neg (by omega), hget]
    rfl
  have hpos : 0 < second.length := List.length_pos_iff.mpr hfork.nonempty
  refine ⟨⟨?_, ?_⟩, ?_, rfl, ?_, ?_, ?_⟩
  · intro k hk hkid
    change k ≤ id.num at hkid
    change (if k ≤ (forkPoint first).num then _ else _) = _
    by_cases hbelow : k ≤ (forkPoint first).num
    · have hle : k ≤ s.chain.length := hbelow.trans hfork.le
      rw [if_pos hbelow, getBlockIdForNum_eq h hk hle, forkId, if_pos hbelow]
      rfl
    · obtain ⟨hlt, hget⟩ := habove k (by omega) hkid
      have hindex : u32 ((k : ℤ) - (forkPoint first).num - 1) = k - (forkPoint first).num - 1 :=
        u32_of_lt (by omega) (by omega)
      have hentry : (forkRange P s id first second).forkHistory[
          u32 ((k : ℤ) - (forkRange P s id first second).nonForkHighBlockNum - 1)]? =
            some (second[id.num - k].id P) := by
        change (second.map (ForkItem.id P)).reverse[u32 ((k : ℤ) - (forkPoint first).num - 1)]? = _
        rw [hindex, hget]
      rw [if_neg hbelow, forkId, if_neg hbelow, hget, hentry]
      rfl
  · intro k hk hkid
    change k ≤ id.num at hkid
    by_cases hbelow : k ≤ (forkPoint first).num
    · rw [forkId, if_pos hbelow]
      exact num_chainId hlinked (hbelow.trans hfork.le)
    · obtain ⟨hlt, heq⟩ := hforkId k (by omega) hkid
      have hdown := num_getElem_path hfork.path _ hlt
      rw [heq]
      omega
  · refine ⟨second.map ForkItem.data ++ (s.chain.drop (s.chain.length - (forkPoint first).num)).map
      Prod.fst, descends_fork hfork.path ?_, fun k hk hkid => ?_⟩
    · have hchain := descends_chain (hlinked.drop (s.chain.length - (forkPoint first).num))
      have hlast := hfork.onChain
      unfold chainId at hlast
      rwa [hlast] at hchain
    · change k ≤ id.num at hkid
      by_cases hbelow : k ≤ (forkPoint first).num
      · obtain ⟨e, he, heq⟩ := exists_chainId (P := P) hk hbelow hfork.le
        rw [forkId, if_pos hbelow]
        exact ⟨e.1, List.mem_append_right _ (List.mem_map_of_mem he), heq⟩
      · obtain ⟨hlt, heq⟩ := hforkId k (by omega) hkid
        refine ⟨second[id.num - k].data, List.mem_append_left _ ?_, heq.symm⟩
        exact List.mem_map_of_mem (List.getElem_mem hlt)
  · change forkId P s first second id.num = id
    obtain ⟨hlt, heq⟩ := hforkId id.num (by omega) (Nat.le_refl _)
    rw [heq]
    obtain ⟨i, l, rfl⟩ := List.exists_cons_of_ne_nil hfork.nonempty
    have hzero : id.num - id.num = 0 := Nat.sub_self _
    simp only [hzero]
    exact hfork.path.1
  · change 0 < id.num
    omega
  · change s.lastNonUndoableBlockNum = min s.lastNonUndoableBlockNum id.num
    omega

/-! ### Reference points -/

/-- A block of the chain can be summarized. -/
theorem summarizable_chainId {k : ℕ} (hpos : 0 < k) (hk : k ≤ s.chain.length) :
    Summarizable P s (chainId P s k) := by
  obtain ⟨e, he, heq⟩ := exists_chainId (P := P) hpos (Nat.le_refl k) hk
  rw [← heq]
  exact .onChain (List.mem_of_mem_drop he)

/-- Without a reference point the range leads up the chain to its head. -/
theorem synopsisRange_head (h : NodeInv P s) (hlow : s.lastNonUndoableBlockNum ≤ s.chain.length) :
    (s.chain = [] ∧ synopsisRange P s .zero = .ok none) ∨ ∃ r, synopsisRange P s .zero = .ok (some r) ∧
      Covered P s (chainId P s s.chain.length) r (chainId P s) := by
  have hnumber := h.tracked.head.headBlockNumber
  unfold synopsisRange
  rw [if_neg (not_not.mpr rfl)]
  by_cases hzero : s.objects.headBlockNumber = 0
  · rw [if_pos hzero]
    rw [hnumber] at hzero
    exact .inl ⟨List.length_eq_zero_iff.mp hzero, rfl⟩
  · rw [if_neg hzero]
    exact .inr ⟨_, rfl, covered_chain h (by omega) (Nat.le_refl _) hnumber hnumber
      (min_eq_left hlow).symm⟩

/-- The range of every reference point that can be summarized lies on a path to it. -/
theorem synopsisRange_of_summarizable (h : NodeInv P s) (hid : HashesPrevious P)
    {id : BlockId} (hundo : id = .zero → s.undo.saved.length ≤ s.objects.headBlockNumber)
    (hfits : max s.objects.headBlockNumber id.num < 2 ^ 32) (hsum : Summarizable P s id) :
    (s.chain = [] ∧ synopsisRange P s id = .ok none) ∨
      ∃ r idOf, synopsisRange P s id = .ok (some r) ∧ Covered P s (synopsisTarget s id) r idOf := by
  have hhead := h.tracked.head
  have hlinked := h.tracked.linked
  cases hsum with
  | head =>
    have htarget : synopsisTarget s .zero = chainId P s s.chain.length := by
      rw [synopsisTarget, if_pos rfl, hhead.headBlockId, chainId, Nat.sub_self, List.drop_zero]
    have hnumber := hhead.headBlockNumber
    have hcopies := hundo rfl
    have hlow : s.lastNonUndoableBlockNum ≤ s.chain.length := by
      have hexact : s.lastNonUndoableBlockNum =
          s.objects.headBlockNumber - s.undo.saved.length := u32_of_lt (by omega) (by omega)
      omega
    rw [htarget]
    exact (synopsisRange_head h hlow).imp_right fun ⟨r, hr, hc⟩ => ⟨r, chainId P s, hr, hc⟩
  | @onChain b o hmem =>
    obtain ⟨hchainId, hpos, hle⟩ := chainId_of_mem hlinked hmem
    have hne : P.blockId b ≠ .zero := P.blockId_ne_zero b
    have hincluded : isIncludedBlock s (P.blockId b) = .ok true := by
      unfold isIncludedBlock
      rw [P.blockId_num, getBlockIdForNum_eq h hpos hle, hchainId]
      exact congrArg Except.ok (decide_eq_true rfl)
    unfold synopsisRange
    rw [if_pos hne, hincluded]
    refine .inr ⟨rangeOnChain s.lastNonUndoableBlockNum (P.blockId b), chainId P s, rfl, ?_⟩
    rw [synopsisTarget, if_neg hne, ← hchainId]
    refine covered_chain h hpos hle (num_chainId hlinked hle) (num_chainId hlinked hle) ?_
    change (if (chainId P s b.blockNum).num < _ then _ else _) = _
    rw [num_chainId hlinked hle]
    split <;> omega
  | @onFork _ first second hle hnot hfetch hlow =>
    have hfork := forkAt_of_fetch h hid hfetch
    have hnum := hfork.path.num_eq
    have hlength : 0 < second.length := List.length_pos_iff.mpr hfork.nonempty
    have hne : id ≠ .zero := by
      intro hzero
      rw [hzero] at hnum
      change 0 = _ at hnum
      omega
    have hpos : 0 < id.num := by omega
    rw [hhead.headBlockNumber] at hle
    have hincluded : isIncludedBlock s id = .ok false := by
      unfold isIncludedBlock
      rw [getBlockIdForNum_eq h hpos hle]
      refine congrArg Except.ok (decide_eq_false fun heq => ?_)
      obtain ⟨e, he, hid'⟩ := exists_chainId (P := P) hpos (Nat.le_refl _) hle
      exact hnot e (List.mem_of_mem_drop he) (hid'.trans heq.symm)
    have hfits' : id.num < 2 ^ 32 := by omega
    unfold synopsisRange
    rw [if_pos hne, hincluded]
    change _ ∨ ∃ r idOf, (do
      let r ← rangeOnFork P s s.lastNonUndoableBlockNum id
      return some r : Except SynopsisError (Option SynopsisRange)) = _ ∧ _
    rw [rangeOnFork_eq h hid hfits' hfetch, if_neg (Nat.not_lt.mpr hlow)]
    refine .inr ⟨forkRange P s id first second, forkId P s first second, rfl, ?_⟩
    rw [synopsisTarget, if_neg hne]
    exact covered_fork h hfork hfits' hlow

/-- Every other reference point is refused. -/
theorem synopsisRange_of_not_summarizable (h : NodeInv P s) (hid : HashesPrevious P) {id : BlockId}
    (hfits : id.num < 2 ^ 32) (hsum : ¬ Summarizable P s id) :
    ∃ e : SynopsisError, e.IsException ∧ synopsisRange P s id = .error e := by
  have hne : id ≠ .zero := by
    rintro rfl
    exact hsum .head
  unfold synopsisRange
  rw [if_pos hne]
  cases hget : s.getBlockIdForNum id.num with
  | error e =>
    have hincluded : isIncludedBlock s id = .error e := by
      unfold isIncludedBlock
      rw [hget]
      rfl
    rw [hincluded]
    exact ⟨.chain e, trivial, rfl⟩
  | ok id' =>
    obtain ⟨hpos, hle⟩ := getBlockIdForNum_ok h hget
    rw [getBlockIdForNum_eq h hpos hle] at hget
    obtain rfl := Except.ok.inj hget
    have hother : id ≠ chainId P s id.num := by
      intro heq
      rw [heq] at hsum
      exact hsum (summarizable_chainId hpos hle)
    have hincluded : isIncludedBlock s id = .ok false := by
      unfold isIncludedBlock
      rw [getBlockIdForNum_eq h hpos hle]
      exact congrArg Except.ok (decide_eq_false hother)
    rw [hincluded]
    change ∃ e : SynopsisError, e.IsException ∧ (do
      let r ← rangeOnFork P s s.lastNonUndoableBlockNum id
      return some r : Except SynopsisError (Option SynopsisRange)) = _
    cases hfetch : s.forkDb.fetchBranchFrom P s.objects.headBlockId id with
    | error e =>
      have hids : s.getBlockIdsOnFork P id = .error e := by
        unfold getBlockIdsOnFork
        rw [hfetch]
        rfl
      unfold rangeOnFork
      rw [hids]
      exact ⟨.chain e, trivial, rfl⟩
    | ok branches =>
      obtain ⟨first, second⟩ := branches
      rw [rangeOnFork_eq h hid hfits hfetch]
      by_cases hlow : (forkPoint first).num < s.lastNonUndoableBlockNum
      · rw [if_pos hlow]
        exact ⟨.blockOlderThanUndoHistory, trivial, rfl⟩
      · refine absurd (.onFork ?_ ?_ hfetch (Nat.le_of_not_lt hlow)) hsum
        · rw [h.tracked.head.headBlockNumber]
          exact hle
        · intro e he heq
          have hchainId := (chainId_of_mem h.tracked.linked he).1
          refine hother ?_
          rw [← heq]
          exact hchainId.symm

end Chain

/-! ### Synopses -/

/-- The call returns the given ids, after as many rounds of its loop as it needs. -/
def Returns (P : Protocol Op R) (s : Database Op R) (referencePoint : BlockId) (n : ℕ)
    (ids : List BlockId) : Prop :=
  ∃ rounds, ∀ fuel, rounds ≤ fuel → getBlockchainSynopsis P s fuel referencePoint n = .ok ids

theorem Returns.unique {s : Database Op R} {id : BlockId} {n : ℕ} {ids ids' : List BlockId}
    (h : Returns P s id n ids) (h' : Returns P s id n ids') : ids = ids' := by
  obtain ⟨rounds, hrun⟩ := h
  obtain ⟨rounds', hrun'⟩ := h'
  have hids := hrun (max rounds rounds') (le_max_left _ _)
  rw [hrun' (max rounds rounds') (le_max_right _ _)] at hids
  exact (Except.ok.inj hids).symm

/-- The number of the first block of a synopsis. -/
def startNum (s : Database Op R) (target : BlockId) : ℕ :=
  max 1 (min s.lastNonUndoableBlockNum target.num)

theorem Covered.startNum_le {s : Database Op R} {target : BlockId} {r : SynopsisRange}
    {idOf : ℕ → BlockId} (hc : Covered P s target r idOf) : startNum s target ≤ r.highBlockNum := by
  have hpos := hc.pos
  have hhigh := hc.high
  show max 1 (min s.lastNonUndoableBlockNum target.num) ≤ _
  omega

/-- The call returns the ids that the strides through the range come by. -/
theorem returns_walk {s : Database Op R} {id target : BlockId} {n : ℕ} {r : SynopsisRange}
    {idOf : ℕ → BlockId} (hrange : synopsisRange P s id = .ok (some r)) (hc : Covered P s target r idOf)
    (hfits : r.highBlockNum + n + 1 < 2 ^ 32) :
    Returns P s id n (((halfway (r.highBlockNum + n)).walk r.highBlockNum (startNum s target)).map idOf) := by
  have htrue : u32 (r.highBlockNum + n : ℤ) = r.highBlockNum + n := u32_of_lt (by omega) (by omega)
  have hlow : (if r.lowBlockNum = 0 then 1 else r.lowBlockNum) = startNum s target := by
    show _ = max 1 (min s.lastNonUndoableBlockNum target.num)
    rw [hc.low]
    split <;> omega
  refine ⟨r.highBlockNum + 1, fun fuel hfuel => ?_⟩
  unfold getBlockchainSynopsis
  rw [hrange]
  change synopsisLoop s r (u32 (r.highBlockNum + n : ℤ)) fuel (if _ then _ else _) = _
  rw [htrue, hlow]
  have hstart : 0 < startNum s target := le_max_left 1 _
  exact synopsisLoop_walk hc.found (Nat.le_add_right _ n) (by omega) hstart hc.startNum_le (by omega)

/-- The call returns what the loop makes of the range. -/
theorem returns_of_covered {s : Database Op R} {id target : BlockId} {n : ℕ} {r : SynopsisRange}
    {idOf : ℕ → BlockId} (hrange : synopsisRange P s id = .ok (some r)) (hc : Covered P s target r idOf)
    (hfits : r.highBlockNum + n + 1 < 2 ^ 32) :
    ∃ ids, Returns P s id n ids ∧
      Ascends r idOf (max 1 (min s.lastNonUndoableBlockNum target.num)) ids ∧
      (n = 0 → ids.getLast? = some target) := by
  have hstart : 0 < startNum s target := le_max_left 1 _
  refine ⟨_, returns_walk hrange hc hfits, ascends_walk hc.found _ hstart hc.startNum_le, ?_⟩
  rintro rfl
  rw [List.getLast?_map, Nat.add_zero, getLast?_walk_halfway hc.startNum_le, Option.map_some, hc.top]

/-- Without blocks there is nothing to summarize. -/
theorem returns_nil {s : Database Op R} {id : BlockId} {n : ℕ} (h : synopsisRange P s id = .ok none) :
    Returns P s id n [] := by
  refine ⟨0, fun fuel _ => ?_⟩
  unfold getBlockchainSynopsis
  rw [h]
  rfl

/-- A reference point that can be summarized has a well-formed synopsis. -/
theorem wellFormed_of_summarizable {s : Database Op R} (h : NodeInv P s) (hid : HashesPrevious P)
    (hundo : s.undo.saved.length ≤ s.objects.headBlockNumber) {id : BlockId} {n : ℕ}
    (hfits : max s.objects.headBlockNumber id.num + n + 1 < 2 ^ 32) (hsum : Summarizable P s id) :
    ∃ ids, Returns P s id n ids ∧ ((s.chain = [] ∧ ids = []) ∨
      WellFormed P s id n (max 1 (min s.lastNonUndoableBlockNum (synopsisTarget s id).num)) ids) := by
  rcases synopsisRange_of_summarizable h hid (fun _ => hundo) (by omega) hsum with
    ⟨hempty, hrange⟩ | ⟨r, idOf, hrange, hc⟩
  · exact ⟨[], returns_nil hrange, .inl ⟨hempty, rfl⟩⟩
  · have hhigh : r.highBlockNum ≤ max s.objects.headBlockNumber id.num := by
      rw [hc.high, synopsisTarget]
      split
      · rw [h.tracked.head.headBlockId, h.tracked.linked.num_headId, h.tracked.head.headBlockNumber]
        exact le_max_left _ _
      · exact le_max_right _ _
    have hpos := hc.pos
    have hstart : max 1 (min s.lastNonUndoableBlockNum (synopsisTarget s id).num) ≤ r.highBlockNum := by
      have heq := hc.high
      omega
    obtain ⟨ids, hreturns, hasc, hlast⟩ := returns_of_covered hrange hc (n := n) (by omega)
    refine ⟨ids, hreturns, .inr ⟨hasc.increasing, ?_, ?_, hlast⟩⟩
    · obtain ⟨path, hdown, hpath⟩ := hc.path
      refine ⟨path, hdown, fun i hi => ?_⟩
      obtain ⟨k, hk, hkhigh, rfl⟩ := hasc.mem i hi
      exact hpath k (by omega) hkhigh
    · rw [hasc.head]
      exact congrArg some (hc.found.num _ (by omega) hstart)

/-- **Synopses are well formed.** In every state of a running node whose undo database holds no more
copies than the chain has blocks, a summarizable reference point has a synopsis: block ids with
increasing numbers on the path to the reference point or the head, from the last block that can not
be undone on (or from the first block, or from the reference point itself when it is further down),
and up to the reference point when no blocks come after it. Every other reference point is refused
with an exception. -/
theorem synopsis_of_node (hg : Genesis g) (hid : HashesPrevious P) {s : Database Op R}
    (hs : NodeRun P g s) (hundo : s.undo.saved.length ≤ s.objects.headBlockNumber) {id : BlockId}
    {n : ℕ} (hfits : max s.objects.headBlockNumber id.num + n + 1 < 2 ^ 32) :
    (Summarizable P s id → ∃ ids, Returns P s id n ids ∧ ((s.chain = [] ∧ ids = []) ∨
      WellFormed P s id n
        (max 1 (min s.lastNonUndoableBlockNum (synopsisTarget s id).num)) ids)) ∧
    (¬ Summarizable P s id → ∃ e : SynopsisError, e.IsException ∧
      ∀ fuel, getBlockchainSynopsis P s fuel id n = .error e) := by
  have h := hs.inv hg
  refine ⟨wellFormed_of_summarizable h hid hundo hfits, fun hsum => ?_⟩
  obtain ⟨e, he, hrange⟩ := synopsisRange_of_not_summarizable h hid (by omega) hsum
  refine ⟨e, he, fun fuel => ?_⟩
  unfold getBlockchainSynopsis
  rw [hrange]
  rfl

section Example

/-- The next block, on top of the head. -/
def nextBlock (s : Database ℕ Unit) : SignedBlock ℕ :=
  .empty s.objects.headBlockId (s.objects.headBlockNumber + 1) 1

/-- A chain with a single witness. -/
def grown : ℕ → Database ℕ Unit
  | 0 => genesis (Protocol.permissiveGenesis [0])
  | n + 1 => final (pushBlock .permissive (nextBlock (grown n))) (grown n)

/-- A block that does not switch forks. -/
theorem nodeRun_push {s : Database ℕ Unit} (hs : NodeRun .permissive (Protocol.permissiveGenesis [0]) s)
    (b : SignedBlock ℕ) (h : s.undo.active = 0 ∧ switchPoint .permissive s b = none) :
    NodeRun .permissive (Protocol.permissiveGenesis [0]) (final (pushBlock .permissive b) s) :=
  .pushBlock b hs h.1 (.inl (Option.map_eq_none_iff.mp h.2))

theorem nodeRun_grown_of_le : ∀ n ≤ 5, NodeRun .permissive (Protocol.permissiveGenesis [0]) (grown n) := by
  have hcheck : ∀ n < 5, (grown n).undo.active = 0 ∧
      switchPoint .permissive (grown n) (nextBlock (grown n)) = none := by
    decide
  intro n
  induction n with
  | zero => exact fun _ => .genesis
  | succ n ih => exact fun hn => nodeRun_push (ih (Nat.le_of_lt hn)) _ (hcheck n hn)

theorem nodeRun_grown : NodeRun .permissive (Protocol.permissiveGenesis [0]) (grown 5) :=
  nodeRun_grown_of_le 5 (Nat.le_refl 5)

theorem synopsis_of_node_five :
    ∃ ids, Returns .permissive (grown 5) .zero 0 ids ∧ (((grown 5).chain = [] ∧ ids = []) ∨
      WellFormed .permissive (grown 5) .zero 0
        (max 1 (min (grown 5).lastNonUndoableBlockNum (synopsisTarget (grown 5) .zero).num)) ids) :=
  (synopsis_of_node ⟨rfl, rfl, rfl⟩ Protocol.permissive_hash nodeRun_grown (by decide +kernel)
    (by decide +kernel)).1 .head

/-- The first of five blocks, of which the last three can be undone: its synopsis starts with itself,
and not with the second block. -/
theorem not_synopsis_of_node :
    ¬ ∀ (s : Database ℕ Unit) (id : BlockId) (n : ℕ),
      NodeRun .permissive (Protocol.permissiveGenesis [0]) s → Summarizable .permissive s id →
      ∃ ids, Returns .permissive s id n ids ∧ ((s.chain = [] ∧ ids = []) ∨
        WellFormed .permissive s id n (max 1 s.lastNonUndoableBlockNum) ids) := by
  intro hall
  have hinv := nodeRun_grown.inv ⟨rfl, rfl, rfl⟩
  have hlength : (grown 5).chain.length = 5 := by decide +kernel
  have hlow : (grown 5).lastNonUndoableBlockNum = 2 := by decide +kernel
  have hnum : (chainId .permissive (grown 5) 1).num = 1 :=
    num_chainId hinv.tracked.linked (by omega)
  have hsum : Summarizable .permissive (grown 5) (chainId .permissive (grown 5) 1) :=
    summarizable_chainId Nat.one_pos (by omega)
  have htarget : (synopsisTarget (grown 5) (chainId .permissive (grown 5) 1)).num = 1 := by
    have hne : chainId .permissive (grown 5) 1 ≠ .zero := by
      intro hzero
      rw [hzero] at hnum
      cases hnum
    rw [synopsisTarget, if_neg hne, hnum]
  obtain ⟨ids, hreturns, hclaimed⟩ := hall _ _ 0 nodeRun_grown hsum
  obtain ⟨ids', hreturns', hactual⟩ := wellFormed_of_summarizable (n := 0) hinv
    Protocol.permissive_hash (by decide +kernel) (by rw [hnum]; decide +kernel) hsum
  obtain rfl := hreturns.unique hreturns'
  have hne : (grown 5).chain ≠ [] := by
    intro hnil
    rw [hnil] at hlength
    cases hlength
  have hstart := (hclaimed.resolve_left fun h => hne h.1).start
  rw [(hactual.resolve_left fun h => hne h.1).start, htarget, hlow] at hstart
  cases hstart

end Example

end FinChain.App
