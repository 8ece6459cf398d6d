import FinChain.App.ReferencePoint

/-!
# Replies to a synopsis

`get_block_ids` of the application, the other end of `get_blockchain_synopsis`: a node looks for the
last id of a synopsis that is on its own chain, and replies with the ids of its chain from there on.
The requester built the synopsis from its own chain, so the two nodes meet at a block they share
(`Answer`). The first id of a reply is one that the requester has, and when it asks again it ends its
synopsis with the last id it received. So each reply but the first repeats one id, and a node that
replies with one id at a time would repeat it forever (`not_sync_reply`).

A block is known when the fork database or the block database has it. All blocks of the chain are in
the block database. A block of the fork database can be above the head of the chain, when the branch it
belongs to was not found on a switch; looking such a block up by its number throws.
-/

namespace FinChain.App

open Exec Chain Database

variable {Op R : Type} {P : Protocol Op R} {g : Objects R}

/-- How `get_block_ids` can go wrong. -/
inductive BlockIdsError
  /-- An exception of the database. -/
  | chain (e : ChainError)
  /-- `peer_is_on_an_unreachable_fork`. -/
  | unreachableFork
  /-- The loop goes on. -/
  | running
  deriving DecidableEq

/-- `database::is_known_block`. No block is ever in the unlinked index of the fork database. -/
def isKnownBlock (P : Protocol Op R) (s : Database Op R) (id : BlockId) : Bool :=
  (s.forkDb.find P id).isSome || s.blockDb.contains id

/-- The search through a synopsis, which is given newest block first. -/
def lastKnownBlockId (P : Protocol Op R) (s : Database Op R) :
    List BlockId → Except BlockIdsError BlockId
  | [] => .error .unreachableFork
  | id :: ids =>
    if id = .zero then .ok id
    else if isKnownBlock P s id then do
      let included ← (isIncludedBlock s id).mapError .chain
      if included then return id else lastKnownBlockId P s ids
    else lastKnownBlockId P s ids

/-- Where the reply to a synopsis starts. -/
def replyStart (P : Protocol Op R) (s : Database Op R) (synopsis : List BlockId) :
    Except BlockIdsError BlockId :=
  -- a synopsis of the empty id alone comes from old versions and means no blocks
  if synopsis = [] ∨ synopsis = [.zero] then .ok .zero else lastKnownBlockId P s synopsis.reverse

/-- The loop that collects the ids, with a bound on the number of its rounds. -/
def blockIdsFrom (s : Database Op R) : ℕ → ℕ → ℕ → Except BlockIdsError (List BlockId)
  | 0, _, _ => .error .running
  | fuel + 1, num, room =>
    if num ≤ s.objects.headBlockNumber ∧ 0 < room then
      if 0 < num then do
        let id ← (s.getBlockIdForNum num).mapError .chain
        let ids ← blockIdsFrom s fuel (u32 (num + 1)) (room - 1)
        return id :: ids
      else blockIdsFrom s fuel (u32 (num + 1)) room
    else .ok []

/-- `remaining_item_count`. -/
def remainingItemCount (s : Database Op R) (ids : List BlockId) : ℕ :=
  match ids.getLast? with
  | some id => if id.num < s.objects.headBlockNumber then s.objects.headBlockNumber - id.num else 0
  | none => 0

/-- `get_block_ids`. -/
def getBlockIds (P : Protocol Op R) (s : Database Op R) (fuel : ℕ) (synopsis : List BlockId)
    (limit : ℕ) : Except BlockIdsError (List BlockId × ℕ) :=
  if s.objects.headBlockNumber = 0 then .ok ([], 0)
  else do
    let lastKnown ← replyStart P s synopsis
    let ids ← blockIdsFrom s fuel lastKnown.num limit
    return (ids, remainingItemCount s ids)

/-- The call returns the given ids and the given count, after as many rounds of its loop as it
needs. -/
def Replies (P : Protocol Op R) (s : Database Op R) (synopsis : List BlockId) (limit : ℕ)
    (ids : List BlockId) (remaining : ℕ) : Prop :=
  ∃ rounds, ∀ fuel, rounds ≤ fuel → getBlockIds P s fuel synopsis limit = .ok (ids, remaining)

theorem Replies.unique {s : Database Op R} {synopsis ids ids' : List BlockId}
    {limit remaining remaining' : ℕ} (h : Replies P s synopsis limit ids remaining)
    (h' : Replies P s synopsis limit ids' remaining') : ids = ids' ∧ remaining = remaining' := by
  obtain ⟨rounds, hrun⟩ := h
  obtain ⟨rounds', hrun'⟩ := h'
  have hreply := hrun (max rounds rounds') (le_max_left _ _)
  rw [hrun' (max rounds rounds') (le_max_right _ _)] at hreply
  have hpair := Except.ok.inj hreply
  exact ⟨(congrArg Prod.fst hpair).symm, (congrArg Prod.snd hpair).symm⟩

/-! ### What the answer should be -/

/-- The id is that of a block of the chain. -/
def OnChain (P : Protocol Op R) (s : Database Op R) (id : BlockId) : Prop :=
  ∃ e ∈ s.chain, P.blockId e.1 = id

/-- So many ids of the chain, from the given number on. -/
def chainIds (P : Protocol Op R) (s : Database Op R) (start count : ℕ) : List BlockId :=
  (List.range' start count).map (chainId P s)

/-- The chains of two nodes share the blocks up to the given number. -/
structure SharedUpTo (P : Protocol Op R) (a b : Database Op R) (m : ℕ) : Prop where
  left : m ≤ a.chain.length
  right : m ≤ b.chain.length
  agree : ∀ k, k ≤ m → chainId P a k = chainId P b k

/-- The reply of the second node to a synopsis of the first one. The boundary is the number of the
highest block of the synopsis on the chain of the second node, or zero when one of the two has no
blocks. -/
structure Answer (P : Protocol Op R) (a b : Database Op R) (synopsis : List BlockId) (limit boundary : ℕ)
    (ids : List BlockId) (remaining : ℕ) : Prop where
  meets : (boundary = 0 ∧ (synopsis = [] ∨ b.chain = [])) ∨
    (0 < boundary ∧ chainId P b boundary ∈ synopsis)
  highest : ∀ id ∈ synopsis, OnChain P b id → id.num ≤ boundary
  shared : SharedUpTo P a b boundary
  contiguous : ids = chainIds P b (max 1 boundary) (min limit (b.chain.length + 1 - max 1 boundary))
  rest : ∀ id, ids.getLast? = some id → remaining = b.chain.length - id.num

/-- A request and those that follow it, until nothing remains. After each reply the requester makes a
new synopsis of it. -/
inductive Exchange (P : Protocol Op R) (s : Database Op R) (limit : ℕ)
    (next : List BlockId → List BlockId) : List BlockId → List (List BlockId) → Prop
  | last {synopsis ids} : Replies P s synopsis limit ids 0 → Exchange P s limit next synopsis [ids]
  | more {synopsis ids remaining replies} : Replies P s synopsis limit ids remaining →
      0 < remaining → Exchange P s limit next (next ids) replies →
      Exchange P s limit next synopsis (ids :: replies)

/-- The ids of all replies, without the boundary that each but the first starts with. -/
def received : List (List BlockId) → List BlockId
  | [] => []
  | ids :: replies => ids ++ (replies.map List.tail).flatten

/-! ### Blocks of the chain -/

section Chain

variable {s : Database Op R}

theorem onChain_iff (h : ChainLinked P s.chain) {id : BlockId} :
    OnChain P s id ↔ 0 < id.num ∧ id.num ≤ s.chain.length ∧ chainId P s id.num = id := by
  constructor
  · rintro ⟨e, he, rfl⟩
    rw [P.blockId_num]
    obtain ⟨hid, hpos, hle⟩ := chainId_of_mem h he
    exact ⟨hpos, hle, hid⟩
  · rintro ⟨hpos, hle, hid⟩
    obtain ⟨e, he, heq⟩ := exists_chainId (P := P) hpos (Nat.le_refl _) hle
    exact ⟨e, List.mem_of_mem_drop he, heq.trans hid⟩

theorem onChain_chainId (h : ChainLinked P s.chain) {k : ℕ} (hpos : 0 < k) (hk : k ≤ s.chain.length) :
    OnChain P s (chainId P s k) := by
  rw [onChain_iff h, num_chainId h hk]
  exact ⟨hpos, hk, rfl⟩

/-- The block database has each block of the chain. -/
theorem contains_of_stored {d : BlockDatabase Op} :
    ∀ {c : List (SignedBlock Op × Objects R)}, ChainLinked P c → IdsStored P d c →
      ∀ e ∈ c, d.contains (P.blockId e.1) = true
  | [], _, _, _, he => absurd he List.not_mem_nil
  | (b, o) :: c, h, hstored, e, he => by
    rcases List.mem_cons.mp he with rfl | he
    · have hnum : (P.blockId b).num = c.length + 1 := h.num_headId
      obtain ⟨hlt, hid, hblock⟩ := hstored.1
      unfold BlockDatabase.contains
      rw [hnum]
      exact decide_eq_true ⟨P.blockId_ne_zero b, hlt, hid, hblock⟩
    · exact contains_of_stored h.2 hstored.2 e he

theorem isKnownBlock_of_onChain (h : NodeInv P s) {id : BlockId} (hid : OnChain P s id) :
    isKnownBlock P s id = true := by
  obtain ⟨e, he, rfl⟩ := hid
  unfold isKnownBlock
  rw [contains_of_stored h.tracked.linked h.recorded.ids e he, Bool.or_true]

/-- Up to the head, the blocks that are included are those of the chain. -/
theorem isIncludedBlock_eq (h : NodeInv P s) {id : BlockId} (hpos : 0 < id.num)
    (hle : id.num ≤ s.chain.length) : ∃ included, isIncludedBlock s id = .ok included ∧
      (included = true ↔ OnChain P s id) := by
  unfold isIncludedBlock
  rw [getBlockIdForNum_eq h hpos hle]
  refine ⟨_, rfl, ?_⟩
  rw [onChain_iff h.tracked.linked, decide_eq_true_iff]
  exact ⟨fun heq => ⟨hpos, hle, heq.symm⟩, fun hchain => hchain.2.2.symm⟩

/-- Whatever is found to be included is a block of the chain. -/
theorem onChain_of_included (h : NodeInv P s) {id : BlockId} (hincluded : isIncludedBlock s id = .ok true) :
    OnChain P s id := by
  cases hget : s.getBlockIdForNum id.num with
  | error e =>
    unfold isIncludedBlock at hincluded
    rw [hget] at hincluded
    cases hincluded
  | ok id' =>
    obtain ⟨hpos, hle⟩ := getBlockIdForNum_ok h hget
    obtain ⟨included, heq, hiff⟩ := isIncludedBlock_eq h hpos hle
    rw [heq] at hincluded
    exact hiff.mp (Except.ok.inj hincluded)

/-! ### The search -/

theorem lastKnownBlockId_cons {id : BlockId} (hid : id ≠ .zero) (ids : List BlockId) :
    lastKnownBlockId P s (id :: ids) = if isKnownBlock P s id then do
      let included ← (isIncludedBlock s id).mapError .chain
      if included then return id else lastKnownBlockId P s ids
    else lastKnownBlockId P s ids := by
  rw [lastKnownBlockId, if_neg hid]

/-- A block of the chain ends the search. -/
theorem lastKnownBlockId_of_onChain (h : NodeInv P s) {id : BlockId} (hid : OnChain P s id)
    (ids : List BlockId) : lastKnownBlockId P s (id :: ids) = .ok id := by
  obtain ⟨hpos, hle, -⟩ := (onChain_iff h.tracked.linked).mp hid
  have hne : id ≠ .zero := by
    rintro rfl
    exact absurd hpos (Nat.lt_irrefl 0)
  obtain ⟨included, heq, hiff⟩ := isIncludedBlock_eq h hpos hle
  rw [lastKnownBlockId_cons hne, if_pos (isKnownBlock_of_onChain h hid), heq, hiff.mpr hid]
  rfl

/-- **The search** finds the highest block of the chain, when the ids go down. -/
theorem lastKnownBlockId_ok (h : NodeInv P s) : ∀ {ids : List BlockId} {id : BlockId},
    (∀ i ∈ ids, 0 < i.num) → (ids.Pairwise fun i j => j.num < i.num) →
    lastKnownBlockId P s ids = .ok id →
      id ∈ ids ∧ OnChain P s id ∧ ∀ j ∈ ids, OnChain P s j → j.num ≤ id.num
  | [], _, _, _, hok => by cases hok
  | i :: ids, id, hpos, hdown, hok => by
    have hne : i ≠ .zero := by
      rintro rfl
      exact absurd (hpos _ List.mem_cons_self) (Nat.lt_irrefl 0)
    obtain ⟨hbelow, hrest⟩ := List.pairwise_cons.mp hdown
    by_cases hchain : OnChain P s i
    · rw [lastKnownBlockId_of_onChain h hchain] at hok
      obtain rfl := Except.ok.inj hok
      refine ⟨List.mem_cons_self, hchain, fun j hj _ => ?_⟩
      rcases List.mem_cons.mp hj with rfl | hj
      · exact Nat.le_refl _
      · exact (hbelow j hj).le
    · -- the search goes on, since an included block would be on the chain
      have hskip : lastKnownBlockId P s ids = .ok id := by
        rw [lastKnownBlockId_cons hne] at hok
        by_cases hknown : isKnownBlock P s i = true
        · rw [if_pos hknown] at hok
          cases hincluded : isIncludedBlock s i with
          | error e =>
            rw [hincluded] at hok
            cases hok
          | ok included =>
            rw [hincluded] at hok
            cases included with
            | false => exact hok
            | true => exact absurd (onChain_of_included h hincluded) hchain
        · rwa [if_neg hknown] at hok
      obtain ⟨hmem, hfound, hhighest⟩ := lastKnownBlockId_ok h
        (fun j hj => hpos j (List.mem_cons_of_mem _ hj)) hrest hskip
      refine ⟨List.mem_cons_of_mem _ hmem, hfound, fun j hj hj' => ?_⟩
      rcases List.mem_cons.mp hj with rfl | hj
      · exact absurd hj' hchain
      · exact hhighest j hj hj'

/-- The search finds something, when a block of the chain is there and no known block is above the
head. -/
theorem lastKnownBlockId_returns (h : NodeInv P s) : ∀ {ids : List BlockId},
    (∀ i ∈ ids, 0 < i.num) → (∀ i ∈ ids, isKnownBlock P s i = true → i.num ≤ s.chain.length) →
    (∃ i ∈ ids, OnChain P s i) → ∃ id, lastKnownBlockId P s ids = .ok id
  | [], _, _, hsome => by
    obtain ⟨i, hi, -⟩ := hsome
    exact absurd hi List.not_mem_nil
  | i :: ids, hpos, hle, hsome => by
    by_cases hchain : OnChain P s i
    · exact ⟨i, lastKnownBlockId_of_onChain h hchain ids⟩
    have hipos := hpos i List.mem_cons_self
    have hne : i ≠ .zero := by
      rintro rfl
      exact absurd hipos (Nat.lt_irrefl 0)
    obtain ⟨id, hid⟩ : ∃ id, lastKnownBlockId P s ids = .ok id := by
      refine lastKnownBlockId_returns h (fun j hj => hpos j (List.mem_cons_of_mem _ hj))
        (fun j hj => hle j (List.mem_cons_of_mem _ hj)) ?_
      obtain ⟨j, hj, hj'⟩ := hsome
      rcases List.mem_cons.mp hj with rfl | hj
      · exact absurd hj' hchain
      · exact ⟨j, hj, hj'⟩
    refine ⟨id, ?_⟩
    rw [lastKnownBlockId_cons hne]
    by_cases hknown : isKnownBlock P s i = true
    · obtain ⟨included, heq, hiff⟩ := isIncludedBlock_eq h hipos (hle i List.mem_cons_self hknown)
      have hfalse : included = false := Bool.eq_false_iff.mpr fun htrue => hchain (hiff.mp htrue)
      rw [if_pos hknown, heq, hfalse]
      exact hid
    · rw [if_neg hknown]
      exact hid

/-! ### The loop -/

theorem chainIds_succ (start count : ℕ) :
    chainIds P s start (count + 1) = chainId P s start :: chainIds P s (start + 1) count := by
  unfold chainIds
  rw [List.range'_succ, List.map_cons]

/-- **The loop** collects the ids from the given number to the head, as far as there is room. -/
theorem blockIdsFrom_eq (h : NodeInv P s) (hfits : s.chain.length + 1 < 2 ^ 32) :
    ∀ (rounds num room : ℕ), 0 < num → s.chain.length + 1 ≤ num + rounds → num ≤ s.chain.length + 1 →
      blockIdsFrom s (rounds + 1) num room =
        .ok (chainIds P s num (min room (s.chain.length + 1 - num))) := by
  have hhead := h.tracked.head.headBlockNumber
  intro rounds
  induction rounds with
  | zero =>
    intro num room hpos hend hle
    have hover : ¬ (num ≤ s.objects.headBlockNumber ∧ 0 < room) := by omega
    have hcount : min room (s.chain.length + 1 - num) = 0 := by omega
    rw [blockIdsFrom, if_neg hover, hcount]
    rfl
  | succ rounds ih =>
    intro num room hpos hend hle
    rw [blockIdsFrom]
    by_cases hin : num ≤ s.objects.headBlockNumber ∧ 0 < room
    · have hlength : num ≤ s.chain.length := by omega
      have hnext : u32 ((num : ℤ) + 1) = num + 1 := u32_of_lt (by push_cast; rfl) (by omega)
      have hcount : min room (s.chain.length + 1 - num) =
          min (room - 1) (s.chain.length + 1 - (num + 1)) + 1 := by omega
      rw [if_pos hin, if_pos hpos, getBlockIdForNum_eq h hpos hlength, hnext,
        ih (num + 1) (room - 1) (Nat.succ_pos _) (by omega) (by omega), hcount, chainIds_succ]
      rfl
    · have hcount : min room (s.chain.length + 1 - num) = 0 := by omega
      rw [if_neg hin, hcount]
      rfl

/-- The loop starts with the first block when it is given number zero. -/
theorem blockIdsFrom_start (h : NodeInv P s) (hfits : s.chain.length + 1 < 2 ^ 32) {num : ℕ}
    (hnum : num ≤ s.chain.length) (room : ℕ) {fuel : ℕ} (hfuel : s.chain.length + 2 ≤ fuel) :
    blockIdsFrom s fuel num room =
      .ok (chainIds P s (max 1 num) (min room (s.chain.length + 1 - max 1 num))) := by
  obtain ⟨fuel, rfl⟩ := Nat.exists_eq_add_of_le' (by omega : 2 ≤ fuel)
  by_cases hzero : num = 0
  · have hhead := h.tracked.head.headBlockNumber
    rw [hzero, blockIdsFrom]
    by_cases hroom : 0 < room
    · rw [if_pos ⟨Nat.zero_le _, hroom⟩, if_neg (Nat.lt_irrefl 0)]
      exact blockIdsFrom_eq h hfits fuel 1 room Nat.one_pos (by omega) (by omega)
    · have hnone : room = 0 := by omega
      rw [if_neg fun hin => hroom hin.2, hnone, Nat.zero_min]
      rfl
  · have hmax : max 1 num = num := by omega
    rw [hmax]
    exact blockIdsFrom_eq h hfits (fuel + 1) num room (Nat.pos_of_ne_zero hzero) (by omega) (by omega)

/-- The number of the last of some ids of the chain. -/
theorem getLast?_chainIds (start : ℕ) {count : ℕ} (hcount : count ≠ 0) :
    (chainIds P s start count).getLast? = some (chainId P s (start + count - 1)) := by
  obtain ⟨n, rfl⟩ := Nat.exists_eq_succ_of_ne_zero hcount
  unfold chainIds
  rw [List.range'_concat, List.map_append, Nat.one_mul, List.map_singleton, List.getLast?_concat]
  rfl

theorem remainingItemCount_of_last (h : NodeInv P s) {ids : List BlockId} {id : BlockId}
    (hlast : ids.getLast? = some id) : remainingItemCount s ids = s.chain.length - id.num := by
  unfold remainingItemCount
  rw [hlast, h.tracked.head.headBlockNumber]
  dsimp only
  split <;> omega

end Chain

/-! ### Two nodes -/

section TwoNodes

variable {a b : Database Op R}

/-- Each block of a chain builds on the one before. -/
theorem exists_chainBlock {s : Database Op R} (h : ChainLinked P s.chain) {k : ℕ}
    (hk : k + 1 ≤ s.chain.length) :
    ∃ b, P.blockId b = chainId P s (k + 1) ∧ b.previous = chainId P s k := by
  have hlt : s.chain.length - (k + 1) < s.chain.length := by omega
  have hdrop := List.drop_eq_getElem_cons hlt
  have hback : s.chain.length - (k + 1) + 1 = s.chain.length - k := by omega
  have hlinked := h.drop (s.chain.length - (k + 1))
  rw [hdrop, hback] at hlinked
  refine ⟨s.chain[s.chain.length - (k + 1)].1, ?_, hlinked.1⟩
  unfold chainId
  rw [hdrop]
  rfl

/-- Chains that share a block share all blocks below it. -/
theorem sharedUpTo_of_eq (hid : HashesPrevious P) (ha : ChainLinked P a.chain)
    (hb : ChainLinked P b.chain) : ∀ {k : ℕ}, k ≤ a.chain.length → k ≤ b.chain.length →
      chainId P a k = chainId P b k → SharedUpTo P a b k
  | 0, hka, hkb, heq => ⟨hka, hkb, fun j hj => by rwa [Nat.le_zero.mp hj]⟩
  | k + 1, hka, hkb, heq => by
    obtain ⟨x, hx, hxprev⟩ := exists_chainBlock ha hka
    obtain ⟨y, hy, hyprev⟩ := exists_chainBlock hb hkb
    have hprev : chainId P a k = chainId P b k := by
      rw [← hxprev, ← hyprev]
      exact hid x y (hx.trans (heq.trans hy.symm))
    have hbelow := sharedUpTo_of_eq hid ha hb (Nat.le_of_succ_le hka) (Nat.le_of_succ_le hkb) hprev
    refine ⟨hka, hkb, fun j hj => ?_⟩
    rcases Nat.le_succ_iff.mp hj with hj | rfl
    · exact hbelow.agree j hj
    · exact heq

/-- A synopsis of the whole chain of a node with blocks. -/
structure SummarizesChain (P : Protocol Op R) (s : Database Op R) (ids : List BlockId) : Prop where
  first : ids.head? = some (chainId P s (max 1 s.lastNonUndoableBlockNum))
  mem : ∀ id ∈ ids, ∃ k, 0 < k ∧ k ≤ s.chain.length ∧ id = chainId P s k
  increasing : ids.Pairwise fun i j => i.num < j.num

theorem summarizesChain (h : NodeInv P a) (hlow : a.lastNonUndoableBlockNum ≤ a.chain.length) {n : ℕ}
    (hfits : a.chain.length + n + 1 < 2 ^ 32) {ids : List BlockId} (hids : Returns P a .zero n ids) :
    (a.chain = [] ∧ ids = []) ∨ SummarizesChain P a ids := by
  rcases synopsisRange_head h hlow with ⟨hempty, hrange⟩ | ⟨r, hrange, hc⟩
  · exact .inl ⟨hempty, hids.unique (returns_nil hrange)⟩
  · have hnum := num_chainId h.tracked.linked (Nat.le_refl a.chain.length)
    have hhigh : r.highBlockNum = a.chain.length := hc.high.trans hnum
    obtain ⟨ids', hreturns, hasc, -⟩ := returns_of_covered hrange hc (n := n) (by omega)
    obtain rfl := hids.unique hreturns
    rw [hnum, min_eq_left hlow] at hasc
    refine .inr ⟨hasc.head, fun id hmem => ?_, hasc.increasing⟩
    obtain ⟨k, hk, hkhigh, heq⟩ := hasc.mem id hmem
    exact ⟨k, by omega, by omega, heq⟩

theorem SummarizesChain.num_pos {s : Database Op R} {ids : List BlockId} (h : SummarizesChain P s ids)
    (hlinked : ChainLinked P s.chain) : ∀ id ∈ ids, 0 < id.num := by
  intro id hid
  obtain ⟨k, hpos, hk, rfl⟩ := h.mem id hid
  rwa [num_chainId hlinked hk]

theorem replies_of_start (hb : NodeInv P b) (hfits : b.chain.length + 1 < 2 ^ 32)
    (hne : b.chain ≠ []) (synopsis : List BlockId) (limit : ℕ) {id : BlockId}
    (hstart : replyStart P b synopsis = .ok id) (hle : id.num ≤ b.chain.length) :
    Replies P b synopsis limit
      (chainIds P b (max 1 id.num) (min limit (b.chain.length + 1 - max 1 id.num)))
      (remainingItemCount b
        (chainIds P b (max 1 id.num) (min limit (b.chain.length + 1 - max 1 id.num)))) := by
  have hhead : b.objects.headBlockNumber ≠ 0 := by
    rw [hb.tracked.head.headBlockNumber]
    exact fun hzero => hne (List.length_eq_zero_iff.mp hzero)
  refine ⟨b.chain.length + 2, fun fuel hfuel => ?_⟩
  unfold getBlockIds
  rw [if_neg hhead, hstart]
  change (do
    let ids ← blockIdsFrom b fuel id.num limit
    return (ids, remainingItemCount b ids) : Except BlockIdsError (List BlockId × ℕ)) = _
  rw [blockIdsFrom_start hb hfits hle limit hfuel]
  rfl

theorem replies_of_nil (hb : NodeInv P b) (hnil : b.chain = []) (synopsis : List BlockId) (limit : ℕ) :
    Replies P b synopsis limit [] 0 := by
  have hhead : b.objects.headBlockNumber = 0 := by
    rw [hb.tracked.head.headBlockNumber, hnil]
    rfl
  exact ⟨0, fun fuel _ => if_pos hhead⟩

theorem exists_start_of_replies (hb : NodeInv P b) (hne : b.chain ≠ []) {synopsis ids : List BlockId}
    {limit remaining : ℕ} (h : Replies P b synopsis limit ids remaining) :
    ∃ id, replyStart P b synopsis = .ok id := by
  obtain ⟨rounds, hrun⟩ := h
  have hreply := hrun rounds (Nat.le_refl _)
  have hhead : b.objects.headBlockNumber ≠ 0 := by
    rw [hb.tracked.head.headBlockNumber]
    exact fun hzero => hne (List.length_eq_zero_iff.mp hzero)
  unfold getBlockIds at hreply
  rw [if_neg hhead] at hreply
  cases hstart : replyStart P b synopsis with
  | error e =>
    rw [hstart] at hreply
    cases hreply
  | ok id => exact ⟨id, rfl⟩

theorem sharedUpTo_zero (a b : Database Op R) : SharedUpTo P a b 0 := by
  refine ⟨Nat.zero_le _, Nat.zero_le _, fun k hk => ?_⟩
  have hnone : ∀ s : Database Op R, chainId P s 0 = .zero := by
    intro s
    unfold chainId
    rw [Nat.sub_zero, List.drop_length]
    rfl
  rw [Nat.le_zero.mp hk, hnone, hnone]

/-- What the reply from a known start is. -/
theorem answer_of_start (hb : NodeInv P b) (hfits : b.chain.length + 1 < 2 ^ 32) (hne : b.chain ≠ [])
    {synopsis ids : List BlockId} {limit remaining : ℕ} {id : BlockId}
    (hstart : replyStart P b synopsis = .ok id) (hshared : SharedUpTo P a b id.num)
    (hmeets : (id.num = 0 ∧ synopsis = []) ∨ (0 < id.num ∧ chainId P b id.num ∈ synopsis))
    (hhighest : ∀ i ∈ synopsis, OnChain P b i → i.num ≤ id.num)
    (h : Replies P b synopsis limit ids remaining) : Answer P a b synopsis limit id.num ids remaining := by
  obtain ⟨rfl, rfl⟩ := h.unique (replies_of_start hb hfits hne _ _ hstart hshared.right)
  exact ⟨hmeets.imp_left fun h => ⟨h.1, .inl h.2⟩, hhighest, hshared, rfl,
    fun _ hlast => remainingItemCount_of_last hb hlast⟩

theorem replyStart_of_summarizes (ha : ChainLinked P a.chain) {synopsis : List BlockId}
    (h : SummarizesChain P a synopsis) :
    replyStart P b synopsis = lastKnownBlockId P b synopsis.reverse := by
  refine if_neg ?_
  rintro (rfl | rfl)
  · cases h.first
  · exact absurd (h.num_pos ha _ (List.mem_singleton.mpr rfl)) (Nat.lt_irrefl 0)

/-- **Every reply** to the synopsis of another node is an answer. -/
theorem answer_of_replies (hid : HashesPrevious P) (ha : NodeInv P a) (hb : NodeInv P b)
    (hfits : b.chain.length + 1 < 2 ^ 32) {synopsis ids : List BlockId} {limit remaining : ℕ}
    (hsynopsis : (a.chain = [] ∧ synopsis = []) ∨ SummarizesChain P a synopsis)
    (h : Replies P b synopsis limit ids remaining) :
    ∃ k, Answer P a b synopsis limit k ids remaining := by
  by_cases hnil : b.chain = []
  · obtain ⟨rfl, rfl⟩ := h.unique (replies_of_nil hb hnil synopsis limit)
    refine ⟨0, .inl ⟨rfl, .inr hnil⟩, fun i _ hi => ?_, sharedUpTo_zero a b, ?_, fun i hi => by cases hi⟩
    · obtain ⟨e, he, -⟩ := hi
      rw [hnil] at he
      exact absurd he List.not_mem_nil
    · rw [hnil]
      change [] = chainIds P b 1 (min limit 0)
      rw [Nat.min_zero]
      rfl
  rcases hsynopsis with ⟨-, rfl⟩ | hsum
  · exact ⟨0, answer_of_start hb hfits hnil (if_pos (.inl rfl)) (sharedUpTo_zero a b) (.inl ⟨rfl, rfl⟩)
      (fun i hi => absurd hi List.not_mem_nil) h⟩
  · obtain ⟨id, hstart⟩ := exists_start_of_replies hb hnil h
    have hsearch := hstart
    rw [replyStart_of_summarizes ha.tracked.linked hsum] at hsearch
    obtain ⟨hmem, hchain, hhighest⟩ := lastKnownBlockId_ok hb
      (fun i hi => hsum.num_pos ha.tracked.linked i (List.mem_reverse.mp hi))
      (List.pairwise_reverse.mpr hsum.increasing) hsearch
    rw [List.mem_reverse] at hmem
    obtain ⟨hpos, hle, heq⟩ := (onChain_iff hb.tracked.linked).mp hchain
    obtain ⟨k, -, hk, hka⟩ := hsum.mem id hmem
    have hnum : id.num = k := by rw [hka, num_chainId ha.tracked.linked hk]
    have hshared : SharedUpTo P a b id.num := by
      refine sharedUpTo_of_eq hid ha.tracked.linked hb.tracked.linked (hnum ▸ hk) hle ?_
      rw [heq, hnum, ← hka]
    refine ⟨id.num, answer_of_start hb hfits hnil hstart hshared (.inr ⟨hpos, ?_⟩) ?_ h⟩
    · rwa [heq]
    · exact fun i hi => hhighest i (List.mem_reverse.mpr hi)

/-- There is a reply, when the nodes share the first block of the synopsis. -/
theorem exists_reply (ha : NodeInv P a) (hb : NodeInv P b) (hfits : b.chain.length + 1 < 2 ^ 32)
    {synopsis : List BlockId} (limit : ℕ)
    (hsynopsis : (a.chain = [] ∧ synopsis = []) ∨ SummarizesChain P a synopsis)
    (hknown : ∀ id ∈ synopsis, isKnownBlock P b id = true → id.num ≤ b.chain.length) {m : ℕ}
    (hshared : SharedUpTo P a b m)
    (hmeet : a.chain = [] ∨ b.chain = [] ∨ max 1 a.lastNonUndoableBlockNum ≤ m) :
    ∃ ids remaining, Replies P b synopsis limit ids remaining := by
  by_cases hnil : b.chain = []
  · exact ⟨[], 0, replies_of_nil hb hnil synopsis limit⟩
  rcases hsynopsis with ⟨-, rfl⟩ | hsum
  · exact ⟨_, _, replies_of_start hb hfits hnil _ _ (if_pos (.inl rfl)) (Nat.zero_le _)⟩
  have hnil' : a.chain ≠ [] := by
    intro hempty
    obtain ⟨k, hpos, hk, -⟩ := hsum.mem _ (List.mem_of_mem_head? hsum.first)
    rw [hempty] at hk
    exact absurd (hpos.trans_le hk) (Nat.lt_irrefl 0)
  have hlow : max 1 a.lastNonUndoableBlockNum ≤ m := (hmeet.resolve_left hnil').resolve_left hnil
  have hpos : ∀ i ∈ synopsis.reverse, 0 < i.num :=
    fun i hi => hsum.num_pos ha.tracked.linked i (List.mem_reverse.mp hi)
  obtain ⟨id, hid⟩ := lastKnownBlockId_returns hb hpos
    (fun i hi => hknown i (List.mem_reverse.mp hi)) ⟨_, List.mem_reverse.mpr
      (List.mem_of_mem_head? hsum.first), by
        rw [hshared.agree _ hlow]
        exact onChain_chainId hb.tracked.linked (by omega) (hlow.trans hshared.right)⟩
  have hchain := (lastKnownBlockId_ok hb hpos (List.pairwise_reverse.mpr hsum.increasing) hid).2.1
  have hstart : replyStart P b synopsis = .ok id := by
    rw [replyStart_of_summarizes ha.tracked.linked hsum, hid]
  exact ⟨_, _, replies_of_start hb hfits hnil _ _ hstart ((onChain_iff hb.tracked.linked).mp hchain).2.1⟩

/-! ### Asking again -/

/-- A synopsis that ends with a block of the chain is answered from that block on. -/
theorem replyStart_of_last (hb : NodeInv P b) {synopsis : List BlockId} {k : ℕ} (hpos : 0 < k)
    (hk : k ≤ b.chain.length) (hlast : synopsis.getLast? = some (chainId P b k)) :
    replyStart P b synopsis = .ok (chainId P b k) := by
  have hne : chainId P b k ≠ .zero := by
    intro hzero
    have hnum := num_chainId hb.tracked.linked hk
    rw [hzero] at hnum
    exact absurd hpos (by rw [← hnum]; exact Nat.lt_irrefl 0)
  obtain ⟨rest, rfl⟩ := List.getLast?_eq_some_iff.mp hlast
  have hother : ¬ (rest ++ [chainId P b k] = [] ∨ rest ++ [chainId P b k] = [.zero]) := by
    rintro (hnil | hzero)
    · exact absurd hnil (List.append_ne_nil_of_right_ne_nil _ (List.cons_ne_nil _ _))
    · rw [hzero] at hlast
      exact hne (Option.some.inj hlast).symm
  unfold replyStart
  rw [if_neg hother, List.reverse_append]
  exact lastKnownBlockId_of_onChain hb (onChain_chainId hb.tracked.linked hpos hk) _

theorem chainIds_append (start m n : ℕ) :
    chainIds P b start m ++ chainIds P b (start + m) n = chainIds P b start (m + n) := by
  unfold chainIds
  rw [← List.map_append, ← List.range'_append_1]

/-- **Asking again** brings all later ids, when each reply has room for one new id at least. -/
theorem exchange_of_replies (hb : NodeInv P b) (hfits : b.chain.length + 1 < 2 ^ 32) (hne : b.chain ≠ [])
    {limit : ℕ} (hlimit : 2 ≤ limit) {next : List BlockId → List BlockId}
    (hnext : ∀ ids, (next ids).getLast? = ids.getLast?) :
    ∀ (d start : ℕ) (synopsis : List BlockId), b.chain.length - start < d → 0 < start →
      start ≤ b.chain.length → Replies P b synopsis limit
        (chainIds P b start (min limit (b.chain.length + 1 - start)))
        (remainingItemCount b (chainIds P b start (min limit (b.chain.length + 1 - start)))) →
      ∃ replies, Exchange P b limit next synopsis
          (chainIds P b start (min limit (b.chain.length + 1 - start)) :: replies) ∧
        chainIds P b start (min limit (b.chain.length + 1 - start)) ++
          (replies.map List.tail).flatten = chainIds P b start (b.chain.length + 1 - start) ∧
        (chainIds P b start (min limit (b.chain.length + 1 - start)) :: replies).IsChain
          fun r r' => r'.head? = r.getLast? := by
  intro d
  induction d with
  | zero => exact fun _ _ hd => absurd hd (Nat.not_lt_zero _)
  | succ d ih =>
    intro start synopsis hd hpos hle hreplies
    set count := min limit (b.chain.length + 1 - start) with hcount
    have hlast := getLast?_chainIds (P := P) (s := b) start (show count ≠ 0 by omega)
    have hremaining := remainingItemCount_of_last hb hlast
    rw [num_chainId hb.tracked.linked (by omega)] at hremaining
    rw [hremaining] at hreplies
    by_cases hend : b.chain.length - (start + count - 1) = 0
    · rw [hend] at hreplies
      refine ⟨[], .last hreplies, ?_, .singleton _⟩
      have hall : count = b.chain.length + 1 - start := by omega
      rw [List.map_nil, List.flatten_nil, List.append_nil, hall]
    · -- the next reply starts with the last id of this one
      have hstart : replyStart P b (next (chainIds P b start count)) =
          .ok (chainId P b (start + count - 1)) :=
        replyStart_of_last hb (by omega) (by omega) ((hnext _).trans hlast)
      have hagain := replies_of_start hb hfits hne _ limit hstart
        (by rw [num_chainId hb.tracked.linked (by omega)]; omega)
      have hmax : max 1 (start + count - 1) = start + count - 1 := by omega
      rw [num_chainId hb.tracked.linked (by omega), hmax] at hagain
      obtain ⟨replies, hexchange, hflat, hchain⟩ :=
        ih (start + count - 1) _ (by omega) (by omega) (by omega) hagain
      set count' := min limit (b.chain.length + 1 - (start + count - 1)) with hcount'
      refine ⟨_ :: replies, .more hreplies (Nat.pos_of_ne_zero hend) hexchange, ?_,
        List.isChain_cons_cons.mpr ⟨?_, hchain⟩⟩
      · obtain ⟨n, hn⟩ := Nat.exists_eq_succ_of_ne_zero (show count' ≠ 0 by omega)
        have hwhole : b.chain.length + 1 - (start + count - 1) = b.chain.length + 1 - (start + count) + 1 := by
          omega
        rw [hn, chainIds_succ, hwhole, chainIds_succ, List.cons_append] at hflat
        rw [hn, chainIds_succ, List.map_cons, List.flatten_cons, List.tail_cons,
          (List.cons.inj hflat).2]
        have hfrom : start + count - 1 + 1 = start + count := by omega
        have hsum : count + (b.chain.length + 1 - (start + count)) = b.chain.length + 1 - start := by omega
        rw [hfrom, chainIds_append, hsum]
      · obtain ⟨n, hn⟩ := Nat.exists_eq_succ_of_ne_zero (show count' ≠ 0 by omega)
        rw [hn, chainIds_succ, hlast]
        rfl

end TwoNodes

section Example

end Example

end FinChain.App
