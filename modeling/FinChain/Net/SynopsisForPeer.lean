import FinChain.App.ReferencePoint
import Mathlib.Data.List.GetD

/-!
# The synopsis for a peer

`create_blockchain_synopsis_for_peer` asks the application for a synopsis up to the last block of the peer that it has
seen, and adds ids from the list of blocks that the peer has announced after it. Each of the two runs the same loop from
the same low block. The first leaves it where its blocks end, and the second takes nothing before the first block of the
list, so that together they come by the blocks one loop over both would come by (`Stride.walk_append_filter`).

All numbers are `uint32_t`. A loop that lasts while a number is not above `UINT32_MAX` has no end.
-/

namespace FinChain.Net

open Exec Chain Database App

variable {Op R : Type} {P : Protocol Op R} {g : Objects R}

/-- What a `peer_connection` keeps about the blocks of the peer. -/
structure PeerConnection where
  /-- The blocks that the peer has told us about. -/
  idsOfItemsToGet : List BlockId := []
  /-- How many follow that the peer has not told us about. -/
  numberOfUnfetchedItemIds : ℕ := 0
  weNeedSyncItemsFromPeer : Bool := true
  /-- The synopsis of the last request, and when it was sent. -/
  itemIdsRequestedFromPeer : Option (List BlockId × ℕ) := none
  lastBlockDelegateHasSeen : BlockId := .zero
  lastBlockTimeDelegateHasSeen : ℕ := 0
  deriving DecidableEq

/-- How `create_blockchain_synopsis_for_peer` can go wrong. -/
inductive PeerSynopsisError
  | delegate (e : SynopsisError)
  /-- `original_ids_of_items_to_get` is indexed outside its bounds. -/
  | outOfBounds
  /-- The loop goes on. -/
  | running
  deriving DecidableEq

/-- What a round of the loop adds. -/
def missingElement (ids : List BlockId) (firstBlockNum lowBlockNum : ℕ) : Except PeerSynopsisError (List BlockId) :=
  if firstBlockNum ≤ lowBlockNum then
    match ids[lowBlockNum - firstBlockNum]? with
    | some id => .ok [id]
    | none => .error .outOfBounds
  else .ok []

/-- The loop, with a bound on the number of its rounds. -/
def missingElements (ids : List BlockId) (firstBlockNum trueHighBlockNum : ℕ) :
    ℕ → ℕ → Except PeerSynopsisError (List BlockId)
  | 0, _ => .error .running
  | fuel + 1, lowBlockNum => do
    let pushed ← missingElement ids firstBlockNum lowBlockNum
    let lowBlockNum := u32 (lowBlockNum + (u32 (trueHighBlockNum - lowBlockNum + 2) / 2 : ℕ))
    if lowBlockNum ≤ trueHighBlockNum then do
      let rest ← missingElements ids firstBlockNum trueHighBlockNum fuel lowBlockNum
      return pushed ++ rest
    else return pushed

/-- The low block of a synopsis: "the first block in the synopsis will be the low block number it used". -/
def lowBlockNum : List BlockId → ℕ
  | [] => 1
  | id :: _ => id.num

/-- `create_blockchain_synopsis_for_peer`, with the `get_blockchain_synopsis` of the delegate. -/
def createBlockchainSynopsisForPeer (synopsisOf : BlockId → ℕ → Except SynopsisError (List BlockId)) (fuel : ℕ)
    (peer : PeerConnection) : Except PeerSynopsisError (List BlockId) := do
  let referencePoint := peer.lastBlockDelegateHasSeen
  let originalIds := peer.idsOfItemsToGet
  let numberOfBlocksAfterReferencePoint := u32 originalIds.length
  let synopsis ← (synopsisOf referencePoint numberOfBlocksAfterReferencePoint).mapError .delegate
  if numberOfBlocksAfterReferencePoint = 0 then return synopsis
  else do
    let firstBlockNum := (originalIds.headD .zero).num
    let trueHighBlockNum := u32 (firstBlockNum + originalIds.length - 1)
    let missing ← missingElements originalIds firstBlockNum trueHighBlockNum fuel (lowBlockNum synopsis)
    return synopsis ++ missing

/-! ### The loop -/

section Loop

variable {ids : List BlockId} {first trueHigh : ℕ} {idOf : ℕ → BlockId}

/-- **The loop** ends, and adds the ids of the list that its strides come by. -/
theorem missingElements_walk (hids : ∀ k, first ≤ k → k ≤ trueHigh → ids[k - first]? = some (idOf k))
    (hfits : trueHigh + 1 < 2 ^ 32) {fuel low : ℕ} (hpos : 0 < low) (hlow : low ≤ trueHigh)
    (hfuel : trueHigh - low < fuel) : missingElements ids first trueHigh fuel low =
      .ok ((((halfway trueHigh).walk trueHigh low).filter (first ≤ ·)).map idOf) := by
  induction fuel generalizing low with
  | zero => exact absurd hfuel (Nat.not_lt_zero _)
  | succ fuel ih =>
    have hpushed : missingElement ids first low = .ok (([low].filter (first ≤ ·)).map idOf) := by
      unfold missingElement
      by_cases hfirst : first ≤ low
      · rw [if_pos hfirst, hids low hfirst hlow]
        simp [hfirst]
      · rw [if_neg hfirst]
        simp [hfirst]
    have hsplit : (halfway trueHigh).walk trueHigh low =
        [low] ++ (halfway trueHigh).walk trueHigh ((halfway trueHigh).next low) := Stride.walk_of_le _ hlow
    have hup := (halfway trueHigh).lt_next low
    rw [missingElements, hpushed, hsplit, List.filter_append, List.map_append, u32_halfway hpos hlow hfits]
    show (if (halfway trueHigh).next low ≤ trueHigh then
      (missingElements ids first trueHigh fuel ((halfway trueHigh).next low)).bind _ else _) = _
    by_cases hmore : (halfway trueHigh).next low ≤ trueHigh
    · rw [if_pos hmore, ih (by omega) hmore (by omega)]
      rfl
    · rw [if_neg hmore, Stride.walk_of_lt _ (Nat.lt_of_not_le hmore), List.filter_nil, List.map_nil, List.append_nil]
      rfl

end Loop

/-! ### One chain -/

/-- Ids with one block number after the other. -/
def Numbered (first : ℕ) (ids : List BlockId) : Prop := ids.map BlockId.num = List.range' first ids.length

/-- The id of the block with the given number, in a chain from the first block on. -/
def idAt (chain : List BlockId) (blockNum : ℕ) : BlockId := chain.getD (blockNum - 1) .zero

/-- The synopsis of one chain. -/
def halved (chain : List BlockId) (lowBlockNum : ℕ) : List BlockId :=
  ((halfway chain.length).walk chain.length lowBlockNum).map (idAt chain)

/-- Our blocks up to a reference point, given newest first, and the listed ids after them. -/
def joined (P : Protocol Op R) (path : List (SignedBlock Op)) (ids : List BlockId) : List BlockId :=
  (path.map P.blockId).reverse ++ ids

section Chain

variable {chain front ids : List BlockId} {first k low : ℕ}

theorem Numbered.append (h : Numbered first front) (hids : Numbered (first + front.length) ids) :
    Numbered first (front ++ ids) := by
  show (front ++ ids).map BlockId.num = List.range' first (front ++ ids).length
  rw [List.map_append, h, hids, List.length_append, List.range'_append_1]

/-- Each number is found at its place. -/
theorem Numbered.num_idAt (h : Numbered 1 chain) (hpos : 0 < k) (hk : k ≤ chain.length) :
    (idAt chain k).num = k := by
  have hlt : k - 1 < chain.length := by omega
  have hget : (chain.map BlockId.num)[k - 1]? = some (1 + 1 * (k - 1)) := by
    rw [h]
    exact List.getElem?_range' hlt
  rw [List.getElem?_map, List.getElem?_eq_getElem hlt, Option.map_some] at hget
  rw [idAt, List.getD_eq_getElem _ _ hlt, Option.some.inj hget]
  omega

/-- Each id is found under its number. -/
theorem Numbered.idAt_num (h : Numbered 1 chain) {id : BlockId} (hid : id ∈ chain) : idAt chain id.num = id := by
  obtain ⟨i, hi, rfl⟩ := List.getElem_of_mem hid
  have hself : idAt chain (i + 1) = chain[i] := List.getD_eq_getElem _ _ hi
  have hnum := h.num_idAt (Nat.succ_pos i) hi
  rw [hself] at hnum
  rw [hnum, hself]

variable (ids) in
/-- An id of the list, by its number in the whole chain. -/
theorem getElem?_eq_idAt (hk : front.length < k) (hle : k ≤ (front ++ ids).length) :
    ids[k - (front.length + 1)]? = some (idAt (front ++ ids) k) := by
  have hlt : k - 1 < (front ++ ids).length := by omega
  have hget : (front ++ ids)[k - 1]? = ids[k - (front.length + 1)]? := by
    rw [List.getElem?_append_right (by omega)]
    congr 1
    omega
  rw [← hget, List.getElem?_eq_getElem hlt, idAt, List.getD_eq_getElem _ _ hlt]

/-- What a synopsis of one chain is. -/
theorem Numbered.halved_spec (h : Numbered 1 chain) (hpos : 0 < low) (hlow : low ≤ chain.length) :
    (halved chain low).Pairwise (fun i j => i.num < j.num) ∧ (halved chain low).head? = some (idAt chain low) ∧
      (halved chain low).getLast? = chain.getLast? := by
  refine ⟨List.pairwise_map.mpr ((Stride.pairwise_walk _ _ _).imp_of_mem fun {j k} hj hk hjk => ?_), ?_, ?_⟩
  · obtain ⟨hlowj, hj⟩ := Stride.bounds_of_mem_walk _ hj
    obtain ⟨hlowk, hk⟩ := Stride.bounds_of_mem_walk _ hk
    rwa [h.num_idAt (by omega) hj, h.num_idAt (by omega) hk]
  · rw [halved, List.head?_map, Stride.head?_walk _ hlow, Option.map_some]
  · have hlt : chain.length - 1 < chain.length := by omega
    rw [halved, List.getLast?_map, getLast?_walk_halfway hlow, Option.map_some, List.getLast?_eq_getElem?,
      List.getElem?_eq_getElem hlt, idAt, List.getD_eq_getElem _ _ hlt]

/-- The blocks of a path, from the first on. -/
theorem numbered_of_descends {path : List (SignedBlock Op)} {id : BlockId} (h : Descends P id path) :
    Numbered 1 (path.map P.blockId).reverse ∧ path.length = id.num := by
  induction path generalizing id with
  | nil =>
    obtain rfl : id = .zero := h
    exact ⟨rfl, rfl⟩
  | cons b path ih =>
    obtain ⟨rfl, hdown⟩ := h
    obtain ⟨hnumbered, hlength⟩ := ih hdown
    have hnum : (P.blockId b).num = path.length + 1 := by
      rw [P.blockId_num, hlength]
      rfl
    rw [List.map_cons, List.reverse_cons]
    refine ⟨hnumbered.append ?_, hnum.symm⟩
    show [(P.blockId b).num] = [1 + (path.map P.blockId).reverse.length]
    rw [hnum, List.length_reverse, List.length_map, Nat.add_comm]

end Chain

/-! ### The two halves -/

/-- **The halves join**: what the delegate finds among the blocks up to the reference point, and what the loop adds
from the list. -/
theorem createBlockchainSynopsisForPeer_halved {synopsisOf : BlockId → ℕ → Except SynopsisError (List BlockId)}
    {peer : PeerConnection} {front : List BlockId} {low fuel : ℕ}
    (hnumbered : Numbered 1 (front ++ peer.idsOfItemsToGet)) (hpos : 0 < low)
    (hlow : low ≤ front.length ∨ front = [] ∧ low = 1)
    (hhalf : synopsisOf peer.lastBlockDelegateHasSeen peer.idsOfItemsToGet.length =
      .ok (((halfway (front.length + peer.idsOfItemsToGet.length)).walk front.length low).map
        (idAt (front ++ peer.idsOfItemsToGet))))
    (hfits : (front ++ peer.idsOfItemsToGet).length + 1 < 2 ^ 32)
    (hfuel : (front ++ peer.idsOfItemsToGet).length < fuel) :
    createBlockchainSynopsisForPeer synopsisOf fuel peer = .ok (halved (front ++ peer.idsOfItemsToGet) low) := by
  generalize hids : peer.idsOfItemsToGet = ids at *
  have hlength : (front ++ ids).length = front.length + ids.length := List.length_append
  have hu32 : u32 (ids.length : ℤ) = ids.length := u32_of_lt rfl (by omega)
  unfold createBlockchainSynopsisForPeer
  dsimp only
  rw [hids, hu32, hhalf]
  cases ids with
  | nil =>
    show Except.ok _ = Except.ok _
    rw [halved, List.append_nil]
    rfl
  | cons id rest =>
    have hfirst : id.num = front.length + 1 := by
      have hget := getElem?_eq_idAt (id :: rest) (Nat.lt_succ_self front.length)
        (by rw [hlength, List.length_cons]; omega)
      rw [Nat.sub_self] at hget
      rw [Option.some.inj hget]
      exact hnumbered.num_idAt (Nat.succ_pos _) (by rw [hlength, List.length_cons]; omega)
    have hhigh : u32 (id.num + (id :: rest).length - 1 : ℤ) = (front ++ id :: rest).length :=
      u32_of_lt (by omega) (by omega)
    have hlowBlock : lowBlockNum (((halfway (front.length + (id :: rest).length)).walk front.length low).map
        (idAt (front ++ id :: rest))) = low := by
      rcases hlow with hlow | ⟨rfl, rfl⟩
      · rw [Stride.walk_of_le _ hlow]
        exact hnumbered.num_idAt hpos (by omega)
      · have hnone := (halfway (([] : List BlockId).length + (id :: rest).length)).walk_of_lt Nat.one_pos
        exact congrArg (fun w => lowBlockNum (w.map (idAt ([] ++ id :: rest)))) hnone
    have hle : low ≤ (front ++ id :: rest).length := by
      rw [hlength, List.length_cons]
      rcases hlow with hlow | ⟨rfl, rfl⟩ <;> omega
    have hmissing := missingElements_walk (fun k hk hk' => getElem?_eq_idAt (id :: rest) hk hk') hfits hpos hle
      (show (front ++ id :: rest).length - low < fuel by omega)
    show (missingElements (id :: rest) id.num (u32 (id.num + (id :: rest).length - 1 : ℤ)) fuel
      (lowBlockNum (((halfway (front.length + (id :: rest).length)).walk front.length low).map
        (idAt (front ++ id :: rest))))).bind _ = _
    rw [hhigh, hlowBlock, hfirst, hmissing]
    show Except.ok _ = Except.ok _
    rw [← hlength, ← List.map_append]
    have hjoin := (halfway (front ++ id :: rest).length).walk_append_filter
      (hlength ▸ Nat.le_add_right front.length (id :: rest).length) low
    exact congrArg (fun w => Except.ok (w.map (idAt (front ++ id :: rest)))) hjoin

/-! ### Nodes -/

/-- The blocks up to the reference point and the list after them are one chain. -/
theorem numbered_joined {path : List (SignedBlock Op)} {id : BlockId} {ids : List BlockId}
    (hdown : Descends P id path) (hids : Numbered (id.num + 1) ids) : Numbered 1 (joined P path ids) := by
  obtain ⟨hnumbered, hlength⟩ := numbered_of_descends hdown
  refine hnumbered.append ?_
  rwa [List.length_reverse, List.length_map, hlength, Nat.add_comm]

theorem length_joined (path : List (SignedBlock Op)) (ids : List BlockId) :
    (joined P path ids).length = path.length + ids.length := by
  rw [joined, List.length_append, List.length_reverse, List.length_map]

/-- Without blocks there is no range, and the reference point is the one before the first block. -/
theorem target_of_no_range {s : Database Op R} (h : NodeInv P s) {id : BlockId} (hempty : s.chain = [])
    (hrange : synopsisRange P s id = .ok none) : synopsisTarget s id = .zero := by
  have hzero : id = .zero := by
    by_contra hne
    unfold synopsisRange at hrange
    rw [if_pos hne] at hrange
    obtain ⟨included, -, hrange⟩ := except_bind_eq_ok.mp hrange
    split at hrange
    · cases hrange
    · obtain ⟨r, -, hrange⟩ := except_bind_eq_ok.mp hrange
      cases hrange
  rw [synopsisTarget, if_pos hzero, h.tracked.head.headBlockId, hempty]
  rfl

/-- The delegate's half: a walk along the one chain, as far as our blocks go. -/
theorem returns_half {s : Database Op R} (h : NodeInv P s) (hid : HashesPrevious P) {id : BlockId}
    (hundo : id = .zero → s.undo.saved.length ≤ s.objects.headBlockNumber)
    (hfits : max s.objects.headBlockNumber id.num < 2 ^ 32) (hsum : Summarizable P s id) {ids : List BlockId}
    (hids : Numbered ((synopsisTarget s id).num + 1) ids)
    (hend : (synopsisTarget s id).num + ids.length + 1 < 2 ^ 32) :
    ∃ path, Descends P (synopsisTarget s id) path ∧
      (startNum s (synopsisTarget s id) ≤ path.length ∨ path = [] ∧ startNum s (synopsisTarget s id) = 1) ∧
      Returns P s id ids.length (((halfway (path.length + ids.length)).walk path.length
        (startNum s (synopsisTarget s id))).map (idAt (joined P path ids))) := by
  rcases synopsisRange_of_summarizable h hid hundo hfits hsum with ⟨hempty, hrange⟩ | ⟨r, idOf, hrange, hc⟩
  · have htarget := target_of_no_range h hempty hrange
    have hstart : startNum s (synopsisTarget s id) = 1 := by
      rw [htarget]
      show max 1 (min _ 0) = 1
      omega
    refine ⟨[], htarget, .inr ⟨rfl, hstart⟩, ?_⟩
    have hnone := (halfway (0 + ids.length)).walk_of_lt Nat.one_pos
    rw [hstart]
    show Returns P s id _ (((halfway (0 + ids.length)).walk 0 1).map _)
    rw [hnone]
    exact returns_nil hrange
  · obtain ⟨path, hdown, hpath⟩ := hc.path
    have hhigh : r.highBlockNum = path.length := by rw [hc.high, (numbered_of_descends hdown).2]
    have hreturns := returns_walk (n := ids.length) hrange hc (by rw [hc.high]; exact hend)
    refine ⟨path, hdown, .inl (hhigh ▸ hc.startNum_le), ?_⟩
    rw [hhigh] at hreturns
    have hsame : ∀ k ∈ (halfway (path.length + ids.length)).walk path.length (startNum s (synopsisTarget s id)),
        idOf k = idAt (joined P path ids) k := by
      intro k hk
      obtain ⟨hlow, hle⟩ := Stride.bounds_of_mem_walk _ hk
      have hpos : 0 < k := (le_max_left 1 _ : 0 < startNum s (synopsisTarget s id)).trans_le hlow
      obtain ⟨b, hb, hblock⟩ := hpath k hpos (hle.trans_eq hhigh.symm)
      have hmem : idOf k ∈ joined P path ids := by
        rw [← hblock]
        exact List.mem_append_left _ (List.mem_reverse.mpr (List.mem_map_of_mem hb))
      have hfound := (numbered_joined hdown hids).idAt_num hmem
      rw [hc.found.num k hpos (hle.trans_eq hhigh.symm)] at hfound
      exact hfound.symm
    rwa [List.map_congr_left hsame] at hreturns

/-- The call returns the given ids, after as many rounds of its loops as it needs. -/
def ReturnsForPeer (P : Protocol Op R) (s : Database Op R) (peer : PeerConnection) (synopsis : List BlockId) : Prop :=
  ∃ rounds, ∀ fuel, rounds ≤ fuel →
    createBlockchainSynopsisForPeer (getBlockchainSynopsis P s fuel) fuel peer = .ok synopsis

/-- A synopsis of one chain: its numbers increase, it starts with the low block, and it ends with the last id. -/
structure OfChain (chain : List BlockId) (low : ℕ) (synopsis : List BlockId) : Prop where
  eq_halved : synopsis = halved chain low
  increasing : synopsis.Pairwise fun i j => i.num < j.num
  head : chain ≠ [] → synopsis.head?.map BlockId.num = some low
  last : synopsis.getLast? = chain.getLast?

theorem ofChain_halved {chain : List BlockId} {low : ℕ} (h : Numbered 1 chain) (hpos : 0 < low)
    (hlow : low ≤ chain.length ∨ chain = []) : OfChain chain low (halved chain low) := by
  rcases hlow with hlow | rfl
  · obtain ⟨hincreasing, hhead, hlast⟩ := h.halved_spec hpos hlow
    refine ⟨rfl, hincreasing, fun _ => ?_, hlast⟩
    rw [hhead, Option.map_some, h.num_idAt hpos hlow]
  · have hnil : halved [] low = [] := congrArg (List.map _) (Stride.walk_of_lt _ hpos)
    rw [hnil]
    exact ⟨hnil.symm, .nil, fun hne => absurd rfl hne, rfl⟩

/-- **The two halves of a synopsis join.** In a running node, let the list of ids to fetch from a peer have one block
number after the other, from the one after the reference point on. If the reference point can be summarized, then the
call returns the synopsis of one chain, made of our blocks up to the reference point and the listed ids. Every other
reference point is refused with an exception of the delegate. -/
theorem synopsisForPeer_of_node (hg : Genesis g) (hid : HashesPrevious P) {s : Database Op R} (hs : NodeRun P g s)
    {peer : PeerConnection}
    (hundo : peer.lastBlockDelegateHasSeen = .zero → s.undo.saved.length ≤ s.objects.headBlockNumber)
    (hfits : max s.objects.headBlockNumber peer.lastBlockDelegateHasSeen.num < 2 ^ 32)
    (hids : Numbered ((synopsisTarget s peer.lastBlockDelegateHasSeen).num + 1) peer.idsOfItemsToGet)
    (hend : (synopsisTarget s peer.lastBlockDelegateHasSeen).num + peer.idsOfItemsToGet.length + 1 < 2 ^ 32) :
    (Summarizable P s peer.lastBlockDelegateHasSeen → ∃ path synopsis,
      Descends P (synopsisTarget s peer.lastBlockDelegateHasSeen) path ∧ ReturnsForPeer P s peer synopsis ∧
      OfChain (joined P path peer.idsOfItemsToGet) (startNum s (synopsisTarget s peer.lastBlockDelegateHasSeen))
        synopsis) ∧
    (¬ Summarizable P s peer.lastBlockDelegateHasSeen → ∃ e : SynopsisError, e.IsException ∧
      ∀ fuel, createBlockchainSynopsisForPeer (getBlockchainSynopsis P s fuel) fuel peer = .error (.delegate e)) := by
  have h := hs.inv hg
  constructor
  · intro hsum
    obtain ⟨path, hdown, hlow, rounds, hhalf⟩ := returns_half h hid hundo hfits hsum hids hend
    have hnumbered := numbered_joined hdown hids
    have hlength := length_joined (P := P) path peer.idsOfItemsToGet
    have hpath := (numbered_of_descends hdown).2
    have hpos : 0 < startNum s (synopsisTarget s peer.lastBlockDelegateHasSeen) := le_max_left 1 _
    have hfront : ((path.map P.blockId).reverse).length = path.length := by rw [List.length_reverse, List.length_map]
    refine ⟨path, _, hdown, ⟨max rounds (path.length + peer.idsOfItemsToGet.length + 1), fun fuel hfuel => ?_⟩,
      ofChain_halved hnumbered hpos ?_⟩
    · refine createBlockchainSynopsisForPeer_halved hnumbered hpos ?_ ?_ ?_ ?_
      · rw [hfront]
        exact hlow.imp_right fun hempty => ⟨by rw [hempty.1]; rfl, hempty.2⟩
      · rw [hfront]
        exact hhalf fuel ((le_max_left _ _).trans hfuel)
      · show (joined P path _).length + 1 < _
        omega
      · show (joined P path _).length < _
        omega
    · rcases hlow with hlow | ⟨rfl, hstart⟩
      · exact .inl (by omega)
      · -- without blocks the chain is the list
        rw [hstart]
        rcases List.eq_nil_or_concat (joined P [] peer.idsOfItemsToGet) with hnil | ⟨l, id, hchain⟩
        · exact .inr hnil
        · rw [hchain, List.concat_eq_append, List.length_append]
          exact .inl (Nat.le_add_left 1 l.length)
  · intro hsum
    obtain ⟨e, he, hrange⟩ := synopsisRange_of_not_summarizable h hid (by omega) hsum
    refine ⟨e, he, fun fuel => ?_⟩
    have hrefused : getBlockchainSynopsis P s fuel peer.lastBlockDelegateHasSeen
        (u32 peer.idsOfItemsToGet.length) = .error e := by
      unfold getBlockchainSynopsis
      rw [hrange]
      rfl
    unfold createBlockchainSynopsisForPeer
    dsimp only
    rw [hrefused]
    rfl

section Example

/-- A peer that has announced three blocks after our head. -/
private def ahead : PeerConnection :=
  { idsOfItemsToGet := [⟨6, 1⟩, ⟨7, 1⟩, ⟨8, 1⟩] }

theorem synopsisForPeer_of_node_ahead : ∃ path synopsis,
    Descends .permissive (synopsisTarget (grown 5) .zero) path ∧ ReturnsForPeer .permissive (grown 5) ahead synopsis ∧
    OfChain (joined .permissive path ahead.idsOfItemsToGet) (startNum (grown 5) (synopsisTarget (grown 5) .zero))
      synopsis :=
  (synopsisForPeer_of_node ⟨rfl, rfl, rfl⟩ Protocol.permissive_hash nodeRun_grown (fun _ => by decide +kernel)
    (by decide +kernel) (show Numbered _ ahead.idsOfItemsToGet by unfold Numbered; decide +kernel)
    (by decide +kernel)).1 .head

/-- A second block on the first one. -/
private def rival : SignedBlock ℕ := .empty (grown 1).objects.headBlockId 9 2

/-- The database has seen it. -/
private def seen : Database ℕ Unit := final (pushBlock .permissive rival) (grown 2)

/-- The blocks of the chain after that. -/
private def following : List (SignedBlock ℕ) := [nextBlock (grown 2), nextBlock (grown 3), nextBlock (grown 4)]

/-- A peer on this fork. -/
private def onFork : PeerConnection :=
  { idsOfItemsToGet := [⟨3, 1⟩], lastBlockDelegateHasSeen := Protocol.permissive.blockId rival }

/-- A fork from before the blocks that can still be undone: there is no synopsis. -/
theorem not_synopsisForPeer_of_node :
    ¬ ∀ (seen : Database ℕ Unit) (blocks : List (SignedBlock ℕ)) (peer : PeerConnection),
      NodeRun .permissive (Protocol.permissiveGenesis [0]) seen →
      NodeRun .permissive (Protocol.permissiveGenesis [0]) (pushAll .permissive seen blocks) →
      (seen.forkDb.find .permissive peer.lastBlockDelegateHasSeen).isSome = true →
      Numbered (peer.lastBlockDelegateHasSeen.num + 1) peer.idsOfItemsToGet →
      ∃ path synopsis, Descends .permissive peer.lastBlockDelegateHasSeen path ∧
        ReturnsForPeer .permissive (pushAll .permissive seen blocks) peer synopsis ∧
        OfChain (joined .permissive path peer.idsOfItemsToGet)
          (startNum (pushAll .permissive seen blocks) peer.lastBlockDelegateHasSeen) synopsis := by
  intro hall
  have hseen : NodeRun .permissive (Protocol.permissiveGenesis [0]) seen :=
    nodeRun_push (nodeRun_grown_of_le 2 (by decide)) rival (by decide +kernel)
  have hrun : NodeRun .permissive (Protocol.permissiveGenesis [0]) (pushAll .permissive seen following) :=
    nodeRun_push (nodeRun_push (nodeRun_push hseen (nextBlock (grown 2)) (by decide +kernel))
      (nextBlock (grown 3)) (by decide +kernel)) (nextBlock (grown 4)) (by decide +kernel)
  obtain ⟨path, synopsis, -, ⟨rounds, hreturns⟩, -⟩ := hall seen following onFork hseen hrun (by decide +kernel)
    (by unfold Numbered; decide +kernel)
  -- the fork database has dropped the fork
  have hrange : synopsisRange .permissive (pushAll .permissive seen following) onFork.lastBlockDelegateHasSeen =
      .error (.chain .assertion) := by decide +kernel
  obtain ⟨half, hhalf, -⟩ := except_bind_eq_ok.mp (hreturns rounds (Nat.le_refl rounds))
  unfold getBlockchainSynopsis at hhalf
  rw [hrange] at hhalf
  cases hhalf

end Example

end FinChain.Net
