import FinChain.Net.SynopsisForPeer
import Mathlib.Data.List.Chain
import Mathlib.Data.List.DropRight

/-!
# Inventories of block ids

A peer answers a synopsis with the ids of its blocks from there on, and `on_blockchain_item_ids_inventory_message` adds
them to the list of ids to fetch from this peer. Two things are checked of the ids: their block numbers follow each other,
and the first is from the synopsis, or is the first block if the synopsis was empty.

Block numbers are `uint32_t`, and one number follows another in this arithmetic (`Consecutive`). The ids that are in the
list afterwards are some first ids of the list before, and some last ids of the reply (`Merged.consecutive`).

The list is a good one after every reply, but the id that the peer is taken to be at may be one that nobody knows
(`inventory_iff`). The type of the items comes with the reply, so that an id of a transaction passes for a known
block; and when a synopsis was empty, nothing is known about the first id of a reply that has none of the ids in the
list.
-/

namespace FinChain.Net

open Exec Chain App

/-- `graphene::net::block_message_type` -/
def blockMessageType : ℕ := 1001

/-- `trx_message_type` -/
def trxMessageType : ℕ := 1000

/-- `GRAPHENE_MIN_BLOCK_INTERVAL` -/
def MIN_BLOCK_INTERVAL : ℕ := 1

/-- `GRAPHENE_NET_FUTURE_SYNC_BLOCKS_GRACE_PERIOD_SEC` -/
def FUTURE_SYNC_BLOCKS_GRACE_PERIOD_SEC : ℕ := 60 * 60

/-- `GRAPHENE_NET_MIN_BLOCK_IDS_TO_PREFETCH` -/
def MIN_BLOCK_IDS_TO_PREFETCH : ℕ := 10000

/-- `blockchain_item_ids_inventory_message` -/
structure BlockchainItemIdsInventoryMessage where
  totalRemainingItemCount : ℕ
  itemType : ℕ
  itemHashesAvailable : List BlockId

/-- What a node asks its `node_delegate`. -/
structure SyncDelegate where
  /-- `has_item`, of an item type and a hash. -/
  hasItem : ℕ → BlockId → Bool
  getBlockTime : BlockId → ℕ
  getBlockchainSynopsis : BlockId → ℕ → Except SynopsisError (List BlockId)

/-- What `node_impl` keeps for its synchronization. -/
structure SyncNode where
  /-- The connection that the message came from. -/
  peer : PeerConnection
  /-- The rest of `_active_connections`. -/
  others : List PeerConnection := []
  syncItemType : ℕ := blockMessageType
  totalNumberOfUnfetchedItems : ℕ := 0
  /-- The calls of `sync_status`. -/
  syncStatus : List (ℕ × ℕ) := []
  deriving DecidableEq

/-- Why a peer is disconnected. -/
inductive Disconnection
  /-- "The list of blocks you provided is not sequential, the ${position}th block in their reply was block number
  ${actual_num}, but it should have been number ${expected_num}" -/
  | notSequential (position actualNum expectedNum : ℕ)
  /-- "I asked for blocks starting from the beginning of the chain, but you returned a list of blocks starting with
  ${first_block}" -/
  | notFromTheBeginning (firstBlock : BlockId)
  /-- "I asked for blocks following something in ${synopsis}, but you returned a list of blocks starting with
  ${first_block} which wasn't one of your choices" -/
  | notOneOfYourChoices (synopsis : List BlockId) (firstBlock : BlockId)
  /-- "You offered me a list of more sync blocks than could possibly exist." -/
  | tooManyBlocks (blocks minimumTimeOfLastOfferedBlock now : ℕ)
  /-- "You are on a fork I'm unable to switch to" -/
  | unableToSwitch
  deriving DecidableEq

/-- What the node does in the end. -/
inductive SyncOutcome
  /-- "I didn't ask for any!" -/
  | ignored
  | disconnected (reason : Disconnection)
  /-- "peer said we're up-to-date, entering normal operation with this peer" -/
  | upToDate
  /-- `trigger_fetch_sync_items_loop` -/
  | fetchSyncItems
  /-- A `fetch_blockchain_item_ids_message` is sent. -/
  | requested (synopsis : List BlockId)
  | thrown (e : PeerSynopsisError)
  deriving DecidableEq

/-! ### Replies -/

/-- The first id, from the given position on, whose block number is not the expected one. -/
def sequentialError (firstBlockNumber : ℕ) : ℕ → List BlockId → Option Disconnection
  | _, [] => none
  | i, id :: ids =>
    let expectedNum := u32 (firstBlockNumber + i)
    if id.num ≠ expectedNum then some (.notSequential i id.num expectedNum)
    else sequentialError firstBlockNumber (i + 1) ids

/-- What is wrong with a reply to a synopsis. -/
def replyError (synopsis : List BlockId) : List BlockId → Option Disconnection
  | [] => none
  | first :: rest =>
    match sequentialError first.num 1 rest with
    | some e => some e
    | none =>
      if synopsis = [] then if first.num ≠ 1 then some (.notFromTheBeginning first) else none
      else if first ∉ synopsis then some (.notOneOfYourChoices synopsis first) else none

/-- The peer has no items after the one we asked for. -/
def SaysUpToDate (d : SyncDelegate) (peer : PeerConnection) (m : BlockchainItemIdsInventoryMessage) : Prop :=
  m.totalRemainingItemCount = 0 ∧
    (m.itemHashesAvailable = [] ∨ m.itemHashesAvailable.length = 1 ∧
      ∀ id ∈ m.itemHashesAvailable.head?, d.hasItem m.itemType id = true) ∧
    peer.idsOfItemsToGet = [] ∧ peer.numberOfUnfetchedItemIds = 0

instance (d : SyncDelegate) (peer : PeerConnection) (m : BlockchainItemIdsInventoryMessage) :
    Decidable (SaysUpToDate d peer m) := by
  unfold SaysUpToDate
  infer_instance

/-! ### The list -/

/-- The delegate has seen the item, and the peer is taken to be there. -/
def PeerConnection.moveTo (d : SyncDelegate) (peer : PeerConnection) (id : BlockId) : PeerConnection :=
  { peer with lastBlockDelegateHasSeen := id, lastBlockTimeDelegateHasSeen := d.getBlockTime id }

/-- "popping item because delegate has already seen it" -/
def popSeen (d : SyncDelegate) (itemType : ℕ) : PeerConnection → List BlockId → PeerConnection × List BlockId
  | peer, [] => (peer, [])
  | peer, id :: ids =>
    if d.hasItem itemType id then popSeen d itemType (peer.moveTo d id) ids else (peer, id :: ids)

/-- Whether an item is the first one to get from another peer. -/
def isFirstItemForOtherPeer (others : List PeerConnection) (id : BlockId) : Bool :=
  others.any fun peer => peer.idsOfItemsToGet.head? = some id

/-- The list without what does not fit the reply, and what is left of the reply to add to it. -/
def mergeReceived (d : SyncDelegate) (others : List PeerConnection) (peer : PeerConnection) (itemType : ℕ) :
    List BlockId → PeerConnection × List BlockId
  | [] => (peer, [])
  | first :: rest =>
    if peer.idsOfItemsToGet = [] then
      -- flush any items this peer sent us that we've already received and processed from another peer
      if isFirstItemForOtherPeer others first then (peer, first :: rest) else popSeen d itemType peer (first :: rest)
    else
      -- pop items off the back of our existing list until we find our first item
      let ids := peer.idsOfItemsToGet.rdropWhile (· ≠ first)
      if ids = [] then ({ peer with idsOfItemsToGet := [] }.moveTo d first, rest)
      else ({ peer with idsOfItemsToGet := ids.dropLast }, first :: rest)

/-! ### The handler -/

/-- `calculate_unsynced_block_count_from_all_peers` -/
def SyncNode.unsyncedBlockCount (node : SyncNode) : ℕ :=
  ((node.peer :: node.others).map fun peer =>
    u32 (u32 peer.idsOfItemsToGet.length + peer.numberOfUnfetchedItemIds)).foldl max 0

/-- `fetch_next_batch_of_item_ids_from_peer` -/
def fetchNextBatchOfItemIdsFromPeer (d : SyncDelegate) (fuel now : ℕ) (peer : PeerConnection)
    (resetForkTrackingDataForPeer : Bool) : SyncOutcome × PeerConnection :=
  let peer := if resetForkTrackingDataForPeer then peer.moveTo d .zero else peer
  match createBlockchainSynopsisForPeer d.getBlockchainSynopsis fuel peer with
  | .ok synopsis => (.requested synopsis, { peer with itemIdsRequestedFromPeer := some (synopsis, now) })
  | .error (.delegate .blockOlderThanUndoHistory) => (.disconnected .unableToSwitch, peer)
  | .error e => (.thrown e, peer)

/-- The end of the handler: get more ids from the peer, or the items. -/
def SyncNode.fetchMore (d : SyncDelegate) (fuel now : ℕ) (node : SyncNode) (totalRemainingItemCount : ℕ) :
    SyncOutcome × SyncNode :=
  let fetchNextBatch :=
    let (outcome, peer) := fetchNextBatchOfItemIdsFromPeer d fuel now node.peer false
    (outcome, { node with peer })
  if totalRemainingItemCount ≠ 0 then
    if MIN_BLOCK_IDS_TO_PREFETCH < node.peer.idsOfItemsToGet.length then (.fetchSyncItems, node) else fetchNextBatch
  else if node.peer.idsOfItemsToGet ≠ [] then (.fetchSyncItems, node) else fetchNextBatch

/-- The peer with a reply in its list. -/
def SyncNode.received (d : SyncDelegate) (node : SyncNode) (m : BlockchainItemIdsInventoryMessage) : PeerConnection :=
  let peer := { node.peer with numberOfUnfetchedItemIds := m.totalRemainingItemCount }
  let (peer, itemHashesReceived) := mergeReceived d node.others peer m.itemType m.itemHashesAvailable
  { peer with
    idsOfItemsToGet := peer.idsOfItemsToGet ++ itemHashesReceived
    numberOfUnfetchedItemIds := m.totalRemainingItemCount }

/-- The handler, when the reply is in the list: are the blocks plausible, and what comes next? -/
def SyncNode.carryOn (d : SyncDelegate) (fuel now : ℕ) (node : SyncNode) (m : BlockchainItemIdsInventoryMessage) :
    SyncOutcome × SyncNode :=
  -- at any given time, there's a maximum number of blocks that can possibly be out there
  let minimumTimeOfLastOfferedBlock := u32 (node.peer.lastBlockTimeDelegateHasSeen +
    u32 (node.peer.numberOfUnfetchedItemIds * MIN_BLOCK_INTERVAL))
  if u32 (now + FUTURE_SYNC_BLOCKS_GRACE_PERIOD_SEC) < minimumTimeOfLastOfferedBlock then
    (.disconnected (.tooManyBlocks node.peer.numberOfUnfetchedItemIds minimumTimeOfLastOfferedBlock now), node)
  else
    let count := node.unsyncedBlockCount
    let status := if count ≠ node.totalNumberOfUnfetchedItems then [(m.itemType, count)] else []
    let node := { node with totalNumberOfUnfetchedItems := count, syncStatus := node.syncStatus ++ status }
    node.fetchMore d fuel now m.totalRemainingItemCount

/-- "entering normal operation with this peer" -/
def SyncNode.enterNormalOperation (node : SyncNode) (itemType : ℕ) : SyncNode :=
  let node := { node with peer.weNeedSyncItemsFromPeer := false }
  let count := node.unsyncedBlockCount
  let status := if count = 0 then [(itemType, 0)] else []
  { node with totalNumberOfUnfetchedItems := count, syncStatus := node.syncStatus ++ status }

/-- `on_blockchain_item_ids_inventory_message`, without its asserts. -/
def onBlockchainItemIdsInventoryMessage (d : SyncDelegate) (fuel now : ℕ) (node : SyncNode)
    (m : BlockchainItemIdsInventoryMessage) : SyncOutcome × SyncNode :=
  match node.peer.itemIdsRequestedFromPeer with
  | none => (.ignored, node)
  | some (synopsis, _) =>
    match replyError synopsis m.itemHashesAvailable with
    | some e => (.disconnected e, node)
    | none =>
      let node := { node with peer.itemIdsRequestedFromPeer := none }
      if SaysUpToDate d node.peer m then (.upToDate, node.enterNormalOperation m.itemType)
      else
        let node := { node with peer := node.received d m }
        node.carryOn d fuel now m

/-! ### Runs of ids -/

/-- Ids whose block numbers follow each other. -/
def Consecutive (ids : List BlockId) : Prop := ids.IsChain fun i j => j.num = u32 (i.num + 1)

section Consecutive

variable {ids rest : List BlockId} {first : BlockId}

theorem u32_u32_add (n : ℤ) (k : ℕ) : u32 (u32 n + k) = u32 (n + k) := by
  unfold u32
  omega

/-- What the check of a reply finds out. -/
theorem consecutive_of_sequential {n i : ℕ} (hfirst : u32 (first.num + 1) = u32 (n + i))
    (h : sequentialError n i rest = none) : Consecutive (first :: rest) := by
  induction rest generalizing first i with
  | nil => exact .singleton first
  | cons id rest ih =>
    unfold sequentialError at h
    by_cases hnum : id.num = u32 (n + i)
    · dsimp only at h
      rw [if_neg (not_not.mpr hnum)] at h
      refine .cons_cons (hnum.trans hfirst.symm) (ih ?_ h)
      rw [hnum]
      exact (u32_u32_add (n + i) 1).trans (congrArg u32 (by omega))
    · dsimp only at h
      rw [if_pos hnum] at h
      cases h

theorem consecutive_of_replyError {synopsis : List BlockId} (h : replyError synopsis ids = none) :
    Consecutive ids := by
  cases ids with
  | nil => exact .nil
  | cons first rest =>
    unfold replyError at h
    dsimp only at h
    cases hsequential : sequentialError first.num 1 rest with
    | none => exact consecutive_of_sequential rfl hsequential
    | some e =>
      rw [hsequential] at h
      cases h

theorem Consecutive.num_getElem (h : Consecutive (first :: rest)) (i : ℕ) (hi : i < rest.length) :
    (rest[i]).num = u32 (first.num + (i + 1 : ℕ)) := by
  induction rest generalizing first i with
  | nil => exact absurd hi (Nat.not_lt_zero i)
  | cons id rest ih =>
    obtain ⟨hid, hrest⟩ := List.isChain_cons_cons.mp h
    cases i with
    | zero => exact hid
    | succ i =>
      have hnum := ih hrest i (Nat.lt_of_succ_lt_succ hi)
      rw [hid, u32_u32_add] at hnum
      rw [List.getElem_cons_succ, hnum]
      exact congrArg u32 (by omega)

/-- No id comes twice, unless there are more ids than numbers. -/
theorem Consecutive.nodup (h : Consecutive ids) (hsize : ids.length ≤ 2 ^ 32) : ids.Nodup := by
  induction ids with
  | nil => exact .nil
  | cons first rest ih =>
    rw [List.length_cons] at hsize
    refine List.nodup_cons.mpr ⟨fun hmem => ?_, ih (List.IsChain.tail h) (by omega)⟩
    obtain ⟨i, hi, heq⟩ := List.getElem_of_mem hmem
    have hnum := h.num_getElem i hi
    rw [heq] at hnum
    unfold u32 at hnum
    omega

end Consecutive

/-! ### What is added -/

section Merge

variable {d : SyncDelegate} {itemType : ℕ} {peer : PeerConnection} {ids hashes : List BlockId}
  {others : List PeerConnection}

theorem popSeen_spec (d : SyncDelegate) (itemType : ℕ) (ids : List BlockId) (peer : PeerConnection) :
    (popSeen d itemType peer ids).1.idsOfItemsToGet = peer.idsOfItemsToGet ∧
      (popSeen d itemType peer ids).1.lastBlockDelegateHasSeen =
        (ids.takeWhile (d.hasItem itemType)).getLast?.getD peer.lastBlockDelegateHasSeen ∧
      (popSeen d itemType peer ids).2 = ids.dropWhile (d.hasItem itemType) := by
  induction ids generalizing peer with
  | nil => exact ⟨rfl, rfl, rfl⟩
  | cons id ids ih =>
    unfold popSeen
    by_cases hhas : d.hasItem itemType id = true
    · obtain ⟨hids, hseen, hrest⟩ := ih (peer.moveTo d id)
      rw [if_pos hhas, List.takeWhile_cons_of_pos hhas, List.dropWhile_cons_of_pos hhas, List.getLast?_cons]
      exact ⟨hids, hseen, hrest⟩
    · rw [if_neg hhas, List.takeWhile_cons_of_neg hhas, List.dropWhile_cons_of_neg hhas]
      exact ⟨rfl, rfl, rfl⟩

/-- What `rdropWhile` leaves ends with the id it looks for. -/
theorem rdropWhile_ne_spec {first : BlockId} (hmem : first ∈ ids) :
    ∃ kept, ids.rdropWhile (· ≠ first) = kept ++ [first] := by
  have hne : ids.rdropWhile (· ≠ first) ≠ [] := by
    intro hnil
    have hall := List.rdropWhile_eq_nil_iff.mp hnil first hmem
    exact absurd rfl (of_decide_eq_true hall)
  have hlast := List.rdropWhile_last_not _ ids hne
  refine ⟨(ids.rdropWhile (· ≠ first)).dropLast, ?_⟩
  have heq : (ids.rdropWhile (· ≠ first)).getLast hne = first := by simpa using hlast
  conv_lhs => rw [← List.dropLast_append_getLast hne, heq]

/-- The ways in which a reply gets into the list. -/
inductive Merged (d : SyncDelegate) (others : List PeerConnection) (peer : PeerConnection) (itemType : ℕ) :
    List BlockId → PeerConnection × List BlockId → Prop
  | nothing : Merged d others peer itemType [] (peer, [])
  | firstOfOther {first rest} : peer.idsOfItemsToGet = [] → isFirstItemForOtherPeer others first = true →
      Merged d others peer itemType (first :: rest) (peer, first :: rest)
  | flushed {first rest} : peer.idsOfItemsToGet = [] → isFirstItemForOtherPeer others first = false →
      Merged d others peer itemType (first :: rest) (popSeen d itemType peer (first :: rest))
  /-- The new list extends what is left of the old one. -/
  | extended {first rest kept} : kept ++ [first] <+: peer.idsOfItemsToGet →
      Merged d others peer itemType (first :: rest) ({ peer with idsOfItemsToGet := kept }, first :: rest)
  /-- "this happens when the peer has switched forks between the last inventory message and this one" -/
  | switched {first rest} : peer.idsOfItemsToGet ≠ [] → first ∉ peer.idsOfItemsToGet →
      Merged d others peer itemType (first :: rest) ({ peer with idsOfItemsToGet := [] }.moveTo d first, rest)

theorem merged (hashes : List BlockId) :
    Merged d others peer itemType hashes (mergeReceived d others peer itemType hashes) := by
  cases hashes with
  | nil => exact .nothing
  | cons first rest =>
    have hunfold : mergeReceived d others peer itemType (first :: rest) =
        if peer.idsOfItemsToGet = [] then
          if isFirstItemForOtherPeer others first then (peer, first :: rest)
          else popSeen d itemType peer (first :: rest)
        else if peer.idsOfItemsToGet.rdropWhile (· ≠ first) = [] then
          ({ peer with idsOfItemsToGet := [] }.moveTo d first, rest)
        else ({ peer with idsOfItemsToGet := (peer.idsOfItemsToGet.rdropWhile (· ≠ first)).dropLast },
          first :: rest) := rfl
    rw [hunfold]
    by_cases hempty : peer.idsOfItemsToGet = []
    · rw [if_pos hempty]
      by_cases hother : isFirstItemForOtherPeer others first = true
      · rw [if_pos hother]
        exact .firstOfOther hempty hother
      · rw [if_neg hother]
        exact .flushed hempty (Bool.eq_false_of_not_eq_true hother)
    rw [if_neg hempty]
    by_cases hmem : first ∈ peer.idsOfItemsToGet
    · obtain ⟨kept, hkept⟩ := rdropWhile_ne_spec hmem
      have hprefix := List.rdropWhile_prefix (· ≠ first) peer.idsOfItemsToGet
      rw [hkept] at hprefix
      rw [hkept, if_neg (List.append_ne_nil_of_right_ne_nil _ (List.cons_ne_nil _ _)), List.dropLast_concat]
      exact .extended hprefix
    · have hnil : peer.idsOfItemsToGet.rdropWhile (· ≠ first) = [] := by
        refine List.rdropWhile_eq_nil_iff.mpr fun id hid => decide_eq_true ?_
        rintro rfl
        exact hmem hid
      rw [if_pos hnil]
      exact .switched hempty hmem

/-- **The list after a reply**: some first ids of the list before, and some last ids of the reply. -/
theorem Merged.consecutive {r : PeerConnection × List BlockId} (h : Merged d others peer itemType hashes r)
    (hids : Consecutive peer.idsOfItemsToGet) (hreply : Consecutive hashes) :
    Consecutive (r.1.idsOfItemsToGet ++ r.2) ∧ r.1.idsOfItemsToGet <+: peer.idsOfItemsToGet ∧ r.2 <:+ hashes := by
  cases h with
  | nothing =>
    rw [List.append_nil]
    exact ⟨hids, List.prefix_refl _, List.suffix_refl _⟩
  | firstOfOther hempty _ =>
    rw [hempty]
    exact ⟨hreply, List.prefix_refl _, List.suffix_refl _⟩
  | @flushed first rest hempty _ =>
    obtain ⟨hsame, -, hrest⟩ := popSeen_spec d itemType (first :: rest) peer
    have hsuffix := List.dropWhile_suffix (l := first :: rest) (d.hasItem itemType)
    rw [hsame, hrest, hempty]
    exact ⟨List.IsChain.suffix hreply hsuffix, List.prefix_refl _, hsuffix⟩
  | @extended first rest kept hprefix =>
    obtain ⟨dropped, hdropped⟩ := hprefix
    have hkept : Consecutive (kept ++ [first]) := List.IsChain.left_of_append (hdropped ▸ hids)
    have hjoin := List.IsChain.append_overlap hkept
      (show List.IsChain _ ([first] ++ rest) from hreply) (List.cons_ne_nil _ _)
    rw [List.append_assoc] at hjoin
    exact ⟨hjoin, (List.prefix_append _ _).trans ⟨dropped, hdropped⟩, List.suffix_refl _⟩
  | switched _ _ => exact ⟨List.IsChain.tail hreply, List.nil_prefix, List.suffix_cons _ _⟩

end Merge

/-! ### What becomes of the peer -/

/-- What the reply may move the peer to: a block of the synopsis, or one that the delegate has. -/
def Known (d : SyncDelegate) (node : SyncNode) (synopsis : List BlockId) (id : BlockId) : Prop :=
  id ∈ synopsis ∨ d.hasItem node.syncItemType id = true

/-- A reply that only moves the peer to known blocks, or to where it is. -/
structure SeesKnown (d : SyncDelegate) (node : SyncNode) (synopsis : List BlockId)
    (m : BlockchainItemIdsInventoryMessage) : Prop where
  /-- The last of the items that are popped because the delegate has them, by the type the reply gives them. -/
  flushed : node.peer.idsOfItemsToGet = [] →
    (∀ id ∈ m.itemHashesAvailable.head?, isFirstItemForOtherPeer node.others id = false) →
    ∀ id ∈ (m.itemHashesAvailable.takeWhile (d.hasItem m.itemType)).getLast?,
      id = node.peer.lastBlockDelegateHasSeen ∨ Known d node synopsis id
  /-- The first item, when none of the list is left. -/
  switched : node.peer.idsOfItemsToGet ≠ [] → ∀ id ∈ m.itemHashesAvailable.head?, id ∉ node.peer.idsOfItemsToGet →
    id = node.peer.lastBlockDelegateHasSeen ∨ Known d node synopsis id

/-- A good list: its numbers follow each other, no id comes twice, and what is new in it is the end of the reply. -/
structure GoodList (node : SyncNode) (m : BlockchainItemIdsInventoryMessage) (ids : List BlockId) : Prop where
  consecutive : Consecutive ids
  nodup : ids.Nodup
  added : ∃ kept added, ids = kept ++ added ∧ kept <+: node.peer.idsOfItemsToGet ∧ added <:+ m.itemHashesAvailable

/-- What a reply must not corrupt. -/
structure Uncorrupted (d : SyncDelegate) (node : SyncNode) (synopsis : List BlockId)
    (m : BlockchainItemIdsInventoryMessage) (r : SyncOutcome × SyncNode) : Prop where
  list : (∃ reason, r.1 = .disconnected reason) ∨ GoodList node m r.2.peer.idsOfItemsToGet
  seen : r.2.peer.lastBlockDelegateHasSeen = node.peer.lastBlockDelegateHasSeen ∨
    r.2.peer.lastBlockDelegateHasSeen ∈ m.itemHashesAvailable ∧
      Known d node synopsis r.2.peer.lastBlockDelegateHasSeen

/-- The same list, at the same place. -/
def SameList (peer peer' : PeerConnection) : Prop :=
  peer'.idsOfItemsToGet = peer.idsOfItemsToGet ∧ peer'.lastBlockDelegateHasSeen = peer.lastBlockDelegateHasSeen

section Handler

variable {d : SyncDelegate} {fuel now sent : ℕ} {node : SyncNode} {m : BlockchainItemIdsInventoryMessage}
  {synopsis : List BlockId}

/-- A reply that changes nothing about the list. -/
theorem uncorrupted_of_sameList (hids : Consecutive node.peer.idsOfItemsToGet)
    (hsize : node.peer.idsOfItemsToGet.length + m.itemHashesAvailable.length ≤ 2 ^ 32)
    {r : SyncOutcome × SyncNode} (h : SameList node.peer r.2.peer) : Uncorrupted d node synopsis m r := by
  refine ⟨.inr ?_, .inl h.2⟩
  rw [h.1]
  exact ⟨hids, hids.nodup (by omega), _, [], (List.append_nil _).symm, List.prefix_refl _, List.nil_suffix⟩

theorem sameList_fetchNextBatch (d : SyncDelegate) (fuel now : ℕ) (peer : PeerConnection) :
    SameList peer (fetchNextBatchOfItemIdsFromPeer d fuel now peer false).2 := by
  unfold fetchNextBatchOfItemIdsFromPeer
  rw [if_neg Bool.false_ne_true]
  dsimp only
  split <;> exact ⟨rfl, rfl⟩

theorem sameList_fetchMore (node : SyncNode) (n : ℕ) : SameList node.peer (node.fetchMore d fuel now n).2.peer := by
  unfold SyncNode.fetchMore
  have hnext := sameList_fetchNextBatch d fuel now node.peer
  dsimp only
  split
  · split
    · exact ⟨rfl, rfl⟩
    · exact hnext
  · split
    · exact ⟨rfl, rfl⟩
    · exact hnext

theorem sameList_carryOn (d : SyncDelegate) (fuel now : ℕ) (node : SyncNode) (m : BlockchainItemIdsInventoryMessage) :
    SameList node.peer (node.carryOn d fuel now m).2.peer := by
  unfold SyncNode.carryOn
  dsimp only
  split
  · exact ⟨rfl, rfl⟩
  · apply sameList_fetchMore

variable (d fuel now m) in
/-- What the handler does with a reply to a request. -/
theorem handler_cases (hrequested : node.peer.itemIdsRequestedFromPeer = some (synopsis, sent)) :
    (∃ e, replyError synopsis m.itemHashesAvailable = some e ∧
      onBlockchainItemIdsInventoryMessage d fuel now node m = (.disconnected e, node)) ∨
    (replyError synopsis m.itemHashesAvailable = none ∧ SaysUpToDate d node.peer m ∧
      SameList node.peer (onBlockchainItemIdsInventoryMessage d fuel now node m).2.peer) ∨
    (replyError synopsis m.itemHashesAvailable = none ∧ ¬ SaysUpToDate d node.peer m ∧
      ∃ peer r, SameList node.peer peer ∧ Merged d node.others peer m.itemType m.itemHashesAvailable r ∧
        (onBlockchainItemIdsInventoryMessage d fuel now node m).2.peer.idsOfItemsToGet = r.1.idsOfItemsToGet ++ r.2 ∧
        (onBlockchainItemIdsInventoryMessage d fuel now node m).2.peer.lastBlockDelegateHasSeen =
          r.1.lastBlockDelegateHasSeen) := by
  have hhandler : onBlockchainItemIdsInventoryMessage d fuel now node m =
      match replyError synopsis m.itemHashesAvailable with
      | some e => (.disconnected e, node)
      | none =>
        if SaysUpToDate d { node.peer with itemIdsRequestedFromPeer := none } m then
          (.upToDate, ({ node with peer.itemIdsRequestedFromPeer := none } : SyncNode).enterNormalOperation m.itemType)
        else ({ node with
          peer := ({ node with peer.itemIdsRequestedFromPeer := none } : SyncNode).received d m } : SyncNode).carryOn
            d fuel now m := by
    unfold onBlockchainItemIdsInventoryMessage
    rw [hrequested]
  rw [hhandler]
  cases hreply : replyError synopsis m.itemHashesAvailable with
  | some e => exact .inl ⟨e, rfl, rfl⟩
  | none =>
    dsimp only
    by_cases hnews : SaysUpToDate d { node.peer with itemIdsRequestedFromPeer := none } m
    · rw [if_pos hnews]
      exact .inr (.inl ⟨rfl, hnews, rfl, rfl⟩)
    · rw [if_neg hnews]
      obtain ⟨hids, hseen⟩ := sameList_carryOn d fuel now
        { node with peer := ({ node with peer.itemIdsRequestedFromPeer := none } : SyncNode).received d m } m
      let peer := { node.peer with
        itemIdsRequestedFromPeer := none, numberOfUnfetchedItemIds := m.totalRemainingItemCount }
      exact .inr (.inr ⟨rfl, hnews, peer, _, ⟨rfl, rfl⟩, merged m.itemHashesAvailable, hids, hseen⟩)

/-- Where a reply moves the peer to. -/
theorem Merged.seen_iff (synopsis : List BlockId) {peer : PeerConnection} {r : PeerConnection × List BlockId}
    (h : Merged d node.others peer m.itemType m.itemHashesAvailable r) (hsame : SameList node.peer peer) :
    (r.1.lastBlockDelegateHasSeen = node.peer.lastBlockDelegateHasSeen ∨
      r.1.lastBlockDelegateHasSeen ∈ m.itemHashesAvailable ∧ Known d node synopsis r.1.lastBlockDelegateHasSeen) ↔
    SeesKnown d node synopsis m := by
  obtain ⟨hids, hseen⟩ := hsame
  generalize hhashes : m.itemHashesAvailable = hashes at h
  cases h with
  | nothing =>
    refine iff_of_true (.inl hseen) ⟨fun _ _ id hid => ?_, fun _ id hid => ?_⟩
    · rw [hhashes] at hid
      cases hid
    · rw [hhashes] at hid
      cases hid
  | @firstOfOther first rest hempty hother =>
    refine iff_of_true (.inl hseen) ⟨fun _ hfree => ?_, fun hne => absurd (hids ▸ hempty) hne⟩
    have hfirst := hfree first (by rw [hhashes]; rfl)
    rw [hother] at hfirst
    cases hfirst
  | @flushed first rest hempty hother =>
    obtain ⟨-, hlast, -⟩ := popSeen_spec d m.itemType (first :: rest) peer
    have hempty' : node.peer.idsOfItemsToGet = [] := hids ▸ hempty
    rw [hlast, hseen]
    cases hget : ((first :: rest).takeWhile (d.hasItem m.itemType)).getLast? with
    | none =>
      refine iff_of_true (.inl rfl) ⟨fun _ _ id hid => ?_, fun hne => absurd hempty' hne⟩
      rw [hhashes, hget] at hid
      cases hid
    | some last =>
      have hmem : last ∈ first :: rest := (List.takeWhile_sublist _).subset (List.mem_of_getLast? hget)
      show (last = _ ∨ last ∈ first :: rest ∧ Known d node synopsis last) ↔ _
      constructor
      · intro h
        refine ⟨fun _ _ id hid => ?_, fun hne => absurd hempty' hne⟩
        rw [hhashes, hget] at hid
        obtain rfl := Option.mem_some.mp hid
        exact h.imp_right And.right
      · intro h
        refine (h.flushed hempty' ?_ last (by rw [hhashes]; exact hget)).imp_right (And.intro hmem)
        intro id hid
        rw [hhashes] at hid
        obtain rfl := Option.mem_some.mp hid
        exact hother
  | @extended first rest kept hprefix =>
    have hmem : first ∈ node.peer.idsOfItemsToGet :=
      hids ▸ hprefix.subset (List.mem_append_right kept List.mem_cons_self)
    refine iff_of_true (.inl hseen) ⟨fun hempty => ?_, fun _ id hid hnot => ?_⟩
    · rw [hempty] at hmem
      cases hmem
    · rw [hhashes] at hid
      obtain rfl := Option.mem_some.mp hid
      exact absurd hmem hnot
  | @switched first rest hne hnot =>
    rw [hids] at hne hnot
    show (first = _ ∨ first ∈ first :: rest ∧ Known d node synopsis first) ↔ _
    constructor
    · intro h
      refine ⟨fun hempty => absurd hempty hne, fun _ id hid _ => ?_⟩
      rw [hhashes] at hid
      obtain rfl := Option.mem_some.mp hid
      exact h.imp_right And.right
    · intro h
      exact (h.switched hne first (by rw [hhashes]; rfl) hnot).imp_right (And.intro List.mem_cons_self)

/-- **Replies and the list.** Whatever a peer replies to a request, it is disconnected, or the list of the ids to get
from it has consecutive block numbers and no id twice, and what is new in it is the end of the reply. And the peer is only
moved to a block of the synopsis, or to one the delegate has, if and only if the reply is refused, or says that we are up
to date, or all items popped by its own item type lead to such a block, and its first item is one when none of the
list is left. -/
theorem inventory_iff (hrequested : node.peer.itemIdsRequestedFromPeer = some (synopsis, sent))
    (hids : Consecutive node.peer.idsOfItemsToGet)
    (hsize : node.peer.idsOfItemsToGet.length + m.itemHashesAvailable.length ≤ 2 ^ 32) :
    Uncorrupted d node synopsis m (onBlockchainItemIdsInventoryMessage d fuel now node m) ↔
      replyError synopsis m.itemHashesAvailable ≠ none ∨ SaysUpToDate d node.peer m ∨ SeesKnown d node synopsis m := by
  rcases handler_cases d fuel now m hrequested with
    ⟨e, hreply, hhandler⟩ | ⟨hreply, hnews, hsame⟩ | ⟨hreply, hnews, peer, r, hsame, hmerged, hlist, hseen⟩
  · rw [hhandler, hreply]
    exact iff_of_true ⟨.inl ⟨e, rfl⟩, .inl rfl⟩ (.inl nofun)
  · exact iff_of_true (uncorrupted_of_sameList hids hsize hsame) (.inr (.inl hnews))
  · obtain ⟨hconsecutive, hkept, hadded⟩ :=
      hmerged.consecutive (hsame.1 ▸ hids) (consecutive_of_replyError hreply)
    rw [hsame.1] at hkept
    have hgood : GoodList node m (onBlockchainItemIdsInventoryMessage d fuel now node m).2.peer.idsOfItemsToGet := by
      rw [hlist]
      refine ⟨hconsecutive, hconsecutive.nodup ?_, _, _, rfl, hkept, hadded⟩
      rw [List.length_append]
      exact (Nat.add_le_add hkept.length_le hadded.length_le).trans hsize
    have hiff := hmerged.seen_iff synopsis hsame
    rw [← hseen] at hiff
    constructor
    · intro h
      exact .inr (.inr (hiff.mp h.seen))
    · rintro (hrefused | hup | hknown)
      · exact absurd hreply hrefused
      · exact absurd hup hnews
      · exact ⟨.inr hgood, hiff.mpr hknown⟩

end Handler

section Example

/-- A delegate without blocks, that has an item of each id in a list. -/
private def knowing (items : List (ℕ × BlockId)) : SyncDelegate where
  hasItem itemType id := (itemType, id) ∈ items
  getBlockTime _ := 0
  getBlockchainSynopsis _ _ := .ok []

/-- A peer that we have asked with a synopsis, and have two ids from. -/
private def asked (synopsis : List BlockId) : SyncNode where
  peer := { idsOfItemsToGet := [⟨1, 1⟩, ⟨2, 1⟩], itemIdsRequestedFromPeer := some (synopsis, 0) }

/-- The reply of a peer that goes on. -/
private def next : BlockchainItemIdsInventoryMessage := ⟨0, blockMessageType, [⟨2, 1⟩, ⟨3, 1⟩]⟩

theorem inventory_iff_next :
    Uncorrupted (knowing []) (asked [⟨1, 1⟩, ⟨2, 1⟩]) [⟨1, 1⟩, ⟨2, 1⟩] next
        (onBlockchainItemIdsInventoryMessage (knowing []) 9 9 (asked [⟨1, 1⟩, ⟨2, 1⟩]) next) ↔
      replyError [⟨1, 1⟩, ⟨2, 1⟩] next.itemHashesAvailable ≠ none ∨
        SaysUpToDate (knowing []) (asked [⟨1, 1⟩, ⟨2, 1⟩]).peer next ∨
        SeesKnown (knowing []) (asked [⟨1, 1⟩, ⟨2, 1⟩]) [⟨1, 1⟩, ⟨2, 1⟩] next :=
  inventory_iff rfl (show List.IsChain _ [_, _] by decide) (by decide)

/-- The reply of a peer that has other blocks. -/
private def switching : BlockchainItemIdsInventoryMessage := ⟨0, blockMessageType, [⟨1, 2⟩, ⟨2, 2⟩]⟩

/-- A reply to an empty synopsis moves the peer to a block that nobody knows. -/
theorem not_inventory : ¬ ∀ (d : SyncDelegate) (fuel now sent : ℕ) (node : SyncNode) (synopsis : List BlockId)
    (m : BlockchainItemIdsInventoryMessage), node.peer.itemIdsRequestedFromPeer = some (synopsis, sent) →
      Consecutive node.peer.idsOfItemsToGet →
      node.peer.idsOfItemsToGet.length + m.itemHashesAvailable.length ≤ 2 ^ 32 →
      Uncorrupted d node synopsis m (onBlockchainItemIdsInventoryMessage d fuel now node m) := by
  intro hall
  have h := (hall (knowing []) 9 9 0 (asked []) [] switching rfl (show List.IsChain _ [_, _] by decide)
    (by decide)).seen
  revert h
  unfold Known
  decide +kernel

end Example

end FinChain.Net
