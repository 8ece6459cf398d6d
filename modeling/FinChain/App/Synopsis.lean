import FinChain.Chain.BlockIds
import FinChain.Lib.Strides

/-!
# The blockchain synopsis

`get_blockchain_synopsis` of the application, the summary of its chain that a node sends to a peer:
ids of blocks from the last one that can not be undone up to a reference point, half of the rest of
the way apart each time. Up to the common ancestor the ids come from the block database, above it
from the history of the fork.

All numbers of the function are `uint32_t` and wrap around, and the vector with the history of the
fork is indexed without a check. So the model has an outcome for an index outside its bounds, and one
for a loop that has not come to its end with the rounds it was given.

A reference point is one of three things (`Summarizable`): none at all, which stands for the head
block, a block of the chain, or a block of a fork that the fork database can follow back to the chain
and that leaves the chain no deeper than blocks can be undone. In all three cases the range of the
synopsis lies on one path of blocks (`Covered`), and the loop walks up this path
(`synopsisLoop_walk`). Every other reference point is refused with an exception.
-/

namespace FinChain.App

open Exec Chain Database

variable {Op R : Type} {P : Protocol Op R} {g : Objects R}

/-- How `get_blockchain_synopsis` can go wrong. -/
inductive SynopsisError
  /-- An exception of the database. -/
  | chain (e : ChainError)
  /-- `block_older_than_undo_history`: "Peer is are on a fork I'm unable to switch to". -/
  | blockOlderThanUndoHistory
  /-- `fork_history` is indexed outside its bounds. -/
  | outOfBounds
  /-- The loop goes on. -/
  | running
  deriving DecidableEq

/-- An exception, which the caller handles. -/
def SynopsisError.IsException : SynopsisError → Prop
  | .chain _ => True
  | .blockOlderThanUndoHistory => True
  | .outOfBounds => False
  | .running => False

/-- `is_included_block`. -/
def isIncludedBlock (s : Database Op R) (blockId : BlockId) : Except ChainError Bool := do
  let blockIdInPreferredChain ← s.getBlockIdForNum blockId.num
  return blockId = blockIdInPreferredChain

/-- The blocks a synopsis is taken from. -/
structure SynopsisRange where
  lowBlockNum : ℕ
  highBlockNum : ℕ
  nonForkHighBlockNum : ℕ
  forkHistory : List BlockId := []
  deriving DecidableEq

/-- The range up to a block of the chain. If it can not be undone any more, "we'll just pretend that
our head is actually the reference point". -/
def rangeOnChain (lowBlockNum : ℕ) (referencePoint : BlockId) : SynopsisRange where
  lowBlockNum := if referencePoint.num < lowBlockNum then referencePoint.num else lowBlockNum
  highBlockNum := referencePoint.num
  nonForkHighBlockNum := referencePoint.num

/-- The range up to a block of a fork. -/
def rangeOnFork (P : Protocol Op R) (s : Database Op R) (lowBlockNum : ℕ)
    (referencePoint : BlockId) : Except SynopsisError SynopsisRange := do
  let ids ← (s.getBlockIdsOnFork P referencePoint).mapError .chain
  let lastNonForkBlock := ids.getLast?.getD .zero
  let forkHistory := ids.dropLast.reverse
  let nonForkHighBlockNum := if lastNonForkBlock = .zero then 0 else lastNonForkBlock.num
  if nonForkHighBlockNum < lowBlockNum then .error .blockOlderThanUndoHistory
  else return {
    lowBlockNum
    highBlockNum := u32 (nonForkHighBlockNum + forkHistory.length)
    nonForkHighBlockNum
    forkHistory }

/-- The first half of `get_blockchain_synopsis`. There is no range when there are no blocks. -/
def synopsisRange (P : Protocol Op R) (s : Database Op R) (referencePoint : BlockId) :
    Except SynopsisError (Option SynopsisRange) :=
  let lowBlockNum := s.lastNonUndoableBlockNum
  if referencePoint ≠ .zero then do
    let included ← (isIncludedBlock s referencePoint).mapError .chain
    if included then return some (rangeOnChain lowBlockNum referencePoint)
    else do
      let r ← rangeOnFork P s lowBlockNum referencePoint
      return some r
  else if s.objects.headBlockNumber = 0 then .ok none
  else .ok (some {
    lowBlockNum
    highBlockNum := s.objects.headBlockNumber
    nonForkHighBlockNum := s.objects.headBlockNumber })

/-- The id of the block with the given number, from the chain or from the fork. -/
def SynopsisRange.idAt (r : SynopsisRange) (s : Database Op R) (blockNum : ℕ) :
    Except SynopsisError BlockId :=
  if blockNum ≤ r.nonForkHighBlockNum then (s.getBlockIdForNum blockNum).mapError .chain
  else match r.forkHistory[u32 (blockNum - r.nonForkHighBlockNum - 1)]? with
    | some id => .ok id
    | none => .error .outOfBounds

/-- The loop, with a bound on the number of its rounds. -/
def synopsisLoop (s : Database Op R) (r : SynopsisRange) (trueHighBlockNum : ℕ) :
    ℕ → ℕ → Except SynopsisError (List BlockId)
  | 0, _ => .error .running
  | fuel + 1, lowBlockNum => do
    let id ← r.idAt s lowBlockNum
    let lowBlockNum := u32 (lowBlockNum + u32 (trueHighBlockNum - lowBlockNum + 2) / 2)
    if lowBlockNum ≤ r.highBlockNum then do
      let ids ← synopsisLoop s r trueHighBlockNum fuel lowBlockNum
      return id :: ids
    else return [id]

/-- `get_blockchain_synopsis`. -/
def getBlockchainSynopsis (P : Protocol Op R) (s : Database Op R) (fuel : ℕ)
    (referencePoint : BlockId) (numberOfBlocksAfterReferencePoint : ℕ) :
    Except SynopsisError (List BlockId) := do
  let range ← synopsisRange P s referencePoint
  match range with
  | none => return []
  | some r =>
    let lowBlockNum := if r.lowBlockNum = 0 then 1 else r.lowBlockNum
    let trueHighBlockNum := u32 (r.highBlockNum + numberOfBlocksAfterReferencePoint)
    synopsisLoop s r trueHighBlockNum fuel lowBlockNum

/-! ### The loop -/

/-- The ids of a range are found, each with its own number. -/
structure Found (s : Database Op R) (r : SynopsisRange) (idOf : ℕ → BlockId) : Prop where
  idAt : ∀ k, 0 < k → k ≤ r.highBlockNum → r.idAt s k = .ok (idOf k)
  num : ∀ k, 0 < k → k ≤ r.highBlockNum → (idOf k).num = k

/-- The loop goes half of the rest of the way, and one block at least. -/
def halfway (trueHighBlockNum : ℕ) : Stride where
  next k := k + (trueHighBlockNum - k + 2) / 2
  lt_next k := by omega

theorem u32_halfway {trueHigh low : ℕ} (hpos : 0 < low) (hlow : low ≤ trueHigh)
    (hfits : trueHigh + 1 < 2 ^ 32) :
    u32 ((low : ℤ) + (u32 ((trueHigh : ℤ) - low + 2) / 2 : ℕ)) = (halfway trueHigh).next low := by
  have hinner : u32 ((trueHigh : ℤ) - low + 2) = trueHigh - low + 2 :=
    u32_of_lt (by omega) (by omega)
  have hnext : (halfway trueHigh).next low = low + (trueHigh - low + 2) / 2 := rfl
  rw [hinner, hnext]
  exact u32_of_lt (by omega) (by omega)

/-- The ids a round of the loop and those after it return. -/
structure Ascends (r : SynopsisRange) (idOf : ℕ → BlockId) (low : ℕ) (ids : List BlockId) : Prop where
  head : ids.head? = some (idOf low)
  mem : ∀ id ∈ ids, ∃ k, low ≤ k ∧ k ≤ r.highBlockNum ∧ id = idOf k
  increasing : ids.Pairwise fun i j => i.num < j.num

/-- One round of the loop: it goes half of the rest of the way, and one block at least. -/
theorem synopsisLoop_succ {s : Database Op R} {r : SynopsisRange} {idOf : ℕ → BlockId}
    (h : Found s r idOf) {trueHigh : ℕ} (hle : r.highBlockNum ≤ trueHigh)
    (hfits : trueHigh + 1 < 2 ^ 32) {low : ℕ} (hpos : 0 < low) (hlow : low ≤ r.highBlockNum)
    (fuel : ℕ) : synopsisLoop s r trueHigh (fuel + 1) low =
      if low + (trueHigh - low + 2) / 2 ≤ r.highBlockNum then
        (synopsisLoop s r trueHigh fuel (low + (trueHigh - low + 2) / 2)).map (idOf low :: ·)
      else .ok [idOf low] := by
  have hstep : u32 ((low : ℤ) + (u32 ((trueHigh : ℤ) - low + 2) / 2 : ℕ)) =
      low + (trueHigh - low + 2) / 2 := u32_halfway hpos (hlow.trans hle) hfits
  have hunfold : synopsisLoop s r trueHigh (fuel + 1) low = (do
      let id ← r.idAt s low
      let low := u32 ((low : ℤ) + (u32 ((trueHigh : ℤ) - low + 2) / 2 : ℕ))
      if low ≤ r.highBlockNum then do
        let ids ← synopsisLoop s r trueHigh fuel low
        return id :: ids
      else return [id]) := rfl
  rw [hunfold, h.idAt low hpos hlow, hstep]
  by_cases hnext : low + (trueHigh - low + 2) / 2 ≤ r.highBlockNum
  · rw [if_pos hnext]
    change (if _ then _ else _) = _
    rw [if_pos hnext]
    cases synopsisLoop s r trueHigh fuel (low + (trueHigh - low + 2) / 2) with
    | error e => rfl
    | ok ids => rfl
  · rw [if_neg hnext]
    change (if _ then _ else _) = _
    rw [if_neg hnext]
    rfl

/-- **The loop** ends, and returns the ids of the blocks its strides come by. -/
theorem synopsisLoop_walk {s : Database Op R} {r : SynopsisRange} {idOf : ℕ → BlockId}
    (h : Found s r idOf) {trueHigh : ℕ} (hle : r.highBlockNum ≤ trueHigh)
    (hfits : trueHigh + 1 < 2 ^ 32) {fuel low : ℕ} (hpos : 0 < low) (hlow : low ≤ r.highBlockNum)
    (hfuel : r.highBlockNum - low < fuel) : synopsisLoop s r trueHigh fuel low =
      .ok (((halfway trueHigh).walk r.highBlockNum low).map idOf) := by
  induction fuel generalizing low with
  | zero => exact absurd hfuel (Nat.not_lt_zero _)
  | succ fuel ih =>
    have hnext : (halfway trueHigh).next low = low + (trueHigh - low + 2) / 2 := rfl
    rw [synopsisLoop_succ h hle hfits hpos hlow, Stride.walk_of_le _ hlow, List.map_cons, ← hnext]
    have hup := (halfway trueHigh).lt_next low
    by_cases hmore : (halfway trueHigh).next low ≤ r.highBlockNum
    · rw [if_pos hmore, ih (by omega) hmore (by omega)]
      rfl
    · rw [if_neg hmore, Stride.walk_of_lt _ (Nat.lt_of_not_le hmore)]
      rfl

/-- The ids of a walk climb from the lowest block. -/
theorem ascends_walk {s : Database Op R} {r : SynopsisRange} {idOf : ℕ → BlockId} (h : Found s r idOf)
    (trueHigh : ℕ) {low : ℕ} (hpos : 0 < low) (hlow : low ≤ r.highBlockNum) :
    Ascends r idOf low (((halfway trueHigh).walk r.highBlockNum low).map idOf) where
  head := by rw [List.head?_map, Stride.head?_walk _ hlow, Option.map_some]
  mem id hid := by
    obtain ⟨k, hk, rfl⟩ := List.mem_map.mp hid
    obtain ⟨hlowk, hkhigh⟩ := Stride.bounds_of_mem_walk _ hk
    exact ⟨k, hlowk, hkhigh, rfl⟩
  increasing := by
    refine List.pairwise_map.mpr ((Stride.pairwise_walk _ _ _).imp_of_mem ?_)
    intro j k hj hk hjk
    obtain ⟨hlowj, hjhigh⟩ := Stride.bounds_of_mem_walk _ hj
    obtain ⟨hlowk, hkhigh⟩ := Stride.bounds_of_mem_walk _ hk
    rwa [h.num j (by omega) hjhigh, h.num k (by omega) hkhigh]

/-- When nothing comes after the highest block, no stride goes over it. -/
theorem getLast?_walk_halfway {high low : ℕ} (hlow : low ≤ high) :
    ((halfway high).walk high low).getLast? = some high := by
  refine Stride.getLast?_walk _ (fun k hk => ?_) hlow
  show k + (high - k + 2) / 2 ≤ high
  omega

end FinChain.App
