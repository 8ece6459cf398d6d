import FinChain.Chain.GlobalParameters
import Mathlib.Algebra.Order.Ring.Nat
import Mathlib.Tactic.Ring

/-!
# Slots

Blocks are produced in slots of one block interval. `get_slot_time` is the time at which a slot begins,
counted from the head block, and `get_slot_at_time` is the slot of a time. After a maintenance block some
slots are skipped, and before the first block the slots are counted from the genesis time, which need not
be aligned.

All these cases are one: there is a time of "slot 0" (`slotStart`), from which the slots follow each other
without a gap. So the two functions are inverse to each other up to rounding, and a block in slot `k` moves
the slots by `k`, since its own time is rounded down to the begin of its slot. It does not if it is a
maintenance block, because slots are skipped after it (`slots_consistent`).

The absolute slot that decides which witness is scheduled is counted elsewhere, in
`update_global_dynamic_data`, by the slot of the block.
-/

namespace FinChain.Chain

open Exec Ledger

/-- `uint32_t`. -/
def word32 (x : ℕ) : ℕ := x % 2 ^ 32

theorem word32_of_lt {x : ℕ} (h : x < 2 ^ 32) : word32 x = x := Nat.mod_eq_of_lt h

/-- `GRAPHENE_RECENTLY_MISSED_COUNT_INCREMENT`. -/
def recentlyMissedCountIncrement : ℕ := 4

/-- `GRAPHENE_RECENTLY_MISSED_COUNT_DECREMENT`. -/
def recentlyMissedCountDecrement : ℕ := 3

/-- What the slots depend on: parts of `dynamic_global_property_object`, the parameters, and
`witness_schedule_object`. -/
structure SlotState where
  headBlockNumber : ℕ
  time : ℕ
  currentWitness : ℕ
  recentlyMissedCount : ℕ
  currentAslot : ℕ
  recentSlotsFilled : ℕ
  maintenanceFlag : Bool
  parameters : GlobalParameters
  currentShuffledWitnesses : List ℕ
  totalMissed : ℕ → ℕ
  /-- The number of the last checkpoint. -/
  lastCheckpoint : Option ℕ := none

/-- A block, whose number follows that of the previous one. -/
structure SlotBlock where
  previousNum : ℕ
  timestamp : ℕ
  witness : ℕ

def SlotBlock.blockNum (b : SlotBlock) : ℕ := b.previousNum + 1

namespace SlotState

/-- `block_interval`. -/
def blockInterval (s : SlotState) : ℕ := s.parameters.blockInterval.toNat

def getScheduledWitness (s : SlotState) (slotNum : ℕ) : Except Trap ℕ := do
  let currentAslot := (s.currentAslot + slotNum) % 2 ^ 64
  let i ← remainder currentAslot s.currentShuffledWitnesses.length
  .ok (s.currentShuffledWitnesses.getD i 0)

/-- `get_slot_time`. -/
def getSlotTime (s : SlotState) (slotNum : ℕ) : Except Trap ℕ :=
  if slotNum = 0 then .ok 0
  -- "n.b. first block is at genesis_time plus one block interval"
  else if s.headBlockNumber = 0 then .ok (word32 (s.time + word32 (slotNum * s.blockInterval)))
  else do
    let headBlockAbsSlot ← divide s.time s.blockInterval
    let headSlotTime := word32 (headBlockAbsSlot * s.blockInterval)
    let slotNum :=
      if s.maintenanceFlag then word32 (slotNum + s.parameters.maintenanceSkipSlots.toNat) else slotNum
    .ok (word32 (headSlotTime + word32 (slotNum * s.blockInterval)))

/-- `get_slot_at_time`. -/
def getSlotAtTime (s : SlotState) (time : ℕ) (forMissBlock : Bool := false) : Except Trap ℕ := do
  let firstSlotTime ← s.getSlotTime 1
  if time < firstSlotTime then .ok 0
  else if forMissBlock ∧ s.headBlockNumber = 0 then .ok 1
  else do
    let slots ← divide (time - firstSlotTime) s.blockInterval
    .ok (word32 (slots + 1))

/-- A witness has missed slot `i + 1`, unless it produces the block. -/
def missSlot (s : SlotState) (b : SlotBlock) (totalMissed : ℕ → ℕ) (i : ℕ) : Except Trap (ℕ → ℕ) := do
  let missed ← s.getScheduledWitness (i + 1)
  if missed ≠ b.witness then
    .ok (Function.update totalMissed missed (word32 (totalMissed missed + 1)))
  else .ok totalMissed

/-- `recently_missed_count` after a block that follows `blocks` missed ones. -/
def recentlyMissed (s : SlotState) (b : SlotBlock) (blocks : ℕ) : ℕ :=
  if b.blockNum = 1 then 0
  else if ∃ n ∈ s.lastCheckpoint, b.blockNum ≤ n then 0
  else if blocks ≠ 0 then word32 (s.recentlyMissedCount + recentlyMissedCountIncrement * blocks)
  else if recentlyMissedCountIncrement < s.recentlyMissedCount then
    s.recentlyMissedCount - recentlyMissedCountDecrement
  else s.recentlyMissedCount - 1

/-- `update_global_dynamic_data`, as far as it counts slots. -/
def updateGlobalDynamicData (s : SlotState) (b : SlotBlock) : Except Trap SlotState := do
  let missedBlocks ← s.getSlotAtTime b.timestamp true
  let totalMissed ← (List.range (word32 (missedBlocks + (2 ^ 32 - 1)))).foldlM (s.missSlot b) s.totalMissed
  let slot ← s.getSlotAtTime b.timestamp
  let blocks := word32 (slot + (2 ^ 32 - 1))
  .ok { s with
    headBlockNumber := b.blockNum
    time := b.timestamp
    currentWitness := b.witness
    recentlyMissedCount := s.recentlyMissed b blocks
    currentAslot := (s.currentAslot + word32 (blocks + 1)) % 2 ^ 64
    recentSlotsFilled := (s.recentSlotsFilled * 2 + 1) * 2 ^ blocks % 2 ^ 128
    totalMissed := totalMissed }

/-! ### Slots follow each other -/

/-- The time of "slot 0". -/
def slotStart (s : SlotState) : ℕ :=
  if s.headBlockNumber = 0 then s.time
  else s.time / s.blockInterval * s.blockInterval +
    if s.maintenanceFlag then s.parameters.maintenanceSkipSlots.toNat * s.blockInterval else 0

variable {s s' : SlotState} {b : SlotBlock} {n k t : ℕ}

/-- **The time of a slot**, if it is a time of 32 bits. -/
theorem getSlotTime_eq (hpos : 0 < s.blockInterval) (hn : 1 ≤ n)
    (hfits : s.slotStart + n * s.blockInterval < 2 ^ 32) :
    s.getSlotTime n = .ok (s.slotStart + n * s.blockInterval) := by
  have hslot : n * s.blockInterval < 2 ^ 32 := by omega
  unfold getSlotTime
  rw [if_neg (Nat.one_le_iff_ne_zero.mp hn)]
  unfold slotStart at hfits ⊢
  by_cases hgenesis : s.headBlockNumber = 0
  · rw [if_pos hgenesis] at hfits ⊢
    rw [if_pos hgenesis, word32_of_lt hslot, word32_of_lt hfits]
  · rw [if_neg hgenesis] at hfits ⊢
    rw [if_neg hgenesis, divide_of_pos hpos]
    have hhead : s.time / s.blockInterval * s.blockInterval < 2 ^ 32 := by omega
    change Except.ok (word32 (word32 (s.time / s.blockInterval * s.blockInterval) +
      word32 ((if s.maintenanceFlag then word32 (n + s.parameters.maintenanceSkipSlots.toNat) else n) *
        s.blockInterval))) = _
    rw [word32_of_lt hhead]
    cases hflag : s.maintenanceFlag with
    | false =>
      rw [hflag] at hfits
      simp only [Bool.false_eq_true, if_false, add_zero] at hfits ⊢
      rw [word32_of_lt hslot, word32_of_lt hfits]
    | true =>
      rw [hflag] at hfits
      simp only [if_true] at hfits ⊢
      -- the skipped slots are counted with the others
      have hsum : (n + s.parameters.maintenanceSkipSlots.toNat) * s.blockInterval =
          s.parameters.maintenanceSkipSlots.toNat * s.blockInterval + n * s.blockInterval := by ring
      have hcount : n + s.parameters.maintenanceSkipSlots.toNat < 2 ^ 32 := by
        have hle : (n + s.parameters.maintenanceSkipSlots.toNat) * 1 ≤
            (n + s.parameters.maintenanceSkipSlots.toNat) * s.blockInterval := Nat.mul_le_mul_left _ hpos
        omega
      have hmore : s.parameters.maintenanceSkipSlots.toNat * s.blockInterval + n * s.blockInterval <
          2 ^ 32 := by
        omega
      rw [word32_of_lt hcount, hsum, word32_of_lt hmore, ← add_assoc, word32_of_lt hfits]

/-- **The slot of a time**, from the first slot on. -/
theorem getSlotAtTime_eq (hpos : 0 < s.blockInterval) (hfits : s.slotStart + s.blockInterval < 2 ^ 32)
    (ht : t < 2 ^ 32) : s.getSlotAtTime t = .ok
      (if t < s.slotStart + s.blockInterval then 0 else (t - s.slotStart) / s.blockInterval) := by
  have hfirst : s.getSlotTime 1 = .ok (s.slotStart + s.blockInterval) := by
    have h := getSlotTime_eq hpos le_rfl (by rw [one_mul]; exact hfits)
    rw [one_mul] at h
    exact h
  unfold getSlotAtTime
  rw [hfirst]
  change (if t < s.slotStart + s.blockInterval then _ else _) = _
  by_cases hearly : t < s.slotStart + s.blockInterval
  · rw [if_pos hearly, if_pos hearly]
  · rw [if_neg hearly, if_neg hearly]
    simp only [Bool.false_eq_true, false_and, if_false]
    rw [divide_of_pos hpos]
    have hcount : (t - (s.slotStart + s.blockInterval)) / s.blockInterval + 1 =
        (t - s.slotStart) / s.blockInterval := by
      rw [← Nat.add_div_right _ hpos]
      congr 1
      omega
    change Except.ok (word32 ((t - (s.slotStart + s.blockInterval)) / s.blockInterval + 1)) = _
    rw [hcount, word32_of_lt]
    exact (Nat.div_le_self _ _).trans_lt (by omega)

/-- A time in a slot is between its begin and the next one's. -/
theorem of_getSlotAtTime (hpos : 0 < s.blockInterval) (hfits : s.slotStart + s.blockInterval < 2 ^ 32)
    (ht : t < 2 ^ 32) (hk : 1 ≤ k) (h : s.getSlotAtTime t = .ok k) :
    s.slotStart + k * s.blockInterval ≤ t ∧ t < s.slotStart + (k + 1) * s.blockInterval := by
  rw [getSlotAtTime_eq hpos hfits ht] at h
  split at h
  · cases h
    omega
  · next hlate =>
    cases h
    have hdown := Nat.div_mul_le_self (t - s.slotStart) s.blockInterval
    have hup := Nat.lt_div_mul_add (a := t - s.slotStart) hpos
    rw [add_mul, one_mul]
    omega

/-! ### Blocks -/

/-- What `_apply_block` makes of the slots: they are counted, and then a maintenance may change the
parameters, and the flag is set. The block interval is not changed and the witnesses are not shuffled. -/
structure Applied (s : SlotState) (b : SlotBlock) (s' : SlotState) : Prop where
  counted : ∃ s₁, s.updateGlobalDynamicData b = .ok s₁ ∧ s' = { s₁ with
    parameters := s'.parameters
    maintenanceFlag := s'.maintenanceFlag
    currentShuffledWitnesses := s'.currentShuffledWitnesses }
  interval : s'.blockInterval = s.blockInterval
  schedule : s'.currentShuffledWitnesses = s.currentShuffledWitnesses

/-- **What a block counts.** -/
theorem Applied.spec (h : s.Applied b s') (hk : 1 ≤ k) (hk' : k < 2 ^ 32)
    (hslot : s.getSlotAtTime b.timestamp = .ok k) :
    s'.headBlockNumber = b.blockNum ∧ s'.time = b.timestamp ∧
      s'.currentAslot = (s.currentAslot + k) % 2 ^ 64 := by
  obtain ⟨s₁, hcount, hs'⟩ := h.counted
  unfold updateGlobalDynamicData at hcount
  obtain ⟨missed, -, hcount⟩ := except_bind_eq_ok.mp hcount
  obtain ⟨totalMissed, -, hcount⟩ := except_bind_eq_ok.mp hcount
  rw [hslot] at hcount
  have hs₁ := Except.ok.inj hcount
  have hblocks : word32 (word32 (k + (2 ^ 32 - 1)) + 1) = k := by
    unfold word32
    omega
  rw [hs', ← hs₁]
  refine ⟨rfl, rfl, ?_⟩
  change (s.currentAslot + word32 (word32 (k + (2 ^ 32 - 1)) + 1)) % 2 ^ 64 = _
  rw [hblocks]

/-- The begin of a slot is aligned, if the genesis time is. -/
theorem dvd_slotStart (hgenesis : s.headBlockNumber = 0 → s.blockInterval ∣ s.time) :
    s.blockInterval ∣ s.slotStart := by
  unfold slotStart
  split
  · next hzero => exact hgenesis hzero
  · split
    · exact Nat.dvd_add (Dvd.intro_left _ rfl) (Dvd.intro_left _ rfl)
    · exact Dvd.intro_left _ rfl

/-- **A block in slot `k` makes it the new slot 0**, if no slots are skipped after it. -/
theorem Applied.slotStart (h : s.Applied b s') (hpos : 0 < s.blockInterval)
    (hgenesis : s.headBlockNumber = 0 → s.blockInterval ∣ s.time) (hk : 1 ≤ k)
    (hfits : s.slotStart + (k + 1) * s.blockInterval < 2 ^ 32) (ht : b.timestamp < 2 ^ 32)
    (hslot : s.getSlotAtTime b.timestamp = .ok k)
    (hskip : s'.maintenanceFlag = false ∨ s'.parameters.maintenanceSkipSlots = 0) :
    s'.slotStart = s.slotStart + k * s.blockInterval := by
  have hfirst : s.slotStart + s.blockInterval < 2 ^ 32 := by
    have hle : 1 * s.blockInterval ≤ (k + 1) * s.blockInterval := Nat.mul_le_mul_right _ (by omega)
    omega
  have hk' : k < 2 ^ 32 := by
    have hle : k * 1 ≤ (k + 1) * s.blockInterval := Nat.mul_le_mul (Nat.le_succ k) hpos
    omega
  obtain ⟨hnum, htime, -⟩ := h.spec hk hk' hslot
  obtain ⟨hlow, hhigh⟩ := of_getSlotAtTime hpos hfirst ht hk hslot
  obtain ⟨m, hm⟩ := dvd_slotStart hgenesis
  -- the time of the block is rounded down to the begin of its slot
  have hround : b.timestamp / s.blockInterval = m + k := by
    rw [hm, ← mul_comm m, ← add_mul] at hlow
    rw [hm, ← mul_comm m, ← add_mul, ← add_assoc] at hhigh
    exact Nat.div_eq_of_lt_le hlow hhigh
  have hzero : (if s'.maintenanceFlag then s'.parameters.maintenanceSkipSlots.toNat * s'.blockInterval
      else 0) = 0 := by
    rcases hskip with hflag | hnone
    · rw [hflag]
      rfl
    · rw [hnone]
      split
      · exact zero_mul _
      · rfl
  have hne : s'.headBlockNumber ≠ 0 := by
    rw [hnum]
    exact Nat.succ_ne_zero _
  unfold SlotState.slotStart at hm ⊢
  rw [if_neg hne, hzero, htime, h.interval, hround, hm, add_zero, add_mul, mul_comm s.blockInterval m]

/-- **Slots are consistent** with time and across blocks. -/
theorem slots_consistent (hpos : 0 < s.blockInterval) :
    (∀ n, 1 ≤ n → s.slotStart + n * s.blockInterval < 2 ^ 32 →
      ∃ t, s.getSlotTime n = .ok t ∧ s.getSlotAtTime t = .ok n) ∧
    (∀ t k, t < 2 ^ 32 → 1 ≤ k → s.slotStart + (k + 1) * s.blockInterval < 2 ^ 32 →
      s.getSlotAtTime t = .ok k →
      ∃ low high, s.getSlotTime k = .ok low ∧ s.getSlotTime (k + 1) = .ok high ∧ low ≤ t ∧ t < high) ∧
    ∀ b s' k, s.Applied b s' → (s.headBlockNumber = 0 → s.blockInterval ∣ s.time) →
      b.timestamp < 2 ^ 32 → 1 ≤ k → s.getSlotAtTime b.timestamp = .ok k →
      s'.maintenanceFlag = false ∨ s'.parameters.maintenanceSkipSlots = 0 →
      ∀ j, 1 ≤ j → s.slotStart + (k + j) * s.blockInterval < 2 ^ 32 →
        s'.getSlotTime j = s.getSlotTime (k + j) ∧
          s'.getScheduledWitness j = s.getScheduledWitness (k + j) := by
  refine ⟨fun n hn hfits => ?_, fun t k ht hk hfits h => ?_,
    fun b s' k happlied hgenesis ht hk hslot hskip j hj hfits => ?_⟩
  · have hle : 1 * s.blockInterval ≤ n * s.blockInterval := Nat.mul_le_mul_right _ hn
    refine ⟨_, getSlotTime_eq hpos hn hfits, ?_⟩
    rw [getSlotAtTime_eq hpos (by omega) hfits, if_neg (by omega), Nat.add_sub_cancel_left,
      Nat.mul_div_cancel _ hpos]
  · have hsplit : (k + 1) * s.blockInterval = k * s.blockInterval + s.blockInterval := Nat.succ_mul k _
    obtain ⟨hlow, hhigh⟩ := of_getSlotAtTime hpos (by omega) ht hk h
    exact ⟨_, _, getSlotTime_eq hpos hk (by omega), getSlotTime_eq hpos (by omega) hfits, hlow, hhigh⟩
  · have hle : (k + 1) * s.blockInterval ≤ (k + j) * s.blockInterval := Nat.mul_le_mul_right _ (by omega)
    have hstart := happlied.slotStart hpos hgenesis hk (by omega) ht hslot hskip
    have hsum : s.slotStart + k * s.blockInterval + j * s.blockInterval =
        s.slotStart + (k + j) * s.blockInterval := by ring
    have hk' : k < 2 ^ 32 := by
      have hmul : k * 1 ≤ (k + j) * s.blockInterval := Nat.mul_le_mul (Nat.le_add_right k j) hpos
      omega
    refine ⟨?_, ?_⟩
    · have htime : s'.getSlotTime j = .ok (s'.slotStart + j * s'.blockInterval) := by
        refine getSlotTime_eq ?_ hj ?_
        · rw [happlied.interval]
          exact hpos
        · rw [hstart, happlied.interval, hsum]
          exact hfits
      rw [htime, getSlotTime_eq hpos (by omega) hfits, hstart, happlied.interval, hsum]
    · obtain ⟨-, -, haslot⟩ := happlied.spec hk hk' hslot
      unfold getScheduledWitness
      rw [haslot, happlied.schedule, Nat.mod_add_mod, add_assoc]

/-! ### The slots that were filled -/

/-- `witness_participation_rate`. -/
def witnessParticipationRate (s : SlotState) : ℕ :=
  10000 * (List.range 128).countP s.recentSlotsFilled.testBit / 128

/-- The bits of `recent_slots_filled` after a block in slot `k`, the newest slot first. The block is
noted for the first of the `k` slots, the ones after it as missed. -/
theorem Applied.testBit (h : s.Applied b s') (hk : 1 ≤ k) (hk' : k < 2 ^ 32)
    (hslot : s.getSlotAtTime b.timestamp = .ok k) {i : ℕ} (hi : i < 128) :
    s'.recentSlotsFilled.testBit i =
      if i < k then decide (i + 1 = k) else s.recentSlotsFilled.testBit (i - k) := by
  obtain ⟨s₁, hcount, hs'⟩ := h.counted
  unfold updateGlobalDynamicData at hcount
  obtain ⟨missed, -, hcount⟩ := except_bind_eq_ok.mp hcount
  obtain ⟨totalMissed, -, hcount⟩ := except_bind_eq_ok.mp hcount
  rw [hslot] at hcount
  have hs₁ := Except.ok.inj hcount
  have hblocks : word32 (k + (2 ^ 32 - 1)) = k - 1 := by
    unfold word32
    omega
  rw [hs', ← hs₁]
  show ((s.recentSlotsFilled * 2 + 1) * 2 ^ word32 (k + (2 ^ 32 - 1)) % 2 ^ 128).testBit i = _
  rw [hblocks, Nat.testBit_mod_two_pow, decide_eq_true hi, Bool.true_and, Nat.testBit_mul_two_pow]
  by_cases hlt : i + 1 < k
  · rw [decide_eq_false (by omega), Bool.false_and, if_pos (by omega), decide_eq_false (by omega)]
  · rw [decide_eq_true (by omega), Bool.true_and]
    by_cases heq : i + 1 = k
    · rw [if_pos (by omega), decide_eq_true heq, show i - (k - 1) = 0 by omega]
      simp
    · rw [if_neg (by omega), show i - (k - 1) = (i - k) + 1 by omega, Nat.testBit_succ,
        show (s.recentSlotsFilled * 2 + 1) / 2 = s.recentSlotsFilled by omega]

/-- Blocks that are applied one after the other. Since the state `s`, `n` slots have passed, and
`noted` are the numbers of those that the blocks were noted for, each the first after a block. -/
inductive Filled (s : SlotState) : ℕ → List ℕ → SlotState → Prop
  | start : Filled s 0 [] s
  | block {n noted s₁ b k s₂} : Filled s n noted s₁ → s₁.getSlotAtTime b.timestamp = .ok k →
      1 ≤ k → k < 2 ^ 32 → s₁.Applied b s₂ → Filled s (n + k) ((n + 1) :: noted) s₂

section Example

/-- A block that follows `m` missed ones, with or without a maintenance, where nothing else is changed. -/
private theorem exists_applied {m : ℕ} {totalMissed : ℕ → ℕ} (hm : m < 2 ^ 32)
    (hmissed : s.getSlotAtTime b.timestamp true = .ok (m + 1))
    (htotal : (List.range m).foldlM (s.missSlot b) s.totalMissed = .ok totalMissed)
    (hslot : s.getSlotAtTime b.timestamp = .ok (m + 1)) (flag : Bool) :
    ∃ s', s.Applied b s' ∧ s'.maintenanceFlag = flag ∧ s'.headBlockNumber = b.blockNum ∧
      s'.time = b.timestamp ∧ s'.parameters = s.parameters := by
  have hcount : word32 (m + 1 + (2 ^ 32 - 1)) = m := by
    unfold word32
    omega
  have hupdate : ∃ s₁, s.updateGlobalDynamicData b = .ok s₁ ∧ s₁.headBlockNumber = b.blockNum ∧
      s₁.time = b.timestamp ∧ s₁.parameters = s.parameters ∧
      s₁.currentShuffledWitnesses = s.currentShuffledWitnesses := by
    refine ⟨_, except_bind_eq_ok.mpr ⟨_, hmissed, except_bind_eq_ok.mpr ⟨totalMissed, ?_,
      except_bind_eq_ok.mpr ⟨_, hslot, rfl⟩⟩⟩, rfl, rfl, rfl, rfl⟩
    rw [hcount]
    exact htotal
  obtain ⟨s₁, hs₁, hnum, htime, hparameters, hwitnesses⟩ := hupdate
  have hinterval : s₁.blockInterval = s.blockInterval :=
    congrArg (fun p : GlobalParameters => p.blockInterval.toNat) hparameters
  exact ⟨{ s₁ with maintenanceFlag := flag }, ⟨⟨s₁, hs₁, rfl⟩, hinterval, hwitnesses⟩, rfl, hnum, htime,
    hparameters⟩

/-- The head is a block of time 31, after a maintenance or not. -/
private def atThirtyOne (flag : Bool) : SlotState where
  headBlockNumber := 5
  time := 31
  currentWitness := 1
  recentlyMissedCount := 0
  currentAslot := 9
  recentSlotsFilled := 31
  maintenanceFlag := flag
  parameters := hardForkParameters
  currentShuffledWitnesses := [1, 2, 3, 4]
  totalMissed := fun _ => 0

/-- A block of time 46 is in slot 2 after the maintenance, so what was slot 3 is slot 1 after it. -/
theorem slots_consistent_atThirtyOne : ∃ s', (atThirtyOne true).Applied ⟨5, 46, 4⟩ s' ∧
    s'.getSlotTime 1 = .ok 48 ∧ s'.getScheduledWitness 1 = .ok 1 := by
  obtain ⟨s', happlied, hflag, -, -, -⟩ : ∃ s', (atThirtyOne true).Applied ⟨5, 46, 4⟩ s' ∧
      s'.maintenanceFlag = false ∧ _ ∧ _ ∧ _ :=
    exists_applied (m := 1) (by decide) rfl rfl rfl false
  have hpos : 0 < (atThirtyOne true).blockInterval := by decide
  obtain ⟨-, -, hblock⟩ := slots_consistent hpos
  obtain ⟨htime, hwitness⟩ := hblock _ _ 2 happlied (fun h => absurd h (by decide)) (by decide) (by decide)
    rfl (.inl hflag) 1 le_rfl (by decide)
  exact ⟨_, happlied, htime.trans rfl, hwitness.trans rfl⟩

/-- If the block is a maintenance block too, as the head block was, slots are skipped once more. -/
theorem not_slots_shifted :
    ¬ ∀ (s s' : SlotState) (b : SlotBlock) (k j : ℕ), 0 < s.blockInterval → s.Applied b s' →
      (s.headBlockNumber = 0 → s.blockInterval ∣ s.time) → b.timestamp < 2 ^ 32 → 1 ≤ k →
      s.getSlotAtTime b.timestamp = .ok k → s'.maintenanceFlag = s.maintenanceFlag → 1 ≤ j →
      s.slotStart + (k + j) * s.blockInterval < 2 ^ 32 → s'.getSlotTime j = s.getSlotTime (k + j) := by
  intro hall
  obtain ⟨s', happlied, hflag, hnum, htime, hparameters⟩ : ∃ s', (atThirtyOne true).Applied ⟨5, 46, 4⟩ s' ∧
      s'.maintenanceFlag = true ∧ _ ∧ _ ∧ _ :=
    exists_applied (m := 1) (by decide) rfl rfl rfl true
  have hpos : 0 < (atThirtyOne true).blockInterval := by decide
  have hpos' : 0 < s'.blockInterval := by
    rw [happlied.interval]
    exact hpos
  have hshifted := hall _ s' ⟨5, 46, 4⟩ 2 1 hpos happlied (fun h => absurd h (by decide)) (by decide)
    (by decide) rfl hflag le_rfl (by decide)
  have hstart : s'.slotStart = 54 := by
    unfold slotStart
    rw [hnum, htime, hflag, happlied.interval, hparameters]
    rfl
  have hlater : s'.getSlotTime 1 = .ok 57 := by
    have hfits : s'.slotStart + 1 * s'.blockInterval < 2 ^ 32 := by
      rw [hstart, happlied.interval]
      decide
    rw [getSlotTime_eq hpos' le_rfl hfits, hstart, happlied.interval]
    rfl
  rw [hlater] at hshifted
  exact absurd hshifted (by decide)

end Example

end SlotState

end FinChain.Chain
