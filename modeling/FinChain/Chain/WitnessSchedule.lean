import FinChain.Chain.Slots
import FinChain.Lib.RoundRobin
import Mathlib.Data.Finset.Sort
import Mathlib.Data.List.GetD
import Mathlib.Tactic.Linarith

/-!
# The schedule of the witnesses

Every time the block number is a multiple of the number of active witnesses, `update_witness_schedule` copies the
active witnesses and shuffles the copy with a generator that is seeded with the head time. In between,
`get_scheduled_witness` goes around the shuffled list by the remainders of the absolute slot.

A shuffle is a permutation whatever the random numbers are (`shuffleWitnesses_perm`), so the list has each of the
active witnesses once. The absolute slot that is asked for is that of the head and the number of a slot after
it. The two have 64 and 32 bits, and their sum does not wrap around, since a block adds at most
`2 ^ 32 - 1` to the former and there are fewer than `2 ^ 32` blocks (`Reachable.aslot_le`). So who is scheduled for
an absolute slot does not depend on the block after which one asks, as long as the list stays, and in as many
slots as there are witnesses each of them has a turn (`every_witness_has_a_turn`).

The counters of the loop have 32 bits in the source. The number of active witnesses is far below that: it
is at most twice a parameter of 16 bits.
-/

namespace FinChain.Chain

/-- "High performance random generator", for position `i`. -/
def scheduleRandom (nowHi : UInt64) (i : ℕ) : UInt64 :=
  let k := nowHi + UInt64.ofNat i * 2685821657736338717
  let k := k ^^^ (k >>> 12)
  let k := k ^^^ (k <<< 25)
  let k := k ^^^ (k >>> 27)
  k * 2685821657736338717

/-- The loop of `update_witness_schedule`. -/
def shuffleWitnesses (random : ℕ → UInt64) (l : List ℕ) : Option (List ℕ) :=
  RoundRobin.shuffleFrom (fun i => i + (random i).toNat % (l.length - i)) l.length 0 l

/-- What the schedule depends on, and `global_property_object::active_witnesses`. -/
structure ScheduleState where
  slots : SlotState
  activeWitnesses : Finset ℕ

/-- `current_shuffled_witnesses`. -/
def ScheduleState.witnesses (s : ScheduleState) : List ℕ := s.slots.currentShuffledWitnesses

/-- `update_witness_schedule`. There is no result when the remainder by zero is taken, or an element outside
of the vector is used. -/
def updateWitnessSchedule (s : ScheduleState) : Option ScheduleState :=
  match remainder s.slots.headBlockNumber s.activeWitnesses.card with
  | .error _ => none
  | .ok r =>
    if r = 0 then do
      let nowHi := UInt64.ofNat s.slots.time <<< 32
      let shuffled ← shuffleWitnesses (scheduleRandom nowHi) (s.activeWitnesses.sort (· ≤ ·))
      return { s with slots := { s.slots with currentShuffledWitnesses := shuffled } }
    else some s

/-- What `_apply_block` makes of the schedule. The slots are counted, a maintenance may change the parameters, the
flag and the active witnesses, and the witnesses may be shuffled. Block numbers have 32 bits. -/
structure ScheduledBlock (s : ScheduleState) (b : SlotBlock) (s' : ScheduleState) : Prop where
  follows : b.previousNum = s.slots.headBlockNumber
  numbered : b.blockNum < 2 ^ 32
  applied : ∃ counted parameters maintenanceFlag activeWitnesses,
    s.slots.updateGlobalDynamicData b = .ok counted ∧
    updateWitnessSchedule ⟨{ counted with
      parameters := parameters
      maintenanceFlag := maintenanceFlag }, activeWitnesses⟩ = some s'

/-- The states of a chain, from the one that `init_genesis` leaves. -/
inductive ScheduleState.Reachable : ScheduleState → Prop
  | genesis (s : ScheduleState) : s.slots.headBlockNumber = 0 → s.slots.currentAslot = 0 →
      s.witnesses = s.activeWitnesses.sort (· ≤ ·) → s.Reachable
  | block {s s' : ScheduleState} {b : SlotBlock} : s.Reachable → ScheduledBlock s b s' → s'.Reachable

/-- The blocks between two states do not replace the shuffled witnesses. -/
inductive SameSchedule : ScheduleState → ScheduleState → Prop
  | refl (s : ScheduleState) : SameSchedule s s
  | block {s s' s'' : ScheduleState} {b : SlotBlock} : SameSchedule s s' → ScheduledBlock s' b s'' →
      s''.witnesses = s'.witnesses → SameSchedule s s''

/-! ### The shuffle -/

/-- **A shuffle is a permutation**, for all random numbers. -/
theorem shuffleWitnesses_perm (random : ℕ → UInt64) (l : List ℕ) :
    ∃ l', shuffleWitnesses random l = some l' ∧ l'.Perm l := by
  refine RoundRobin.shuffleFrom_perm l.length 0 l (Nat.zero_add _) fun i _ hi => ?_
  have hlt := Nat.mod_lt (random i).toNat (Nat.sub_pos_of_lt hi)
  omega

/-- **What `update_witness_schedule` does**, if there are active witnesses. -/
theorem updateWitnessSchedule_spec (s : ScheduleState) (h : s.activeWitnesses.Nonempty) :
    ∃ s', updateWitnessSchedule s = some s' ∧
      if s.slots.headBlockNumber % s.activeWitnesses.card = 0 then
        ∃ l, l.Perm (s.activeWitnesses.sort (· ≤ ·)) ∧
          s' = { s with slots := { s.slots with currentShuffledWitnesses := l } }
      else s' = s := by
  unfold updateWitnessSchedule
  rw [remainder_of_pos h.card_pos]
  by_cases hround : s.slots.headBlockNumber % s.activeWitnesses.card = 0
  · obtain ⟨l, hl, hperm⟩ := shuffleWitnesses_perm (scheduleRandom (UInt64.ofNat s.slots.time <<< 32))
      (s.activeWitnesses.sort (· ≤ ·))
    simp only [hround, if_true, hl]
    exact ⟨_, rfl, l, hperm, rfl⟩
  · simp only [hround, if_false]
    exact ⟨s, rfl, rfl⟩

theorem updateWitnessSchedule_some {s s' : ScheduleState} (h : updateWitnessSchedule s = some s') :
    s'.activeWitnesses = s.activeWitnesses ∧ (s'.witnesses.Perm (s.activeWitnesses.sort (· ≤ ·)) ∨
      s'.witnesses = s.witnesses) ∧ s'.slots.headBlockNumber = s.slots.headBlockNumber ∧
      s'.slots.currentAslot = s.slots.currentAslot := by
  have hactive : s.activeWitnesses.Nonempty := by
    -- the remainder by zero has no result
    by_contra hnone
    rw [Finset.not_nonempty_iff_eq_empty] at hnone
    simp [updateWitnessSchedule, hnone, remainder] at h
  obtain ⟨s₁, hs₁, hspec⟩ := updateWitnessSchedule_spec s hactive
  obtain rfl : s₁ = s' := Option.some.inj (hs₁.symm.trans h)
  split at hspec
  · obtain ⟨l, hperm, rfl⟩ := hspec
    exact ⟨rfl, .inl hperm, rfl, rfl⟩
  · rw [hspec]
    exact ⟨rfl, .inr rfl, rfl, rfl⟩

/-! ### The absolute slot -/

/-- A block counts its number, and adds 32 bits to the absolute slot. -/
theorem updateGlobalDynamicData_aslot {s s' : SlotState} {b : SlotBlock}
    (h : s.updateGlobalDynamicData b = .ok s') :
    s'.headBlockNumber = b.blockNum ∧ s'.currentAslot ≤ s.currentAslot + (2 ^ 32 - 1) ∧
      s'.currentShuffledWitnesses = s.currentShuffledWitnesses := by
  unfold SlotState.updateGlobalDynamicData at h
  obtain ⟨missed, -, h⟩ := Exec.except_bind_eq_ok.mp h
  obtain ⟨totalMissed, -, h⟩ := Exec.except_bind_eq_ok.mp h
  obtain ⟨slot, -, h⟩ := Exec.except_bind_eq_ok.mp h
  rw [← Except.ok.inj h]
  refine ⟨rfl, ?_, rfl⟩
  refine (Nat.mod_le _ _).trans (Nat.add_le_add_left (Nat.le_sub_one_of_lt ?_) _)
  exact Nat.mod_lt _ (Nat.two_pow_pos 32)

theorem ScheduledBlock.spec {s s' : ScheduleState} {b : SlotBlock} (h : ScheduledBlock s b s') :
    s'.slots.headBlockNumber = s.slots.headBlockNumber + 1 ∧
      s'.slots.currentAslot ≤ s.slots.currentAslot + (2 ^ 32 - 1) ∧
      (s'.witnesses.Perm (s'.activeWitnesses.sort (· ≤ ·)) ∨ s'.witnesses = s.witnesses) := by
  obtain ⟨counted, parameters, maintenanceFlag, activeWitnesses, hcounted, hschedule⟩ := h.applied
  obtain ⟨hnum, haslot, hwitnesses⟩ := updateGlobalDynamicData_aslot hcounted
  obtain ⟨hactive, hlist, hnum', haslot'⟩ := updateWitnessSchedule_some hschedule
  refine ⟨?_, ?_, ?_⟩
  · rw [hnum', ← h.follows]
    exact hnum
  · rw [haslot']
    exact haslot
  · rw [hactive]
    exact hlist.imp id fun heq => heq.trans hwitnesses

namespace ScheduleState.Reachable

variable {s : ScheduleState}

/-- The absolute slot is far from wrapping around. -/
theorem aslot_le (h : s.Reachable) : s.slots.currentAslot ≤ s.slots.headBlockNumber * (2 ^ 32 - 1) := by
  induction h with
  | genesis s hnum haslot _ =>
    rw [hnum, haslot]
    exact Nat.zero_le _
  | block _ hblock ih =>
    obtain ⟨hnum, haslot, -⟩ := hblock.spec
    rw [hnum, Nat.succ_mul]
    omega

theorem headBlockNumber_lt (h : s.Reachable) : s.slots.headBlockNumber < 2 ^ 32 := by
  cases h with
  | genesis _ hnum _ _ => omega
  | block _ hblock =>
    obtain ⟨hnum, -, -⟩ := hblock.spec
    have hnumbered := hblock.numbered
    rw [SlotBlock.blockNum, hblock.follows, ← hnum] at hnumbered
    exact hnumbered

/-- The list has no witness twice: at some time, these were the active witnesses. -/
theorem witnesses_perm (h : s.Reachable) : ∃ active : Finset ℕ, s.witnesses.Perm (active.sort (· ≤ ·)) := by
  induction h with
  | genesis s _ _ hlist => exact ⟨s.activeWitnesses, hlist ▸ .refl _⟩
  | block _ hblock ih =>
    obtain ⟨-, -, hperm | hsame⟩ := hblock.spec
    · exact ⟨_, hperm⟩
    · rw [hsame]
      exact ih

theorem nodup_witnesses (h : s.Reachable) : s.witnesses.Nodup := by
  obtain ⟨active, hperm⟩ := h.witnesses_perm
  exact hperm.nodup_iff.mpr (Finset.sort_nodup active (· ≤ ·))

/-- **Who is scheduled**: the sum of the absolute slot and the number of the slot does not wrap around. -/
theorem getScheduledWitness_eq (h : s.Reachable) {slotNum : ℕ} (hslot : slotNum < 2 ^ 32)
    (hne : s.witnesses ≠ []) :
    s.slots.getScheduledWitness slotNum =
      .ok (s.witnesses.getD ((s.slots.currentAslot + slotNum) % s.witnesses.length) 0) := by
  have hfits : s.slots.currentAslot + slotNum < 2 ^ 64 := by
    have hnum := h.headBlockNumber_lt
    calc s.slots.currentAslot + slotNum
        ≤ s.slots.headBlockNumber * (2 ^ 32 - 1) + slotNum := Nat.add_le_add_right h.aslot_le _
      _ ≤ (2 ^ 32 - 1) * (2 ^ 32 - 1) + slotNum :=
          Nat.add_le_add_right (Nat.mul_le_mul_right _ (by omega)) _
      _ < 2 ^ 64 := by omega
  have hplace : remainder (s.slots.currentAslot + slotNum) s.witnesses.length =
      .ok ((s.slots.currentAslot + slotNum) % s.witnesses.length) :=
    remainder_of_pos (List.length_pos_of_ne_nil hne)
  unfold SlotState.getScheduledWitness
  rw [Nat.mod_eq_of_lt hfits]
  show (remainder (s.slots.currentAslot + slotNum) s.witnesses.length).bind _ = _
  rw [hplace]
  rfl

end ScheduleState.Reachable

theorem SameSchedule.reachable {s s' : ScheduleState} (h : SameSchedule s s') (hs : s.Reachable) :
    s'.Reachable ∧ s'.witnesses = s.witnesses := by
  induction h with
  | refl => exact ⟨hs, rfl⟩
  | block _ hblock hsame ih => exact ⟨ih.1.block hblock, hsame.trans ih.2⟩

/-- **Every active witness gets its turn.** The shuffle loses nobody and doubles nobody, for all random numbers.
And while the shuffled witnesses are not replaced, each of them is scheduled exactly once in as many consecutive
absolute slots as there are witnesses. A slot may be asked for after any block before it: `asked i` is a state and the
number of the slot after its head, which together are the absolute slot `a + i`. -/
theorem every_witness_has_a_turn :
    (∀ random l, ∃ l', shuffleWitnesses random l = some l' ∧ l'.Perm l) ∧
    (∀ s : ScheduleState, s.activeWitnesses.Nonempty → ∃ s', updateWitnessSchedule s = some s' ∧
      if s.slots.headBlockNumber % s.activeWitnesses.card = 0 then
        s'.witnesses.Nodup ∧ ∀ w, w ∈ s'.witnesses ↔ w ∈ s.activeWitnesses
      else s' = s) ∧
    ∀ s : ScheduleState, s.Reachable → s.witnesses.Nodup ∧
      ∀ (a : ℕ) (asked : ℕ → ScheduleState × ℕ),
        (∀ i < s.witnesses.length, SameSchedule s (asked i).1 ∧ (asked i).2 < 2 ^ 32 ∧
          (asked i).1.slots.currentAslot + (asked i).2 = a + i) →
        ∀ w ∈ s.witnesses, ∃! i, i < s.witnesses.length ∧
          (asked i).1.slots.getScheduledWitness (asked i).2 = .ok w := by
  refine ⟨shuffleWitnesses_perm, fun s hs => ?_, fun s hs => ⟨hs.nodup_witnesses, ?_⟩⟩
  · obtain ⟨s', hs', hspec⟩ := updateWitnessSchedule_spec s hs
    refine ⟨s', hs', ?_⟩
    split at hspec
    · next hround =>
      obtain ⟨l, hperm, rfl⟩ := hspec
      rw [if_pos hround]
      refine ⟨hperm.nodup_iff.mpr (Finset.sort_nodup _ _), fun w => ?_⟩
      exact hperm.mem_iff.trans (Finset.mem_sort _)
    · next hround =>
      rw [if_neg hround]
      exact hspec
  · intro a asked hasked w hw
    -- a slot is that of the list at the start, wherever it is asked from
    have hscheduled : ∀ i < s.witnesses.length,
        ((asked i).1.slots.getScheduledWitness (asked i).2 = .ok w ↔
          s.witnesses[(a + i) % s.witnesses.length]? = some w) := by
      intro i hi
      obtain ⟨hsame, hslot, hsum⟩ := hasked i hi
      obtain ⟨hreachable, hlist⟩ := hsame.reachable hs
      have hplace : (a + i) % s.witnesses.length < s.witnesses.length := Nat.mod_lt _ (by omega)
      rw [hreachable.getScheduledWitness_eq hslot (hlist ▸ List.ne_nil_of_mem hw), hsum, hlist,
        List.getElem?_eq_getElem hplace, List.getD_eq_getElem _ _ hplace]
      simp
    obtain ⟨i, ⟨hi, hturn⟩, honly⟩ := RoundRobin.existsUnique_rotation hs.nodup_witnesses a hw
    refine ⟨i, ⟨hi, (hscheduled i hi).mpr hturn⟩, ?_⟩
    rintro j ⟨hj, hother⟩
    exact honly j ⟨hj, (hscheduled j hj).mp hother⟩

section Example

/-- A new chain with three active witnesses. -/
private def threeActive : ScheduleState where
  slots :=
    { headBlockNumber := 0
      time := 30
      currentWitness := 0
      recentlyMissedCount := 0
      currentAslot := 0
      recentSlotsFilled := 0
      maintenanceFlag := false
      parameters := hardForkParameters
      currentShuffledWitnesses := [1, 2, 3]
      totalMissed := fun _ => 0 }
  activeWitnesses := {1, 2, 3}

/-- Witness 2 has one of the slots 5, 6 and 7. -/
theorem every_witness_has_a_turn_three :
    ∃! i, i < 3 ∧ threeActive.slots.getScheduledWitness (5 + i) = .ok 2 := by
  have hsort : Finset.sort ({1, 2, 3} : Finset ℕ) (· ≤ ·) = [1, 2, 3] := by
    rw [Finset.sort_insert _ (by simp) (by simp), Finset.sort_insert _ (by simp) (by simp), Finset.sort_singleton]
  have hreachable : threeActive.Reachable := .genesis threeActive rfl rfl hsort.symm
  have hasked : ∀ i < threeActive.witnesses.length, SameSchedule threeActive threeActive ∧ 5 + i < 2 ^ 32 ∧
      threeActive.slots.currentAslot + (5 + i) = 5 + i := by
    intro i hi
    have hthree : threeActive.witnesses.length = 3 := rfl
    exact ⟨.refl _, by omega, Nat.zero_add _⟩
  obtain ⟨-, -, hturns⟩ := every_witness_has_a_turn
  exact (hturns threeActive hreachable).2 5 (fun i => (threeActive, 5 + i)) hasked 2 (by decide)

end Example

end FinChain.Chain
