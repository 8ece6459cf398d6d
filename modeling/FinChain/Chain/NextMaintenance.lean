import FinChain.Chain.ValidParameters

/-!
# The next maintenance time

A block from `next_maintenance_time` on is a maintenance block. `perform_chain_maintenance` first puts the pending
parameters in force and then looks for the next time behind the block, in steps of the interval that is in
force now. The search is exact, whatever the gap between the blocks (`exactNext_spec`); but the result
goes into a `time_point_sec` of 32 bits, and nothing bounds the interval from above.

So in every maintenance block of every run the new time is the next one if and only if it
is representable (`nextMaintenance_iff`). With a validated interval of some decades the new time wraps around into the past
(`not_nextMaintenance`), which `process_budget` says cannot happen.
-/

namespace FinChain.Chain

open Exec

/-- What changes the parameters, besides the maintenance. -/
inductive ParameterChange
  /-- `account_create_operation` -/
  | accountCreate
  /-- `committee_member_update_global_parameters_operation`, which is validated -/
  | updateGlobalParameters (newParameters : {p : GlobalParameters // p.validate = true})
  /-- `hard_fork_fast_update_fee` -/
  | hardFork

/-- A block, with the changes that come before and after the maintenance. -/
structure MaintenanceBlock where
  timestamp : UInt32
  transactions : List ParameterChange
  /-- Expired proposals that are executed, and the hard fork. -/
  afterwards : List ParameterChange

/-- What the maintenance time depends on. -/
structure MaintenanceState where
  headBlockNumber : ℕ
  headBlockTime : ℕ
  nextMaintenanceTime : ℕ
  registrations : Registrations

/-- The effect of a change. -/
def ParameterChange.apply (s : Registrations) : ParameterChange → Except Trap Registrations
  | .accountCreate => s.register
  | .updateGlobalParameters p => .ok { s with pendingParameters := some p.1 }
  | .hardFork => .ok { s with pendingParameters := some hardForkParameters }

namespace MaintenanceState

variable (s : MaintenanceState)

/-- The parameters in force. -/
def parameters : GlobalParameters := s.registrations.parameters

/-- `time_to_maint` of `process_budget`. -/
def timeToMaint : ℤ := s.nextMaintenanceTime - s.headBlockTime

/-- `perform_chain_maintenance`, the parameters before the time. -/
def performChainMaintenance (b : MaintenanceBlock) : Except Trap MaintenanceState := do
  let registrations ← s.registrations.maintain
  let next ← registrations.parameters.followingMaintenance s.nextMaintenanceTime
    ⟨s.headBlockNumber - 1, b.timestamp.toNat, 0⟩
  return { s with nextMaintenanceTime := next, registrations := registrations }

/-- `maint_needed` -/
def maintNeeded (b : MaintenanceBlock) : Prop := s.nextMaintenanceTime ≤ b.timestamp.toNat

instance (b : MaintenanceBlock) : Decidable (s.maintNeeded b) := inferInstanceAs (Decidable (_ ≤ _))

/-- `_apply_block`, as far as it concerns the maintenance. -/
def applyBlock (b : MaintenanceBlock) : Except Trap MaintenanceState := do
  let registrations ← b.transactions.foldlM ParameterChange.apply s.registrations
  -- `update_global_dynamic_data`
  let s' : MaintenanceState :=
    ⟨s.headBlockNumber + 1, b.timestamp.toNat, s.nextMaintenanceTime, registrations⟩
  let s' ← if s.maintNeeded b then s'.performChainMaintenance b else .ok s'
  let registrations ← b.afterwards.foldlM ParameterChange.apply s'.registrations
  return { s' with registrations := registrations }

end MaintenanceState

/-- A block that has been applied. -/
structure AppliedBlock where
  before : MaintenanceState
  block : MaintenanceBlock
  after : MaintenanceState
  /-- `validate_block_header`: "head_block_time() < next_block.timestamp" -/
  header : before.headBlockTime < block.timestamp.toNat
  applied : before.applyBlock block = .ok after

/-- A chain of blocks, the last one in front. -/
inductive Run (genesis : MaintenanceState) : List AppliedBlock → MaintenanceState → Prop
  | nil : Run genesis [] genesis
  | push {blocks : List AppliedBlock} (a : AppliedBlock) (hrun : Run genesis blocks a.before) :
      Run genesis (a :: blocks) a.after

/-! ### What is claimed -/

namespace AppliedBlock

variable (a : AppliedBlock)

/-- The interval that is in force after the maintenance. -/
def interval : ℕ := a.after.parameters.maintenanceInterval.toNat

/-- The time of the block. -/
def time : ℕ := a.block.timestamp.toNat

/-- From where the intervals are counted: for the first block they are counted from the epoch. -/
def origin : ℕ := if a.before.headBlockNumber = 0 then 0 else a.before.nextMaintenanceTime

/-- A time that a number of intervals lies behind the previous one; for the first block, a multiple of the
interval. -/
def OnGrid (time : ℕ) : Prop :=
  if a.before.headBlockNumber = 0 then a.interval ∣ time
  else ∃ k, 0 < k ∧ time = a.before.nextMaintenanceTime + k * a.interval

/-- **The next maintenance time is the next one**: behind the block, on the grid of the intervals, and the first of this
kind; so that `time_to_maint` is positive and at most the interval. -/
structure NextMaintenance : Prop where
  later : a.time < a.after.nextMaintenanceTime
  onGrid : a.OnGrid a.after.nextMaintenanceTime
  least : ∀ time, a.time < time → a.OnGrid time → a.after.nextMaintenanceTime ≤ time
  budget : 0 < a.after.timeToMaint ∧ a.after.timeToMaint ≤ a.interval

/-- The time of the block and the interval are small enough for a `time_point_sec`. -/
def Representable : Prop := a.time + a.interval < 2 ^ 32 + (a.time - a.origin) % a.interval

/-- The new time before it is cut down to 32 bits. -/
def exactNext : ℕ := a.origin + ((a.time - a.origin) / a.interval + 1) * a.interval

end AppliedBlock

/-! ### The search -/

section Search

variable {origin interval time : ℕ}

variable (interval) in
/-- The first step behind a time, in terms of what is left of an interval. -/
theorem next_eq (hle : origin ≤ time) :
    origin + ((time - origin) / interval + 1) * interval + (time - origin) % interval = time + interval := by
  have hsplit := Nat.div_add_mod' (time - origin) interval
  calc origin + ((time - origin) / interval + 1) * interval + (time - origin) % interval
      = origin + ((time - origin) / interval * interval + (time - origin) % interval) + interval := by ring
    _ = time + interval := by rw [hsplit, Nat.add_sub_cancel' hle]

/-- Every step behind the time is at least the first one. -/
theorem next_le (hle : origin ≤ time) {k : ℕ} (hlt : time < origin + k * interval) :
    origin + ((time - origin) / interval + 1) * interval ≤ origin + k * interval := by
  have hk : (time - origin) / interval < k := Nat.div_lt_of_lt_mul (by rw [Nat.mul_comm]; omega)
  exact Nat.add_le_add_left (Nat.mul_le_mul_right interval hk) origin

end Search

/-! ### A maintenance block -/

theorem ParameterChange.apply_interval {c : ParameterChange} {s s' : Registrations} (h : c.apply s = .ok s') :
    s'.parameters.maintenanceInterval = s.parameters.maintenanceInterval := by
  cases c with
  | accountCreate =>
    unfold ParameterChange.apply Registrations.register at h
    obtain ⟨rest, -, h⟩ := except_bind_eq_ok.mp h
    split at h
    · obtain ⟨fee, -, h⟩ := except_bind_eq_ok.mp h
      cases h
      rfl
    · cases h
      rfl
  | updateGlobalParameters p =>
    cases h
    rfl
  | hardFork =>
    cases h
    rfl

theorem foldlM_apply_interval : ∀ {changes : List ParameterChange} {s s' : Registrations},
    changes.foldlM ParameterChange.apply s = .ok s' →
      s'.parameters.maintenanceInterval = s.parameters.maintenanceInterval
  | [], _, _, h => by
    cases h
    rfl
  | c :: changes, s, s', h => by
    rw [List.foldlM_cons] at h
    obtain ⟨s₁, hc, hrest⟩ := except_bind_eq_ok.mp h
    exact (foldlM_apply_interval hrest).trans (ParameterChange.apply_interval hc)

/-- Both ways of forming the time compute the same number of 32 bits. -/
theorem followingMaintenance_eq_ok {p : GlobalParameters} {next next' : ℕ} {b : SlotBlock}
    (hneeded : next ≤ b.timestamp) (h : p.followingMaintenance next b = .ok next') :
    0 < p.maintenanceInterval.toNat ∧
      next' = word32 ((if b.blockNum = 1 then 0 else next) + ((b.timestamp -
        (if b.blockNum = 1 then 0 else next)) / p.maintenanceInterval.toNat + 1) *
          p.maintenanceInterval.toNat) := by
  have hdivide : ∀ {x y z : ℕ}, divide x y = .ok z → 0 < y ∧ z = x / y := by
    intro x y z h
    unfold divide at h
    split at h
    · cases h
    next hne =>
    cases h
    exact ⟨Nat.pos_of_ne_zero hne, rfl⟩
  unfold GlobalParameters.followingMaintenance at h
  simp only [if_pos hneeded] at h
  by_cases hfirst : b.blockNum = 1
  · rw [if_pos hfirst] at h
    obtain ⟨intervals, hintervals, h⟩ := except_bind_eq_ok.mp h
    obtain ⟨hpos, rfl⟩ := hdivide hintervals
    cases h
    refine ⟨hpos, ?_⟩
    rw [if_pos hfirst, Nat.sub_zero, Nat.zero_add, word32, word32, word32, Nat.mod_mul_mod]
  · rw [if_neg hfirst] at h
    obtain ⟨y, hy, h⟩ := except_bind_eq_ok.mp h
    obtain ⟨hpos, rfl⟩ := hdivide hy
    cases h
    refine ⟨hpos, ?_⟩
    rw [if_neg hfirst, word32, word32, word32, Nat.add_mod_mod]

namespace AppliedBlock

variable {a : AppliedBlock}

/-- **What a maintenance block does**: the interval in force is not zero, and the new time is the exact one as a
number of 32 bits. -/
theorem maintained (hneeded : a.before.maintNeeded a.block) :
    0 < a.interval ∧ a.after.headBlockTime = a.time ∧ a.after.nextMaintenanceTime = word32 a.exactNext := by
  have h := a.applied
  unfold MaintenanceState.applyBlock at h
  obtain ⟨registrations, -, h⟩ := except_bind_eq_ok.mp h
  simp only [if_pos hneeded] at h
  obtain ⟨s₁, hmaintenance, h⟩ := except_bind_eq_ok.mp h
  obtain ⟨registrations', hafterwards, h⟩ := except_bind_eq_ok.mp h
  unfold MaintenanceState.performChainMaintenance at hmaintenance
  obtain ⟨registrations₁, -, hmaintenance⟩ := except_bind_eq_ok.mp hmaintenance
  obtain ⟨next, hnext, hmaintenance⟩ := except_bind_eq_ok.mp hmaintenance
  cases hmaintenance
  have hafter : a.after = ⟨a.before.headBlockNumber + 1, a.time, next, registrations'⟩ :=
    (Except.ok.inj h).symm
  have hinterval : a.interval = registrations₁.parameters.maintenanceInterval.toNat := by
    rw [interval, hafter]
    exact congrArg UInt32.toNat (foldlM_apply_interval hafterwards)
  obtain ⟨hpos, hnext⟩ := followingMaintenance_eq_ok hneeded hnext
  have hfirst : (⟨a.before.headBlockNumber + 1 - 1, a.block.timestamp.toNat, 0⟩ : SlotBlock).blockNum = 1 ↔
      a.before.headBlockNumber = 0 := by
    show a.before.headBlockNumber + 1 - 1 + 1 = 1 ↔ _
    omega
  refine ⟨hinterval ▸ hpos, by rw [hafter], ?_⟩
  rw [exactNext, hafter, hinterval, origin]
  simp only [hfirst] at hnext
  exact hnext

theorem origin_le_time (hneeded : a.before.maintNeeded a.block) : a.origin ≤ a.time := by
  unfold origin
  split
  · exact Nat.zero_le _
  · exact hneeded

/-- The grid is counted from the origin. -/
theorem OnGrid.exists_steps {time : ℕ} (h : a.OnGrid time) : ∃ k, time = a.origin + k * a.interval := by
  unfold OnGrid at h
  unfold origin
  split at h
  next hfirst =>
    obtain ⟨k, rfl⟩ := h
    exact ⟨k, by rw [if_pos hfirst, Nat.zero_add, Nat.mul_comm]⟩
  next hfirst =>
    obtain ⟨k, -, rfl⟩ := h
    exact ⟨k, by rw [if_neg hfirst]⟩

/-- **The search is exact**: it finds the first time on the grid that lies behind the block. -/
theorem exactNext_spec (hneeded : a.before.maintNeeded a.block) (hpos : 0 < a.interval) :
    a.time < a.exactNext ∧ a.exactNext ≤ a.time + a.interval ∧ a.OnGrid a.exactNext ∧
      ∀ time, a.time < time → a.OnGrid time → a.exactNext ≤ time := by
  have horigin := origin_le_time hneeded
  have heq := next_eq a.interval horigin
  have hrest := Nat.mod_lt (a.time - a.origin) hpos
  refine ⟨by rw [exactNext]; omega, by rw [exactNext]; omega, ?_, ?_⟩
  · unfold OnGrid exactNext origin
    split
    · rw [Nat.zero_add]
      exact Dvd.intro_left _ rfl
    · exact ⟨_, Nat.succ_pos _, rfl⟩
  · intro time hlt hgrid
    obtain ⟨k, rfl⟩ := hgrid.exists_steps
    exact next_le horigin hlt

theorem representable_iff (hneeded : a.before.maintNeeded a.block) : a.Representable ↔ a.exactNext < 2 ^ 32 := by
  have heq := next_eq a.interval (origin_le_time hneeded)
  unfold Representable exactNext
  omega

/-- **One maintenance block**: the new time is the next one if and only if it is representable. Nothing before
the exact time is on the grid, and what is cut down is before it. -/
theorem nextMaintenance_iff_representable (hneeded : a.before.maintNeeded a.block) :
    a.NextMaintenance ↔ a.Representable := by
  obtain ⟨hpos, hhead, hnext⟩ := maintained hneeded
  obtain ⟨hlt, hle, hgrid, hleast⟩ := exactNext_spec hneeded hpos
  rw [representable_iff hneeded]
  constructor
  · intro h
    have hexact := hleast _ h.later h.onGrid
    have hbound : word32 a.exactNext < 2 ^ 32 := Nat.mod_lt _ (by decide)
    rw [hnext] at hexact
    exact hexact.trans_lt hbound
  · intro hfits
    rw [word32_of_lt hfits] at hnext
    refine ⟨hnext ▸ hlt, hnext ▸ hgrid, hnext ▸ hleast, ?_⟩
    unfold MaintenanceState.timeToMaint
    rw [hhead, hnext]
    omega

/-- A block that is no maintenance block leaves the time alone, which lies behind it. -/
theorem waiting (hwaits : ¬ a.before.maintNeeded a.block) : a.after.headBlockTime < a.after.nextMaintenanceTime := by
  have h := a.applied
  unfold MaintenanceState.applyBlock at h
  obtain ⟨registrations, -, h⟩ := except_bind_eq_ok.mp h
  simp only [if_neg hwaits] at h
  obtain ⟨s₁, hs₁, h⟩ := except_bind_eq_ok.mp h
  cases hs₁
  obtain ⟨registrations', -, h⟩ := except_bind_eq_ok.mp h
  rw [← Except.ok.inj h]
  exact Nat.not_le.mp hwaits

end AppliedBlock

/-! ### Every run -/

/-- **The next maintenance time is the next one** in every maintenance block of a run if and only if it is
representable in all of them. In such a run every state after a block waits for a time that is still to come. -/
theorem nextMaintenance_iff {genesis s : MaintenanceState} {blocks : List AppliedBlock} (hrun : Run genesis blocks s) :
    ((∀ a ∈ blocks, a.before.maintNeeded a.block → a.NextMaintenance) ↔
      ∀ a ∈ blocks, a.before.maintNeeded a.block → a.Representable) ∧
    ((∀ a ∈ blocks, a.before.maintNeeded a.block → a.Representable) →
      blocks ≠ [] → 0 < s.timeToMaint) := by
  refine ⟨forall₂_congr fun a _ => forall_congr' AppliedBlock.nextMaintenance_iff_representable, ?_⟩
  intro hfits hne
  cases hrun with
  | nil => exact absurd rfl hne
  | push a hrun =>
    by_cases hneeded : a.before.maintNeeded a.block
    · exact ((AppliedBlock.nextMaintenance_iff_representable hneeded).mpr
        (hfits a List.mem_cons_self hneeded)).budget.1
    · have hlater := AppliedBlock.waiting hneeded
      unfold MaintenanceState.timeToMaint
      omega

/-! ### An interval of some decades -/

/-- Validated parameters with an interval of three billion seconds. -/
def decadesParameters : {p : GlobalParameters // p.validate = true} :=
  ⟨{ hardForkParameters with maintenanceInterval := 3000000000 }, by decide⟩

/-- A chain that starts in 2017. -/
def genesis2017 : MaintenanceState := ⟨0, 1499999997, 0, ⟨hardForkParameters, none, 0⟩⟩

/-- The first block, after which the committee decides on the interval. -/
def firstMaintenance : AppliedBlock where
  before := genesis2017
  block := ⟨1500000000, [], [.updateGlobalParameters decadesParameters]⟩
  after := ⟨1, 1500000000, 1500076800, ⟨hardForkParameters, some decadesParameters.1, 0⟩⟩
  header := by decide
  applied := rfl

/-- The maintenance that puts the interval in force. -/
def secondMaintenance : AppliedBlock where
  before := firstMaintenance.after
  block := ⟨1500076800, [], []⟩
  after := ⟨2, 1500076800, 205109504, ⟨decadesParameters.1, none, 0⟩⟩
  header := by decide
  applied := rfl

/-- The new time lies 41 years in the past. -/
theorem not_nextMaintenance : ¬ ∀ (genesis s : MaintenanceState) (blocks : List AppliedBlock),
    genesis.headBlockNumber = 0 → genesis.nextMaintenanceTime = 0 → genesis.parameters.validate = true →
      Run genesis blocks s → ∀ a ∈ blocks, a.before.maintNeeded a.block → a.NextMaintenance := by
  intro hall
  have hrun : Run genesis2017 [secondMaintenance, firstMaintenance] secondMaintenance.after :=
    .push secondMaintenance (.push firstMaintenance .nil)
  have hnext := hall _ _ _ rfl rfl (by decide) hrun secondMaintenance List.mem_cons_self (by decide)
  exact absurd hnext.later (by decide)

/-- The first two blocks of the chain. -/
theorem nextMaintenance_iff_decades :
    ((∀ a ∈ [secondMaintenance, firstMaintenance], a.before.maintNeeded a.block → a.NextMaintenance) ↔
      ∀ a ∈ [secondMaintenance, firstMaintenance], a.before.maintNeeded a.block → a.Representable) ∧
    ((∀ a ∈ [secondMaintenance, firstMaintenance], a.before.maintNeeded a.block → a.Representable) →
      [secondMaintenance, firstMaintenance] ≠ [] → 0 < secondMaintenance.after.timeToMaint) :=
  nextMaintenance_iff (.push secondMaintenance (.push firstMaintenance .nil))

end FinChain.Chain
